import Roster.Engine.Control
import Roster.Proofs.Storage

/-!
# Proofs.Restart — settings that are stored and started again

* `Duration.wholeMillis_le`, `Duration.wholeMillis_eq_zero_iff`: rounding down keeps the order, and
  leaves nothing of less than a millisecond.
* `Config.breaks_wholeMillis_iff`: so the only rules that valid settings can come to break are those
  against an interval and a delay of nothing.
* `Config.stored_settings_start_again`: when settings that are read back are valid, and start.
* `Config.half_millisecond_is_lost`: valid settings that are not.
-/

namespace Roster

/-! ## Rounding down -/

namespace Duration

theorem wholeMillis_le {a b : Duration} (h : a ≤ b) : a.wholeMillis ≤ b.wholeMillis :=
  Nat.mul_le_mul_right _ (Nat.div_le_div_right h)

theorem wholeMillis_eq_zero_iff {d : Duration} : d.wholeMillis.nanos = 0 ↔ d.nanos < milli := by
  show d.nanos / milli * milli = 0 ↔ _
  rw [Nat.mul_eq_zero, or_iff_left (by decide), Nat.div_eq_zero_iff, or_iff_right (by decide)]

end Duration

namespace Config

open Violation

variable {c : Config}

/-- **What is stored reads back in whole milliseconds.** -/
theorem ofJson?_of_toJson {text : String} (stored : c.toJson = .ok text) :
    ofJson? text = some c.wholeMillis := by
  have short : ∀ d ∈ c.durations, ¬ d.Long := by
    intro d mem long
    obtain ⟨u, fails⟩ := toJson_fails_iff.2 ⟨d, mem, long⟩
    cases stored.symm.trans fails
  obtain ⟨text', stored', read⟩ := ofJson?_of_short short
  obtain rfl := Except.ok.inj (stored.symm.trans stored')
  exact read

/-! ## Rules -/

/-- **The rules that valid settings break in whole milliseconds.** The others do not notice. -/
theorem breaks_wholeMillis_iff (valid : c.validate = .ok ()) {rule : Violation} :
    rule.Breaks c.wholeMillis ↔
      rule = .queryIntervalZero ∧ c.queryInterval.nanos < Duration.milli ∨
      rule = .initialDelayZero ∧ c.initialReconnectDelay.nanos < Duration.milli := by
  have spared := validate_ok_iff.1 valid
  cases rule with
  | queryIntervalZero =>
    have lost : Breaks c.wholeMillis .queryIntervalZero ↔ c.queryInterval.nanos < Duration.milli :=
      Duration.wholeMillis_eq_zero_iff
    simpa using lost
  | initialDelayZero =>
    have lost : Breaks c.wholeMillis .initialDelayZero ↔ c.initialReconnectDelay.nanos < Duration.milli :=
      Duration.wholeMillis_eq_zero_iff
    simpa using lost
  | operationAttemptsZero => exact iff_of_false (spared .operationAttemptsZero) (by simp)
  | delaysInverted initial max =>
    have ordered : ¬ c.maxReconnectDelay.wholeMillis < c.initialReconnectDelay.wholeMillis :=
      Nat.not_lt_of_le (Duration.wholeMillis_le (bounds_of_validate valid).2.2.2)
    refine iff_of_false ?_ (by simp)
    rintro ⟨rfl, rfl, lower⟩
    exact ordered lower
  | serviceEmpty => exact iff_of_false (spared .serviceEmpty) (by simp)
  | namespaceEmpty => exact iff_of_false (spared .namespaceEmpty) (by simp)

/-- Valid settings are valid in whole milliseconds if something is left of the interval and of the first
reconnect delay. -/
theorem validate_wholeMillis_iff (valid : c.validate = .ok ()) :
    c.wholeMillis.validate = .ok () ↔
      Duration.milli ≤ c.queryInterval.nanos ∧ Duration.milli ≤ c.initialReconnectDelay.nanos := by
  rw [validate_ok_iff]
  constructor
  · refine fun spared => ⟨Nat.le_of_not_lt fun short => ?_, Nat.le_of_not_lt fun short => ?_⟩
    · exact spared _ ((breaks_wholeMillis_iff valid).2 (.inl ⟨rfl, short⟩))
    · exact spared _ ((breaks_wholeMillis_iff valid).2 (.inr ⟨rfl, short⟩))
  · rintro ⟨interval, delay⟩ rule breaks
    rcases (breaks_wholeMillis_iff valid).1 breaks with ⟨-, short⟩ | ⟨-, short⟩
    · exact absurd short (Nat.not_lt_of_le interval)
    · exact absurd short (Nat.not_lt_of_le delay)

/-- Discovery starts if the settings are valid and the directory can answer the selector. -/
theorem starts_iff {directory : Directory} {reactions : List Reaction} :
    (∃ e, Engine.start c directory reactions = .ok e) ↔
      c.validate = .ok () ∧ directory.supports c.selector = true := by
  unfold Engine.start
  cases valid : c.validate with
  | error rule => simp
  | ok =>
    cases supported : directory.supports c.selector with
    | false => simp
    | true => simp

/-- **When stored settings can be started again.** Settings that are valid and can be stored read back as
valid ones if and only if their interval and their first reconnect delay have at least a millisecond: a
shorter one reads back as nothing at all, and these two rules are the only ones that can then be broken.
Under the same condition discovery that runs with the settings starts again, over the same directory, with
what was stored. -/
theorem stored_settings_start_again {text : String} (valid : c.validate = .ok ())
    (stored : c.toJson = .ok text) : ∃ d, ofJson? text = some d ∧
      (d.validate = .ok () ↔
        Duration.milli ≤ c.queryInterval.nanos ∧ Duration.milli ≤ c.initialReconnectDelay.nanos) ∧
      (∀ rule : Violation, rule.Breaks d ↔
        rule = .queryIntervalZero ∧ c.queryInterval.nanos < Duration.milli ∨
        rule = .initialDelayZero ∧ c.initialReconnectDelay.nanos < Duration.milli) ∧
      ∀ directory reactions, (∃ e, Engine.start c directory reactions = .ok e) →
        ((∃ e, Engine.start d directory reactions = .ok e) ↔
          Duration.milli ≤ c.queryInterval.nanos ∧ Duration.milli ≤ c.initialReconnectDelay.nanos) := by
  have same := validate_wholeMillis_iff valid
  refine ⟨c.wholeMillis, ofJson?_of_toJson stored, same, fun rule => breaks_wholeMillis_iff valid, ?_⟩
  intro directory reactions started
  -- the selector is stored as it is, so the directory can answer it again
  have supported : directory.supports c.wholeMillis.selector = true := (starts_iff.1 started).2
  rw [starts_iff, and_iff_left supported, same]

/-- An interval of two and a half milliseconds loses half of one, a delay of just under two milliseconds
nearly all of the second. -/
def fractional : Config :=
  { standard with
    queryInterval := .ofNanos 2500000
    initialReconnectDelay := .ofNanos 1999999
    maxReconnectDelay := .ofNanos 1999999 }

/-- They are stored with a loss, and start again. -/
theorem fractional_starts_again :
    fractional.validate = .ok () ∧ fractional.wholeMillis ≠ fractional ∧
    ∃ text d, fractional.toJson = .ok text ∧ ofJson? text = some d ∧ d.validate = .ok () ∧
      ∃ e, Engine.start d (.fixed ⟨[]⟩) [] = .ok e := by
  have valid : fractional.validate = .ok () := by decide
  obtain ⟨text, stored, -⟩ := ofJson?_of_short (c := fractional) (by decide)
  obtain ⟨d, read, validAgain, -, startsAgain⟩ := stored_settings_start_again valid stored
  have long : Duration.milli ≤ fractional.queryInterval.nanos ∧
      Duration.milli ≤ fractional.initialReconnectDelay.nanos := by decide
  have started : ∃ e, Engine.start fractional (.fixed ⟨[]⟩) [] = .ok e := starts_iff.2 ⟨valid, rfl⟩
  exact ⟨valid, by decide, text, d, stored, read, validAgain.2 long,
    (startsAgain (.fixed ⟨[]⟩) [] started).2 long⟩

/-- **An interval of half a millisecond is lost.** The settings are valid, can be stored and start; what is
read back is not valid and does not start. -/
theorem half_millisecond_is_lost :
    let c : Config := { standard with queryInterval := .ofNanos 500000 }
    c.validate = .ok () ∧ (∃ e, Engine.start c (.fixed ⟨[]⟩) [] = .ok e) ∧
    ∃ text d, c.toJson = .ok text ∧ ofJson? text = some d ∧
      d.validate = .error .queryIntervalZero ∧ ¬ ∃ e, Engine.start d (.fixed ⟨[]⟩) [] = .ok e := by
  intro c
  have valid : c.validate = .ok () := by decide
  obtain ⟨text, stored, read⟩ := ofJson?_of_short (c := c) (by decide)
  have refused : c.wholeMillis.validate = .error .queryIntervalZero := by decide
  refine ⟨valid, starts_iff.2 ⟨valid, rfl⟩, text, c.wholeMillis, stored, read, refused, fun again => ?_⟩
  cases refused.symm.trans (starts_iff.1 again).1

end Config

end Roster
