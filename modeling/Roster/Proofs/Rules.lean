import Roster.Config.Basic

/-!
# Proofs.Rules — the rules that settings can break

* `Violation.Breaks`: settings break a rule. `Violation.First`: and none before it.
* `Reports.check`: what the check of one rule adds. `validate_reports`: either no rule is broken, or the
  first broken one is reported.
* `bounds_of_validate`: the delays and counts of settings that break no rule.
-/

namespace Roster

variable {c : Config}

namespace Violation

/-- The settings break the rule. -/
def Breaks (c : Config) : Violation → Prop
  | queryIntervalZero => c.queryInterval.nanos = 0
  | operationAttemptsZero => c.operationAttempts = 0
  | initialDelayZero => c.initialReconnectDelay.nanos = 0
  | delaysInverted initial max =>
    initial = c.initialReconnectDelay ∧ max = c.maxReconnectDelay ∧ max < initial
  | serviceEmpty => ∃ name, c.selector = .service name ∧ ∀ ch ∈ name.toList, Blank.isBlank ch = true
  | namespaceEmpty => ∃ space labels, c.selector = .pods space labels ∧
      ∀ ch ∈ space.toList, Blank.isBlank ch = true

/-- The place of the rule in the order in which rules are checked. -/
def place : Violation → Nat
  | queryIntervalZero => 0
  | operationAttemptsZero => 1
  | initialDelayZero => 2
  | delaysInverted _ _ => 3
  | serviceEmpty | namespaceEmpty => 4

/-- The settings break the rule and none before it. -/
def First (c : Config) (rule : Violation) : Prop :=
  rule.Breaks c ∧ ∀ rule' : Violation, rule'.Breaks c → rule.place ≤ rule'.place

end Violation

namespace Config

open Violation

theorem isZero_iff {d : Duration} : d.isZero = true ↔ d.nanos = 0 := beq_iff_eq

theorem isEmpty_iff {s : String} : Blank.isEmpty s = true ↔ ∀ ch ∈ s.toList, Blank.isBlank ch = true :=
  List.all_eq_true

/-- The answer of a check is right: it is the first broken rule, or no rule is broken. -/
def Reports (c : Config) (answer : Except Violation Unit) : Prop :=
  (answer = .ok () ∧ ∀ rule : Violation, ¬ rule.Breaks c) ∨
    ∃ rule : Violation, answer = .error rule ∧ rule.First c

/-- One rule is checked, after those before its place and before the rest. -/
theorem Reports.check {rule : Violation} {broken : Prop} [Decidable broken] {rest : Except Violation Unit}
    (ahead : ∀ rule' : Violation, rule'.Breaks c → rule.place ≤ rule'.place)
    (breaks : broken → rule.Breaks c)
    (spared : ¬ broken → ∀ rule' : Violation, rule'.place = rule.place → ¬ rule'.Breaks c)
    (later : (∀ rule' : Violation, rule'.Breaks c → rule.place + 1 ≤ rule'.place) → Reports c rest) :
    Reports c (if broken then .error rule else rest) := by
  by_cases h : broken
  · exact .inr ⟨rule, if_pos h, breaks h, ahead⟩
  · rw [if_neg h]
    refine later fun rule' breaks' => Nat.lt_of_le_of_ne (ahead rule' breaks') fun same => ?_
    exact spared h rule' same.symm breaks'

theorem Reports.done (ahead : ∀ rule : Violation, rule.Breaks c → 5 ≤ rule.place) :
    Reports c (.ok ()) := by
  refine .inl ⟨rfl, fun rule breaks => ?_⟩
  have last := ahead rule breaks
  cases rule <;> simp [Violation.place] at last

/-- **Either no rule is broken, or the first broken one is reported.** -/
theorem validate_reports (c : Config) : Reports c c.validate := by
  unfold validate
  refine .check (fun _ _ => Nat.zero_le _) isZero_iff.1 (fun sound rule here => ?_) fun ahead => ?_
  · cases rule with
    | queryIntervalZero => exact fun zero => sound (isZero_iff.2 zero)
    | _ => cases here
  refine .check ahead id (fun sound rule here => ?_) fun ahead => ?_
  · cases rule with
    | operationAttemptsZero => exact sound
    | _ => cases here
  refine .check ahead isZero_iff.1 (fun sound rule here => ?_) fun ahead => ?_
  · cases rule with
    | initialDelayZero => exact fun zero => sound (isZero_iff.2 zero)
    | _ => cases here
  refine .check ahead (fun lower => ⟨rfl, rfl, lower⟩) (fun sound rule here => ?_) fun ahead => ?_
  · cases rule with
    | delaysInverted _ _ =>
      rintro ⟨rfl, rfl, lower⟩
      exact sound lower
    | _ => cases here
  cases selected : c.selector with
  | service name =>
    refine .check ahead (fun blank => ⟨name, selected, isEmpty_iff.1 blank⟩) (fun sound rule here => ?_)
      Reports.done
    cases rule with
    | serviceEmpty =>
      rintro ⟨name', same, blank⟩
      obtain rfl := Selector.service.inj (selected.symm.trans same)
      exact sound (isEmpty_iff.2 blank)
    | namespaceEmpty => exact fun ⟨_, _, same, _⟩ => nomatch selected.symm.trans same
    | _ => cases here
  | pods space labels =>
    refine .check ahead (fun blank => ⟨space, labels, selected, isEmpty_iff.1 blank⟩)
      (fun sound rule here => ?_) Reports.done
    cases rule with
    | serviceEmpty => exact fun ⟨_, same, _⟩ => nomatch selected.symm.trans same
    | namespaceEmpty =>
      rintro ⟨space', labels', same, blank⟩
      obtain rfl := (Selector.pods.inj (selected.symm.trans same)).1
      exact sound (isEmpty_iff.2 blank)
    | _ => cases here

theorem validate_ok_iff : c.validate = .ok () ↔ ∀ rule : Violation, ¬ rule.Breaks c := by
  rcases c.validate_reports with ⟨ok, spared⟩ | ⟨rule, fails, first⟩
  · exact iff_of_true ok spared
  · exact iff_of_false (fun ok => nomatch ok.symm.trans fails) fun spared => spared rule first.1

/-- What the rules say about settings that break none. -/
theorem bounds_of_validate (h : c.validate = .ok ()) :
    0 < c.queryInterval.nanos ∧ c.operationAttempts ≠ 0 ∧ 0 < c.initialReconnectDelay.nanos ∧
      c.initialReconnectDelay ≤ c.maxReconnectDelay := by
  have spared := validate_ok_iff.1 h
  exact ⟨Nat.pos_of_ne_zero (spared .queryIntervalZero), spared .operationAttemptsZero,
    Nat.pos_of_ne_zero (spared .initialDelayZero),
    Nat.le_of_not_lt fun lower => spared (.delaysInverted _ _) ⟨rfl, rfl, lower⟩⟩

end Config

end Roster
