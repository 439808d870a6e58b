import Roster.Retry

/-!
# Proofs.Series — how a series of attempts goes, attempt by attempt

* `Script.answer`: the answer to the attempt with a given number. Attempts are numbered from 0.
* `Retry.begins`, `finishes`, `comesTo`: the timetable of a series that nothing cuts short.
* `Passes`: the first attempts fail, and every pause after them is waited out. `Passes.series`: the
  series is then where the timetable says.
* `Passes.decided`, `Passes.cut`, `Passes.spent`: the three ends of a series.
* `Retry.FitsClock`: the clock can represent an attempt and the pause after it. `runs_as_scheduled`: on
  a clock that can represent those that are made, the timetable in closed form.
* `stop_cuts_short`: a request to stop, at whatever point of the timetable it comes.
-/

namespace Roster

/-- Whole ticks, which from this time on end at a point that the clock can represent. -/
def Duration.FitsFrom (d : Duration) (time : Nat) : Prop :=
  d.nanos % Clock.tick = 0 ∧ time + d.nanos < Clock.horizon

instance (d : Duration) (time : Nat) : Decidable (d.FitsFrom time) :=
  inferInstanceAs (Decidable (_ ∧ _))

variable {α : Type}

/-! ## Scripts -/

namespace Script

/-- The answer to the attempt with this number. -/
def answer (s : Script α) (j : Nat) : Answer α := s.answers[j]?.getD (s.fallback.getD spent)

/-- The script after the first `k` answers. -/
def drop (s : Script α) (k : Nat) : Script α := { s with answers := s.answers.drop k }

theorem next_eq (s : Script α) : s.next = (s.answer 0, s.drop 1) := by
  obtain ⟨answers, fallback⟩ := s
  cases answers with
  | nil => rfl
  | cons a rest => rfl

theorem answer_drop (s : Script α) (k j : Nat) : (s.drop k).answer j = s.answer (k + j) := by
  unfold answer drop
  rw [List.getElem?_drop]

theorem drop_drop (s : Script α) (k l : Nat) : (s.drop k).drop l = s.drop (k + l) := by
  unfold drop
  rw [List.drop_drop]

@[simp] theorem drop_zero (s : Script α) : s.drop 0 = s := rfl

end Script

namespace Retry

namespace Signal

/-- When the request to stop comes. -/
def time? : Signal → Option Nat
  | never => none
  | closes time | sends time => some time

/-- Nobody asks to stop up to this time. -/
def QuietUntil (s : Signal) (time : Nat) : Prop := ∀ t ∈ s.time?, time < t

instance (s : Signal) (time : Nat) : Decidable (s.QuietUntil time) :=
  inferInstanceAs (Decidable (∀ t ∈ s.time?, time < t))

theorem QuietUntil.mono {s : Signal} {time time' : Nat} (h : s.QuietUntil time)
    (hle : time' ≤ time) : s.QuietUntil time' := fun t ht => Nat.lt_of_le_of_lt hle (h t ht)

theorem QuietUntil.isClosed {s : Signal} {time : Nat} (h : s.QuietUntil time) :
    s.isClosed time = false := by
  cases s with
  | closes t => exact decide_eq_false (Nat.not_le.2 (h t rfl))
  | _ => rfl

theorem QuietUntil.cut? {s : Signal} {stop : Nat} (h : s.QuietUntil stop) (start : Nat) :
    s.cut? start stop = none := by
  cases s with
  | never => rfl
  | closes t => exact if_neg (Nat.not_lt.2 (Nat.le_of_lt (h t rfl)))
  | sends t => exact if_neg (Nat.not_lt.2 (Nat.le_of_lt (h t rfl)))

theorem cut?_of_lt {s : Signal} {time start stop : Nat} (hs : s.time? = some time)
    (h : time < stop) : s.cut? start stop = some (max time start) := by
  cases s with
  | never => cases hs
  | closes t => cases hs; exact if_pos h
  | sends t => cases hs; exact if_pos h

end Signal

/-- An attempt that is not repeated: a success, or an error that no repetition mends. -/
def isDecisive : Except DiscoveryError α → Bool
  | .ok _ => true
  | .error e => !e.isTransient

theorem repeatable?_of_decisive {outcome : Except DiscoveryError α} (h : isDecisive outcome = true) :
    repeatable? outcome = none := by
  cases outcome with
  | ok value => rfl
  | error e =>
    have final : e.isTransient = false := by simpa [isDecisive] using h
    simp [repeatable?, final]

theorem repeatable?_of_not_decisive {outcome : Except DiscoveryError α}
    (h : isDecisive outcome = false) :
    ∃ last, outcome = .error last ∧ repeatable? outcome = some last := by
  cases outcome with
  | ok value => cases h
  | error e =>
    have transient : e.isTransient = true := by simpa [isDecisive] using h
    have kept : e.isCancelled = false := by
      cases e with
      | cancelled => cases transient
      | shutdown => cases transient
      | _ => rfl
    exact ⟨e, rfl, by simp [repeatable?, transient, kept]⟩

/-! ## The timetable -/

section Timetable

variable (r : Retry) (operation : String) (script : Script α) (now : Nat)

/-- When the attempt with this number begins, if nothing cuts the series short before. -/
def begins : Nat → Nat
  | 0 => now
  | j + 1 => Clock.after (r.outcome operation (begins j) (script.answer j)).1 r.delay

/-- When that attempt ends. -/
def finishes (j : Nat) : Nat :=
  (r.outcome operation (r.begins operation script now j) (script.answer j)).1

/-- What that attempt comes to. -/
def comesTo (j : Nat) : Except DiscoveryError α :=
  (r.outcome operation (r.begins operation script now j) (script.answer j)).2

theorem begins_succ (j : Nat) : r.begins operation script now (j + 1) =
    Clock.after (r.finishes operation script now j) r.delay := rfl

/-- The timetable after the first attempt is that of the other answers. -/
theorem begins_drop (j : Nat) :
    r.begins operation (script.drop 1) (r.begins operation script now 1) j =
      r.begins operation script now (j + 1) := by
  induction j with
  | zero => rfl
  | succ j ih => rw [begins, ih, Script.answer_drop, Nat.add_comm 1 j, ← begins]

theorem finishes_drop (j : Nat) :
    r.finishes operation (script.drop 1) (r.begins operation script now 1) j =
      r.finishes operation script now (j + 1) := by
  rw [finishes, begins_drop, Script.answer_drop, Nat.add_comm 1 j, ← finishes]

theorem comesTo_drop (j : Nat) :
    r.comesTo operation (script.drop 1) (r.begins operation script now 1) j =
      r.comesTo operation script now (j + 1) := by
  rw [comesTo, begins_drop, Script.answer_drop, Nat.add_comm 1 j, ← comesTo]

/-- No attempt ends before it begins. -/
theorem begins_le_finishes (j : Nat) :
    r.begins operation script now j ≤ r.finishes operation script now j := by
  unfold finishes outcome
  split
  · exact Clock.le_after _ _
  · exact Nat.le_min.2 ⟨Clock.le_after _ _, Clock.le_after _ _⟩

theorem finishes_le_begins (j : Nat) :
    r.finishes operation script now j ≤ r.begins operation script now (j + 1) := Clock.le_after _ _

theorem begins_mono {j k : Nat} (h : j ≤ k) :
    r.begins operation script now j ≤ r.begins operation script now k := by
  induction h with
  | refl => exact Nat.le_refl _
  | step _ ih =>
    exact Nat.le_trans ih (Nat.le_trans (r.begins_le_finishes operation script now _)
      (r.finishes_le_begins operation script now _))

end Timetable

/-! ## Attempt by attempt -/

/-- The first `k` attempts fail, and every pause after them is waited out. -/
structure Passes (r : Retry) (operation : String) (signal : Signal) (script : Script α)
    (now k : Nat) : Prop where
  failed : ∀ j < k, isDecisive (r.comesTo operation script now j) = false
  waited : ∀ j < k, signal.cut? (r.finishes operation script now j)
    (r.begins operation script now (j + 1)) = none
  unclosed : ∀ j < k, signal.isClosed (r.begins operation script now (j + 1)) = false

variable {r : Retry} {operation : String} {signal : Signal} {script : Script α} {now k left : Nat}

/-- An attempt and the pause after it, with attempts to go. -/
theorem series_step (passes : r.Passes operation signal script now 1) (more : 0 < left) :
    r.series operation signal (left + 1) now script =
      let rest := r.series operation signal left (r.begins operation script now 1) (script.drop 1)
      { rest with starts := now :: rest.starts } := by
  obtain ⟨last, -, repeated⟩ := repeatable?_of_not_decisive (passes.failed 0 Nat.one_pos)
  have waited := passes.waited 0 Nat.one_pos
  have unclosed := passes.unclosed 0 Nat.one_pos
  have onward : r.ending? operation (signal.isClosed (r.begins operation script now 1)) left last =
      none := by
    rw [unclosed, ending?, if_neg (Nat.ne_of_gt more)]
    rfl
  rw [series, Script.next_eq]
  dsimp only
  rw [show repeatable? (r.outcome operation now (script.answer 0)).2 = some last from repeated]
  dsimp only
  rw [show signal.cut? (r.outcome operation now (script.answer 0)).1
    (Clock.after (r.outcome operation now (script.answer 0)).1 r.delay) = none from waited]
  dsimp only
  rw [show r.ending? operation (signal.isClosed
    (Clock.after (r.outcome operation now (script.answer 0)).1 r.delay)) left last = none from onward]
  rfl

theorem Passes.mono {l : Nat} (h : r.Passes operation signal script now k) (hle : l ≤ k) :
    r.Passes operation signal script now l where
  failed j hj := h.failed j (Nat.lt_of_lt_of_le hj hle)
  waited j hj := h.waited j (Nat.lt_of_lt_of_le hj hle)
  unclosed j hj := h.unclosed j (Nat.lt_of_lt_of_le hj hle)

theorem Passes.tail (h : r.Passes operation signal script now (k + 1)) :
    r.Passes operation signal (script.drop 1) (r.begins operation script now 1) k where
  failed j hj := by
    rw [comesTo_drop]
    exact h.failed (j + 1) (Nat.succ_lt_succ hj)
  waited j hj := by
    rw [finishes_drop, begins_drop]
    exact h.waited (j + 1) (Nat.succ_lt_succ hj)
  unclosed j hj := by
    rw [begins_drop]
    exact h.unclosed (j + 1) (Nat.succ_lt_succ hj)

/-- **After some attempts the series is where the timetable says**, with as many attempts less. -/
theorem Passes.series (h : r.Passes operation signal script now k) :
    r.series operation signal (k + (left + 1)) now script =
      let rest := r.series operation signal (left + 1) (r.begins operation script now k) (script.drop k)
      { rest with starts := (List.range k).map (r.begins operation script now) ++ rest.starts } := by
  induction k generalizing now script with
  | zero =>
    rw [Nat.zero_add]
    rfl
  | succ k ih =>
    have first := h.mono (Nat.succ_le_succ (Nat.zero_le k))
    have rest := ih h.tail
    have starts : (List.range (k + 1)).map (r.begins operation script now) =
        now :: (List.range k).map
          (r.begins operation (script.drop 1) (r.begins operation script now 1)) := by
      rw [List.range_succ_eq_map, List.map_cons, List.map_map, begins]
      refine congrArg (List.cons now) (List.map_congr_left fun j _ => ?_)
      rw [Function.comp_apply, begins_drop]
    rw [Nat.add_right_comm, series_step first (by omega), rest, begins_drop, Script.drop_drop,
      Nat.add_comm 1 k, starts]
    simp only [List.cons_append]

/-! ## The three ends -/

section Ends

variable (passes : r.Passes operation signal script now k) (begun : signal.isClosed now = false)
include passes begun

/-- After some attempts there is another one, if any is left. -/
theorem Passes.execute (more : k < r.attempts.toNat) :
    r.execute operation signal now script =
      let rest := r.series operation signal (r.attempts.toNat - k) (r.begins operation script now k)
        (script.drop k)
      { rest with starts := (List.range k).map (r.begins operation script now) ++ rest.starts } := by
  obtain ⟨left, hleft⟩ := Nat.exists_eq_add_of_lt more
  have attempts : r.attempts.toNat = k + (left + 1) := by omega
  rw [Retry.execute, begun, attempts, Nat.add_sub_cancel_left, ← passes.series]
  rfl

/-- A series ends with the first decisive attempt. -/
theorem Passes.decided (more : k < r.attempts.toNat)
    (decisive : isDecisive (r.comesTo operation script now k) = true) :
    r.execute operation signal now script =
      ⟨(List.range (k + 1)).map (r.begins operation script now), r.finishes operation script now k,
        r.comesTo operation script now k⟩ := by
  have final : repeatable? (r.outcome operation (r.begins operation script now k)
      (script.answer k)).2 = none := repeatable?_of_decisive decisive
  obtain ⟨left, hleft⟩ : ∃ left, r.attempts.toNat - k = left + 1 :=
    Nat.exists_eq_succ_of_ne_zero (Nat.sub_ne_zero_of_lt more)
  rw [passes.execute begun more, hleft, Retry.series, Script.next_eq, Script.answer_drop]
  dsimp only
  rw [Nat.add_zero, final, List.range_succ, List.map_append]
  rfl

/-- A series ends in the first pause that is cut short. -/
theorem Passes.cut (more : k < r.attempts.toNat)
    (failed : isDecisive (r.comesTo operation script now k) = false) {time : Nat}
    (cut : signal.cut? (r.finishes operation script now k) (r.begins operation script now (k + 1)) =
      some time) :
    r.execute operation signal now script =
      ⟨(List.range (k + 1)).map (r.begins operation script now), time, .error .cancelled⟩ := by
  obtain ⟨last, -, repeated⟩ := repeatable?_of_not_decisive failed
  replace repeated : repeatable? (r.outcome operation (r.begins operation script now k)
      (script.answer k)).2 = some last := repeated
  replace cut : signal.cut? (r.outcome operation (r.begins operation script now k)
      (script.answer k)).1 (Clock.after (r.outcome operation (r.begins operation script now k)
        (script.answer k)).1 r.delay) = some time := cut
  obtain ⟨left, hleft⟩ : ∃ left, r.attempts.toNat - k = left + 1 :=
    Nat.exists_eq_succ_of_ne_zero (Nat.sub_ne_zero_of_lt more)
  rw [passes.execute begun more, hleft, Retry.series, Script.next_eq, Script.answer_drop]
  dsimp only
  rw [Nat.add_zero, repeated]
  dsimp only
  rw [cut, List.range_succ, List.map_append]
  rfl

end Ends

/-- A series whose attempts all fail ends after the pause that follows the last of them. -/
theorem Passes.spent (passes : r.Passes operation signal script now r.attempts.toNat)
    (begun : signal.isClosed now = false) : ∃ last,
    r.comesTo operation script now (r.attempts.toNat - 1) = .error last ∧
    r.execute operation signal now script =
      ⟨(List.range r.attempts.toNat).map (r.begins operation script now),
        r.begins operation script now r.attempts.toNat, .error (r.exhausted operation last)⟩ := by
  have pos : 0 < r.attempts.toNat := UInt32.lt_iff_toNat_lt.1 r.attempts_pos
  obtain ⟨k, hk⟩ := Nat.exists_eq_succ_of_ne_zero (Nat.ne_of_gt pos)
  have more : k < r.attempts.toNat := by omega
  obtain ⟨last, hlast, repeated⟩ := repeatable?_of_not_decisive (passes.failed k more)
  have waited := passes.waited k more
  refine ⟨last, by rw [hk]; exact hlast, ?_⟩
  replace repeated : repeatable? (r.outcome operation (r.begins operation script now k)
      (script.answer k)).2 = some last := repeated
  replace waited : signal.cut? (r.outcome operation (r.begins operation script now k)
      (script.answer k)).1 (Clock.after (r.outcome operation (r.begins operation script now k)
        (script.answer k)).1 r.delay) = none := waited
  have one : r.attempts.toNat - k = 0 + 1 := by omega
  rw [(passes.mono (Nat.le_of_lt more)).execute begun more, one, Retry.series, Script.next_eq,
    Script.answer_drop]
  dsimp only
  rw [Nat.add_zero, repeated]
  dsimp only
  rw [waited, hk, List.range_succ, List.map_append]
  rfl

/-! ## The timetable in closed form -/

/-- How long an attempt takes. -/
def took (r : Retry) (a : Answer α) : Nat :=
  match r.timeout with
  | none => a.latency.nanos
  | some limit => min a.latency.nanos limit.nanos

/-- What an attempt comes to: the answer, or a timeout if that takes longer than allowed. -/
def verdict (r : Retry) (operation : String) (a : Answer α) : Except DiscoveryError α :=
  match r.timeout with
  | none => a.result
  | some limit => if limit < a.latency then .error (.timeout operation limit) else a.result

/-- How long the first attempts take together, as many as given. -/
def busy (r : Retry) (script : Script α) : Nat → Nat
  | 0 => 0
  | k + 1 => r.busy script k + r.took (script.answer k)

/-- When an attempt begins if those before it have taken their time and each was followed by a pause. -/
def opening (r : Retry) (script : Script α) (now k : Nat) : Nat :=
  now + r.busy script k + k * r.delay.nanos

/-- The clock can represent an attempt that begins at this time, and the pause after it if it fails. -/
structure FitsClock (r : Retry) (operation : String) (time : Nat) (a : Answer α) : Prop where
  latency : a.latency.FitsFrom time
  limit : ∀ t ∈ r.timeout, t.FitsFrom time
  pause : isDecisive (r.verdict operation a) = false → r.delay.FitsFrom (time + r.took a)

instance (r : Retry) (operation : String) (time : Nat) (a : Answer α) :
    Decidable (r.FitsClock operation time a) :=
  decidable_of_iff (a.latency.FitsFrom time ∧ (∀ t ∈ r.timeout, t.FitsFrom time) ∧
    (isDecisive (r.verdict operation a) = false → r.delay.FitsFrom (time + r.took a)))
    ⟨fun ⟨latency, limit, pause⟩ => ⟨latency, limit, pause⟩,
      fun ⟨latency, limit, pause⟩ => ⟨latency, limit, pause⟩⟩

/-- When an attempt that fits the clock ends, and with what. -/
theorem outcome_of_fits (ticks : now % Clock.tick = 0) {a : Answer α}
    (fits : r.FitsClock operation now a) :
    r.outcome operation now a = (now + r.took a, r.verdict operation a) := by
  obtain ⟨latency, limit, -⟩ := fits
  have ends := after_of_ticks ticks latency.1 latency.2
  unfold outcome took verdict
  cases ht : r.timeout with
  | none => rw [ends]
  | some after =>
    obtain ⟨whole, room⟩ := limit after ht
    dsimp only
    rw [ends, after_of_ticks ticks whole room, Nat.add_min_add_left]
    by_cases late : after < a.latency
    · rw [if_pos late, if_neg fun h => Nat.not_le.2 late (Nat.le_of_add_le_add_left h)]
    · rw [if_neg late, if_pos (Nat.add_le_add_left (Nat.not_lt.1 late) now)]

section Fits

variable {n : Nat} (ticks : now % Clock.tick = 0)
  (fits : ∀ j < n, (∀ i < j, isDecisive (r.verdict operation (script.answer i)) = false) →
    r.FitsClock operation (r.opening script now j) (script.answer j))
include ticks fits

/-- **The timetable in closed form**: an attempt begins when those before it have taken their time and
each was followed by a pause. -/
theorem begins_of_fits (hk : k ≤ n)
    (failed : ∀ j < k, isDecisive (r.verdict operation (script.answer j)) = false) :
    r.begins operation script now k = r.opening script now k ∧
      r.begins operation script now k % Clock.tick = 0 := by
  induction k with
  | zero => exact ⟨by simp [begins, opening, busy], ticks⟩
  | succ k ih =>
    have before : ∀ j < k, isDecisive (r.verdict operation (script.answer j)) = false :=
      fun j hj => failed j (Nat.lt_succ_of_lt hj)
    obtain ⟨begun, whole⟩ := ih (Nat.le_of_succ_le hk) before
    have fit : r.FitsClock operation (r.begins operation script now k) (script.answer k) :=
      begun ▸ fits k hk before
    have ended : r.finishes operation script now k % Clock.tick = 0 := outcome_mod _ _ _ _
    have ends : r.finishes operation script now k =
        r.begins operation script now k + r.took (script.answer k) :=
      congrArg Prod.fst (outcome_of_fits whole fit)
    obtain ⟨pause, room⟩ := fit.pause (failed k (Nat.lt_succ_self k))
    rw [← ends] at room
    refine ⟨?_, Clock.after_mod _ _⟩
    rw [begins_succ, after_of_ticks ended pause room, ends, begun, opening, opening, busy, Nat.succ_mul]
    omega

/-- When an attempt ends and with what, in closed form. -/
theorem ends_of_fits (hk : k < n)
    (failed : ∀ j < k, isDecisive (r.verdict operation (script.answer j)) = false) :
    r.finishes operation script now k = now + r.busy script (k + 1) + k * r.delay.nanos ∧
      r.comesTo operation script now k = r.verdict operation (script.answer k) := by
  obtain ⟨begun, whole⟩ := begins_of_fits ticks fits (Nat.le_of_lt hk) failed
  have outcome : r.outcome operation (r.begins operation script now k) (script.answer k) = _ :=
    outcome_of_fits whole (begun ▸ fits k hk failed)
  refine ⟨?_, congrArg Prod.snd outcome⟩
  rw [finishes, outcome, begun, opening, busy]
  omega

/-- When the attempts up to one begin that come after failures only. -/
theorem starts_of_fits (hk : k ≤ n)
    (failed : ∀ j < k - 1, isDecisive (r.verdict operation (script.answer j)) = false) :
    (List.range k).map (r.begins operation script now) =
      (List.range k).map (r.opening script now) := by
  refine List.map_congr_left fun j hj => ?_
  have less := List.mem_range.1 hj
  exact (begins_of_fits ticks fits (by omega) fun i hi => failed i (by omega)).1

/-- Attempts whose answers, or the lack of them, are failures come to failures. -/
theorem failed_of_fits (hk : k ≤ n)
    (failed : ∀ j < k, isDecisive (r.verdict operation (script.answer j)) = false) :
    ∀ j < k, isDecisive (r.comesTo operation script now j) = false := by
  intro j hj
  rw [(ends_of_fits ticks fits (by omega) fun i hi => failed i (by omega)).2]
  exact failed j hj

end Fits

/-! ## Whole series -/

/-- Whoever tolerates failure is told of a success and of a stop, and of nothing else. -/
theorem optional_eq (operation : String) (outcome : Except DiscoveryError α) :
    (∀ value, outcome = .ok value → (optional operation outcome).1 = .ok (some value)) ∧
      (∀ e, outcome = .error e → (optional operation outcome).1 =
        if e = .cancelled ∨ e = .shutdown then .error e else .ok none) := by
  constructor
  · rintro value rfl
    rfl
  · rintro e rfl
    cases e <;> rfl

/-- Where nobody asks to stop, the first failures are all waited out. -/
theorem passes_of_quiet (quiet : signal.QuietUntil (r.begins operation script now k))
    (failed : ∀ j < k, isDecisive (r.comesTo operation script now j) = false) :
    r.Passes operation signal script now k where
  failed := failed
  waited _ hj := (quiet.mono (r.begins_mono operation script now hj)).cut? _
  unclosed _ hj := (quiet.mono (r.begins_mono operation script now hj)).isClosed

/-- **An operation is repeated on schedule.** Let the times be whole ticks, let the clock have the points
where the attempts that are made end and the pauses after them, and let nobody ask to stop before the
end. The attempt with number `j` begins when those before it have taken their time and each was followed
by a pause. The first decisive outcome ends the series at once and is handed on as it is. If there is
none, every attempt is made, and after one more pause the series ends with the last failure. -/
theorem runs_as_scheduled (attempts : UInt32) (delay : Duration) (timeout : Option Duration)
    (operation : String) (signal : Signal) (now : Nat) (script : Script α)
    (ticks : now % Clock.tick = 0)
    (fits : let r : Retry := { Retry.of attempts delay with timeout }
      ∀ j < (max 1 attempts).toNat,
        (∀ i < j, isDecisive (r.verdict operation (script.answer i)) = false) →
          r.FitsClock operation (r.opening script now j) (script.answer j)) :
    let r : Retry := { Retry.of attempts delay with timeout }
    let n := (max 1 attempts).toNat
    let start := fun j => now + r.busy script j + j * delay.nanos
    let verdict := fun j => r.verdict operation (script.answer j)
    (∀ j, start (j + 1) = start j + r.took (script.answer j) + delay.nanos) ∧
    (∀ i < n, (∀ j < i, isDecisive (verdict j) = false) → isDecisive (verdict i) = true →
      signal.QuietUntil (now + r.busy script (i + 1) + i * delay.nanos) →
      r.execute operation signal now script =
        ⟨(List.range (i + 1)).map start, now + r.busy script (i + 1) + i * delay.nanos, verdict i⟩) ∧
    ((∀ j < n, isDecisive (verdict j) = false) →
      signal.QuietUntil (now + r.busy script n + n * delay.nanos) →
      ∃ last, verdict (n - 1) = .error last ∧ r.execute operation signal now script =
        ⟨(List.range n).map start, now + r.busy script n + n * delay.nanos,
          .error (.exhausted operation (max 1 attempts) delay last)⟩) ∧
    ∀ outcome : Except DiscoveryError α,
      (∀ value, outcome = .ok value → (optional operation outcome).1 = .ok (some value)) ∧
      (∀ e, outcome = .error e → (optional operation outcome).1 =
        if e = .cancelled ∨ e = .shutdown then .error e else .ok none) := by
  intro r n start verdict
  have hn : r.attempts.toNat = n := congrArg UInt32.toNat (attempts_of attempts delay)
  have hdelay : r.delay = delay := delay_of attempts delay
  have opens : r.opening script now = start := funext fun j => by rw [opening, hdelay]
  refine ⟨fun j => ?_, fun i hi failed decisive quiet => ?_, fun failed quiet => ?_,
    optional_eq operation⟩
  · show now + r.busy script (j + 1) + (j + 1) * delay.nanos =
      now + r.busy script j + j * delay.nanos + r.took (script.answer j) + delay.nanos
    rw [busy, Nat.succ_mul]
    omega
  · obtain ⟨ended, came⟩ := ends_of_fits ticks fits hi failed
    rw [← hdelay, ← ended] at quiet ⊢
    have early := r.begins_le_finishes operation script now i
    have passes : r.Passes operation signal script now i :=
      passes_of_quiet (quiet.mono early) (failed_of_fits ticks fits (Nat.le_of_lt hi) failed)
    have begun := (quiet.mono (Nat.le_trans (r.begins_mono operation script now (Nat.zero_le i))
      early)).isClosed
    rw [passes.decided begun (hn ▸ hi) (by rw [came]; exact decisive), came,
      starts_of_fits ticks fits hi failed, opens]
  · have begins : r.begins operation script now n = start n :=
      opens ▸ (begins_of_fits ticks fits (Nat.le_refl n) failed).1
    rw [show now + r.busy script n + n * delay.nanos = _ from begins.symm] at quiet ⊢
    have passes : r.Passes operation signal script now r.attempts.toNat :=
      hn ▸ passes_of_quiet quiet (failed_of_fits ticks fits (Nat.le_refl n) failed)
    have begun := (quiet.mono (r.begins_mono operation script now (Nat.zero_le n))).isClosed
    obtain ⟨last, hlast, course⟩ := passes.spent begun
    have pos : 0 < n := hn ▸ UInt32.lt_iff_toNat_lt.1 r.attempts_pos
    have before : ∀ j < n - 1, isDecisive (verdict j) = false := fun j hj => failed j (by omega)
    rw [hn, (ends_of_fits ticks fits (by omega) before).2] at hlast
    refine ⟨last, hlast, ?_⟩
    rw [course, hn, starts_of_fits ticks fits (Nat.le_refl n) before, opens]
    show (⟨_, _, .error (.exhausted operation r.attempts r.delay last)⟩ : Course α) = _
    rw [hdelay, show r.attempts = max 1 attempts from attempts_of attempts delay]

/-- The first answer fails, the second comes too late, and the third at the last moment. The attempts
of another operation all fail. -/
theorem answered_at_the_limit :
    Retry.execute { Retry.of 3 (.ofMillis 100) with timeout := some (.ofMillis 50) } "list peers" .never
        0 ⟨[⟨.error (.io "refused"), .ofMillis 20⟩, ⟨.ok 1, .ofMillis 51⟩, ⟨.ok 2, .ofMillis 50⟩], none⟩ =
      ⟨[0, 120000000, 270000000], 320000000, .ok 2⟩ ∧
    Retry.execute { Retry.of 2 (.ofMillis 100) with timeout := none } "list peers" (.closes 400000000)
        0 (⟨[⟨.error (.io "refused"), .ofMillis 20⟩], some ⟨.error (.directory "down"), .ofMillis 30⟩⟩ :
          Script Nat) =
      ⟨[0, 120000000], 250000000,
        .error (.exhausted "list peers" 2 (.ofMillis 100) (.directory "down"))⟩ := by
  constructor
  · obtain ⟨-, decided, -, -⟩ := runs_as_scheduled 3 (.ofMillis 100) (some (.ofMillis 50)) "list peers"
      .never 0 ⟨[⟨.error (.io "refused"), .ofMillis 20⟩, ⟨.ok 1, .ofMillis 51⟩, ⟨.ok 2, .ofMillis 50⟩],
        none⟩ (by decide) (by decide)
    exact decided 2 (by decide) (by decide) (by decide) (by decide)
  · obtain ⟨-, -, spent, -⟩ := runs_as_scheduled 2 (.ofMillis 100) none "list peers"
      (.closes 400000000) 0 (⟨[⟨.error (.io "refused"), .ofMillis 20⟩],
        some ⟨.error (.directory "down"), .ofMillis 30⟩⟩ : Script Nat) (by decide) (by decide)
    obtain ⟨last, hlast, course⟩ := spent (by decide) (by decide)
    obtain rfl : DiscoveryError.directory "down" = last := Except.error.inj hlast
    exact course

/-! ## Requests to stop -/

/-- A request to stop does not come before the end of a pause that it has not cut short. -/
theorem passes_of_late {time : Nat} (hs : signal.time? = some time)
    (late : ∀ j < k, r.begins operation script now (j + 1) < time)
    (failed : ∀ j < k, isDecisive (r.comesTo operation script now j) = false) :
    r.Passes operation signal script now k := by
  have quiet : ∀ j < k, signal.QuietUntil (r.begins operation script now (j + 1)) := by
    intro j hj t ht
    obtain rfl : time = t := Option.some.inj (hs.symm.trans ht)
    exact late j hj
  exact ⟨failed, fun j hj => (quiet j hj).cut? _, fun j hj => (quiet j hj).isClosed⟩

/-- **A request to stop ends a series at the next pause.** Where the channel is closed before the
start, no attempt is made. Else let the request come during an attempt, or during the pause after it,
and not at the very end of a pause before. An attempt comes to its own end, and a decisive outcome is
handed on as it is; but the series does not go on after a failure. A pause is cut short at that
moment, also the one after the last attempt. Whoever tolerates failure is told of the stop. -/
theorem stop_cuts_short (r : Retry) (operation : String) (signal : Signal) (now : Nat)
    (script : Script α) {time : Nat} (hs : signal.time? = some time) (pause : 0 < r.delay.nanos) :
    (signal.isClosed now = true →
      r.execute operation signal now script = ⟨[], now, .error .cancelled⟩) ∧
    (signal.isClosed now = false → ∀ k < r.attempts.toNat,
      (∀ j < k, isDecisive (r.comesTo operation script now j) = false ∧
        time ≠ r.begins operation script now (j + 1)) →
      (k = 0 ∨ r.begins operation script now k ≤ time → time ≤ r.finishes operation script now k →
        r.execute operation signal now script =
          ⟨(List.range (k + 1)).map (r.begins operation script now),
            r.finishes operation script now k,
            if isDecisive (r.comesTo operation script now k) then r.comesTo operation script now k
            else .error .cancelled⟩) ∧
      (isDecisive (r.comesTo operation script now k) = false →
        r.finishes operation script now k ≤ time → time < r.begins operation script now (k + 1) →
        r.execute operation signal now script =
          ⟨(List.range (k + 1)).map (r.begins operation script now), time, .error .cancelled⟩)) ∧
    ∀ course : Course α, course.result = .error .cancelled →
      (optional operation course.result).1 = .error .cancelled := by
  refine ⟨fun closed => by rw [execute, if_pos closed], fun begun k more before => ?_, ?_⟩
  · have passes : k = 0 ∨ r.begins operation script now k ≤ time →
        r.Passes operation signal script now k := fun within => by
      refine passes_of_late hs (fun j hj => ?_) fun j hj => (before j hj).1
      have upTo : r.begins operation script now (j + 1) ≤ r.begins operation script now k :=
        r.begins_mono operation script now hj
      have apart := (before j hj).2
      omega
    constructor
    · intro within early
      cases decisive : isDecisive (r.comesTo operation script now k) with
      | true => exact (passes within).decided begun more decisive
      | false =>
        have waits : time < r.begins operation script now (k + 1) :=
          Nat.lt_of_le_of_lt early (Clock.lt_after _ pause)
        rw [(passes within).cut begun more decisive (Signal.cut?_of_lt hs waits),
          Nat.max_eq_right early]
        rfl
    · intro failed late waits
      have within := Nat.le_trans (r.begins_le_finishes operation script now k) late
      rw [(passes (.inr within)).cut begun more failed (Signal.cut?_of_lt hs waits),
        Nat.max_eq_left late]
  · rintro course h
    rw [h]
    rfl

/-- The channel is closed during the second attempt, which ends with a timeout. A message comes in
before the start and is found in the first pause; the channel is closed in the pause after the last
attempt. -/
theorem stopped_during_second_attempt :
    Retry.execute { Retry.of 3 (.ofMillis 100) with timeout := some (.ofMillis 50) } "list peers"
        (.closes 150000000) 0 (⟨[⟨.error (.io "refused"), .ofMillis 20⟩], some ⟨.ok 1, .ofMillis 60⟩⟩ :
          Script Nat) =
      ⟨[0, 120000000], 170000000, .error .cancelled⟩ ∧
    Retry.execute (.of 3 (.ofMillis 100)) "list peers" (.sends 3) 5000000
        (⟨[], some ⟨.error (.io "refused"), .ofMillis 20⟩⟩ : Script Nat) =
      ⟨[5000000], 25000000, .error .cancelled⟩ ∧
    Retry.execute (.of 1 (.ofMillis 100)) "list peers" (.closes 70000000) 0
        (⟨[], some ⟨.error (.io "refused"), .ofMillis 20⟩⟩ : Script Nat) =
      ⟨[0], 70000000, .error .cancelled⟩ := by
  refine ⟨?_, ?_, ?_⟩
  · obtain ⟨-, stops, -⟩ := stop_cuts_short (α := Nat)
      { Retry.of 3 (.ofMillis 100) with timeout := some (.ofMillis 50) } "list peers"
      (.closes 150000000) 0 ⟨[⟨.error (.io "refused"), .ofMillis 20⟩], some ⟨.ok 1, .ofMillis 60⟩⟩ rfl
      (by decide)
    refine ((stops rfl 1 (by decide) (by decide)).1 (by decide) (by decide)).trans ?_
    rw [Course.mk.injEq]
    exact ⟨by decide, by decide, rfl⟩
  · obtain ⟨-, stops, -⟩ := stop_cuts_short (α := Nat) (.of 3 (.ofMillis 100)) "list peers" (.sends 3)
      5000000 ⟨[], some ⟨.error (.io "refused"), .ofMillis 20⟩⟩ rfl (by decide)
    exact (stops rfl 0 (by decide) (by decide)).1 (by decide) (by decide)
  · obtain ⟨-, stops, -⟩ := stop_cuts_short (α := Nat) (.of 1 (.ofMillis 100)) "list peers"
      (.closes 70000000) 0 ⟨[], some ⟨.error (.io "refused"), .ofMillis 20⟩⟩ rfl (by decide)
    exact (stops rfl 0 (by decide) (by decide)).2 (by decide) (by decide) (by decide)

end Retry

end Roster
