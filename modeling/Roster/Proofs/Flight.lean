import Roster.Proofs.Reconcile

/-!
# Proofs.Flight — what a cycle in flight does when it goes on

* `Elsewhere`: a change of the members and of jobs for timers, which no cycle notices.
* `Goes`: a cycle that goes on waits, asks the directory, pauses, comes to its end or is given up.
* `resumeRun_goes`: it does nothing else.
-/

namespace Roster

open Members Relation

namespace Engine

variable {config : Config} {e e' e'' : Engine}

/-! ## Changes that no cycle notices -/

/-- A change of the members and of jobs for timers, at a moment. Once everything is over, nothing
comes of it. -/
inductive Elsewhere (e : Engine) : Engine → Prop where
  | mk (members : Members) (fresh : List Job) (later : List Alarm) (now : members.now = e.now)
      (closed : members.closed = e.members.closed) (jobs : ∀ job ∈ fresh, job.timer?.isSome = true)
      (alarms : ∀ a ∈ later, a.job.timer?.isSome = true)
      (finished : e.members.Gone → members.Gone ∧ fresh = [] ∧ later = []) :
      Elsewhere e { e with members, ready := e.ready ++ fresh, alarms := e.alarms ++ later }

namespace Elsewhere

/-- Only the members have changed. -/
theorem of_members {members : Members} (now : members.now = e.now)
    (closed : members.closed = e.members.closed) (slots : members.slots = e.members.slots)
    (timers : members.timers = e.members.timers) : Elsewhere e { e with members } := by
  have h := Elsewhere.mk (e := e) members [] [] now closed (by simp) (by simp) fun gone =>
    ⟨⟨closed.trans gone.closed, fun key => slots ▸ gone.nobody key, timers.trans gone.timers⟩, rfl, rfl⟩
  simpa using h

theorem refl (e : Engine) : Elsewhere e e := of_members rfl rfl rfl rfl

theorem trans (h : Elsewhere e e') (h' : Elsewhere e' e'') : Elsewhere e e'' := by
  cases h with
  | mk members fresh later now closed jobs alarms finished =>
  cases h' with
  | mk members' fresh' later' now' closed' jobs' alarms' finished' =>
  have both := Elsewhere.mk (e := e) members' (fresh ++ fresh') (later ++ later') (now'.trans now)
    (closed'.trans closed) ?_ ?_ ?_
  · simpa [List.append_assoc] using both
  · intro job hjob
    exact (List.mem_append.1 hjob).elim (jobs job) (jobs' job)
  · intro a ha
    exact (List.mem_append.1 ha).elim (alarms a) (alarms' a)
  · intro gone
    obtain ⟨gone', rfl, rfl⟩ := finished gone
    exact finished' gone'

/-- The same while a job is about to go on. -/
theorem goOn (h : Elsewhere e e') {job : Job} : Elsewhere (e.goOn job) (e'.goOn job) := by
  cases h with
  | mk members fresh later now closed jobs alarms finished =>
  exact .mk (e := e.goOn job) members fresh later now closed jobs alarms finished

theorem write (remark : Remark) : Elsewhere e (e.write remark) := of_members rfl rfl rfl rfl

theorem foldl_write (remarks : List Remark) : Elsewhere e (remarks.foldl Engine.write e) := by
  obtain ⟨journal, h⟩ := foldl_write_eq (e := e) remarks
  rw [h]
  exact of_members rfl rfl rfl rfl

theorem count (f : Tally → Tally) : Elsewhere e (e.count f) := of_members rfl rfl rfl rfl

/-- An operation on the members. -/
theorem onMembers {α : Type} {f : Members → α × Members} (sound : Sound ⟨[], e.members⟩)
    (st : Steps ⟨[], e.members⟩ ⟨[], (f e.members).2⟩) : Elsewhere e (e.onMembers f).2 := by
  obtain ⟨-, -, now, closed⟩ := st.fixed
  have h := Elsewhere.mk (e := e) (f e.members).2
    ((List.range ((f e.members).2.armed - e.members.armed)).map fun i => .arm (e.members.armed + i))
    [] now closed ?_ (by simp) ?_
  · simpa [Engine.onMembers] using h
  · intro job hjob
    obtain ⟨i, -, rfl⟩ := List.mem_map.1 hjob
    rfl
  · intro gone
    obtain ⟨gone', armed, -⟩ := st.of_gone sound gone
    have armed' : (f e.members).2.armed = e.members.armed := armed
    exact ⟨gone', by simp [armed'], rfl⟩

theorem unresolve (e : Engine) : Elsewhere e e.unresolve.2 :=
  (write _).trans ((count _).trans (count _))

theorem resolve (h : Orderly config e) (answer : List Record) : Elsewhere e (e.resolve answer).2 :=
  (foldl_write _).trans ((onMembers (h.briefed answer).sound (h.reconcile_briefed answer)).trans
    ((count _).trans (count _)))

theorem fail (h : Orderly config e) (key : PeerKey) : Elsewhere e (e.fail key).2 :=
  onMembers h.sound (fail_steps tell_tells [] h.polite key)

theorem pardon (e : Engine) (key : PeerKey) : Elsewhere e (e.pardon key).2 := by
  have lifted : (e.onMembers (·.pardon key)).2 = { e with members := (e.members.pardon key).2 } := by
    simp [Engine.onMembers, Members.pardon, note]
  have h : Elsewhere e (e.onMembers (·.pardon key)).2 := by
    rw [lifted]
    exact of_members rfl rfl rfl rfl
  unfold Engine.pardon
  dsimp only
  split
  · exact h.trans (write _)
  · exact h

end Elsewhere

/-! ## A cycle goes on -/

/-- What a cycle in flight does when it goes on. -/
inductive Goes (e : Engine) (run : Run) : Engine → Prop where
  /-- It is not its turn, or not yet its time. -/
  | waits (kept : (run.ofLoop && e.aborted) = false)
      (early : match run.stage with
        | .queued => e.turn ≠ some run.id
        | .attempting _ ends _ => e.now < ends
        | .pausing _ ends _ => e.now < ends ∧ e.isCancelled = false) : Goes e run e
  /-- It asks the directory, for the first time or after a pause. -/
  | asks (kept : (run.ofLoop && e.aborted) = false) (turn : e.turn = some run.id)
      (listening : e.isCancelled = false) (left : Nat)
      (stage : (run.stage = .queued ∧ e.members.closed = false ∧ left = e.retry.attempts.toNat) ∨
        ∃ ends last, run.stage = .pausing left ends last ∧ ends ≤ e.now ∧ left ≠ 0) :
      Goes e run (e.attempt run.id left)
  /-- An attempt has failed, and the cycle pauses. -/
  | pauses (kept : (run.ofLoop && e.aborted) = false) {left ends : Nat}
      {outcome : Except DiscoveryError (List Record)} {last : DiscoveryError}
      (stage : run.stage = .attempting left ends outcome) (finished : ends ≤ e.now)
      (failed : Retry.repeatable? outcome = some last) : Goes e run (e.afterAttempt run left outcome)
  /-- It comes to its end. Once everything is over, no report tells of a change. An error stands for
  a stop or is the directory's own word for one. -/
  | ends (kept : (run.ofLoop && e.aborted) = false) (turn : e.turn = some run.id) {e₁ : Engine}
      (elsewhere : Elsewhere e e₁) (result : CycleResult)
      (noop : e.members.closed = true → ∀ report, result = .ok report → report.isNoop = true)
      (cause : ∀ error, result = .error error → error.isCancelled = true ∧
        (e.members.closed = true ∨ e.isCancelled = true ∨
          ∃ left ends, run.stage = .attempting left ends (.error error))) :
      Goes e run (e₁.finish run result)
  /-- The poll loop was told to end, and its cycle is given up. -/
  | abandoned (ofLoop : run.ofLoop = true) (aborted : e.aborted = true) :
      Goes e run (e.abandon run)

/-- Once everything is over, an answer changes nothing. -/
theorem Orderly.resolve_noop (h : Orderly config e) (ended : e.members.closed = true)
    (answer : List Record) : (e.resolve answer).1.isNoop = true := by
  have closed : (e.briefed answer).members.closed = true := by
    obtain ⟨journal, hb⟩ := briefed_eq e answer
    rw [hb]
    exact ended
  unfold resolve Engine.onMembers
  dsimp only
  rw [reconcile_of_closed (h.briefed answer).sound closed]
  rfl

/-- A cycle that has the outcome of its query comes to its end. -/
theorem Orderly.conclude_goes (h : Orderly config e) {run : Run}
    (kept : (run.ofLoop && e.aborted) = false) (turn : e.turn = some run.id)
    (outcome : Except DiscoveryError (List Record))
    (cause : ∀ error, outcome = .error error → error.isCancelled = true →
      e.members.closed = true ∨ e.isCancelled = true ∨
        ∃ left ends, run.stage = .attempting left ends (.error error)) :
    Goes e run (e.conclude run outcome) := by
  cases outcome with
  | ok records =>
    refine .ends kept turn (.resolve h records) _ ?_ fun error he => by cases he
    rintro ended report hreport
    obtain rfl := Except.ok.inj hreport
    exact h.resolve_noop ended records
  | error error =>
    unfold Engine.conclude
    by_cases hc : error.isCancelled = true
    · rw [show Retry.optional operation (.error error : Except DiscoveryError (List Record)) =
        (.error error, []) from if_pos hc]
      refine .ends kept turn (.refl e) _ (fun _ report hreport => by cases hreport) ?_
      intro error' he
      obtain rfl := Except.error.inj he
      exact ⟨hc, cause _ rfl hc⟩
    · rw [show Retry.optional operation (.error error : Except DiscoveryError (List Record)) =
        (.ok none, [.givingUp operation error]) from if_neg hc]
      refine .ends kept turn ((Elsewhere.foldl_write _).trans (.unresolve _)) _ ?_ fun error' he => by
        cases he
      rintro - report hreport
      obtain rfl := Except.ok.inj hreport
      rfl

/-- A cycle that goes on in a pause or after it: it was asked to stop and heeds that, it has no attempt
left, it asks again, or it waits. -/
theorem resumeRun_of_pausing {run : Run} {left ends : Nat} {last : DiscoveryError}
    (kept : (run.ofLoop && e.aborted) = false) (stage : run.stage = .pausing left ends last)
    (heeds : Bool) :
    (e.isCancelled = true ∧ (ends ≤ e.now → heeds = true ∨ left ≠ 0) ∧
        e.resumeRun run heeds = e.conclude run (.error .cancelled)) ∨
      (ends ≤ e.now ∧ left = 0 ∧ (e.isCancelled && heeds) = false ∧
        e.resumeRun run heeds = e.conclude run (.error (e.retry.exhausted operation last))) ∨
      (ends ≤ e.now ∧ left ≠ 0 ∧ e.isCancelled = false ∧
        e.resumeRun run heeds = e.attempt run.id left) ∨
      (e.now < ends ∧ e.isCancelled = false ∧ e.resumeRun run heeds = e) := by
  unfold Engine.resumeRun Engine.afterPause Retry.ending?
  rw [if_neg (by simp [kept]), stage]
  dsimp only
  by_cases due : ends ≤ e.now
  · have early : decide (e.now < ends) = false := decide_eq_false (Nat.not_lt.2 due)
    rw [early, Bool.or_false, if_pos due]
    by_cases none : left = 0 <;> cases e.isCancelled <;> cases heeds <;> simp [due, none]
  · have early : decide (e.now < ends) = true := decide_eq_true (Nat.lt_of_not_le due)
    rw [early, Bool.or_true, Bool.and_true, if_neg due]
    cases e.isCancelled <;> simp [due, Nat.lt_of_not_le due]

/-- **A cycle that goes on** waits, asks the directory, pauses, comes to its end or is given up. -/
theorem Orderly.resumeRun_goes (h : Orderly config e) {run : Run}
    (turn : run.stage ≠ .queued → e.turn = some run.id) (heeds : Bool) :
    Goes e run (e.resumeRun run heeds) := by
  cases given : run.ofLoop && e.aborted with
  | true =>
    obtain ⟨ofLoop, aborted⟩ := Bool.and_eq_true_iff.1 given
    unfold Engine.resumeRun
    rw [if_pos given]
    exact .abandoned ofLoop aborted
  | false =>
    cases hstage : run.stage with
    | queued =>
      unfold Engine.resumeRun
      rw [if_neg (by simp [given]), hstage]
      dsimp only
      split
      · next hturn =>
        unfold Engine.enter
        split
        · next hclosed =>
          refine .ends given hturn (.refl e) _ (fun _ report hreport => by cases hreport) ?_
          intro error he
          obtain rfl := Except.error.inj he
          exact ⟨rfl, .inl hclosed⟩
        · next hopen =>
          split
          · next hcancelled =>
            exact h.conclude_goes given hturn _ fun error he _ => .inr (.inl hcancelled)
          · next hlistening =>
            exact .asks given hturn (Bool.eq_false_iff.2 hlistening) _
              (.inl ⟨hstage, Bool.eq_false_iff.2 hopen, rfl⟩)
      · next hother => exact .waits given (by rw [hstage]; exact hother)
    | attempting left ends outcome =>
      have hturn := turn (by rw [hstage]; simp)
      unfold Engine.resumeRun
      rw [if_neg (by simp [given]), hstage]
      dsimp only
      split
      · next hover =>
        cases hrep : Retry.repeatable? outcome with
        | some last => exact .pauses given hstage hover hrep
        | none =>
          unfold Engine.afterAttempt
          rw [hrep]
          refine h.conclude_goes given hturn outcome ?_
          rintro error rfl -
          exact .inr (.inr ⟨left, ends, hstage⟩)
      · next hearly => exact .waits given (by rw [hstage]; exact Nat.lt_of_not_le hearly)
    | pausing left ends last =>
      have hturn := turn (by rw [hstage]; simp)
      rcases resumeRun_of_pausing given hstage heeds with ⟨cancelled, -, heq⟩ | ⟨-, -, -, heq⟩ |
        ⟨hover, more, listening, heq⟩ | ⟨early, listening, heq⟩
      · rw [heq]
        exact h.conclude_goes given hturn _ fun error he _ => .inr (.inl cancelled)
      · rw [heq]
        exact h.conclude_goes given hturn _ fun error he hc => by
          rw [← Except.error.inj he] at hc
          cases hc
      · rw [heq]
        exact .asks given hturn listening left (.inr ⟨ends, last, hstage, hover, more⟩)
      · rw [heq]
        exact .waits given (by rw [hstage]; exact ⟨early, listening⟩)

/-! ## Timers -/

/-- A job of a timer concerns no cycle. -/
theorem Orderly.timer_elsewhere (h : Orderly config e) {job : Job} {heeds : Bool} {timer : Nat}
    (hjob : job.timer? = some timer) (allowed : job ∈ e.ready) :
    Elsewhere { e with ready := e.ready.erase job } (e.act (.turn job heeds)) := by
  cases job with
  | arm id =>
    show Elsewhere _ (Engine.armTimer { e with ready := e.ready.erase (.arm id) } id)
    unfold Engine.armTimer
    split
    · exact .refl _
    · next t htimer =>
      split
      · next hdue =>
        refine .onMembers (e := { e with ready := e.ready.erase (.arm id) }) h.sound ?_
        refine (fire_steps tell_tells h.sound h.polite ?_).1
        intro u hu hid
        have hmem : t ∈ e.members.timers := List.mem_of_find?_eq_some htimer
        have hid' : t.id = id := by simpa using List.find?_some htimer
        rw [List.inj_on_of_nodup_map h.sound.ids hu hmem (hid.trans hid'.symm)]
        exact Nat.le_antisymm hdue (h.due t hmem).1
      · have set := Elsewhere.mk (e := { e with ready := e.ready.erase (.arm id) }) e.members []
          [⟨t.due, .fire id⟩] rfl rfl (by simp) (by simp [Job.timer?]) fun gone => by
            have none : e.members.timers = [] := gone.timers
            rw [none] at htimer
            cases htimer
        simpa using set
  | fire id =>
    refine .onMembers (e := { e with ready := e.ready.erase (.fire id) }) h.sound ?_
    exact (fire_steps tell_tells h.sound h.polite fun t ht hid => h.fires t ht (hid ▸ allowed)).1
  | start id => cases hjob
  | resume id => cases hjob
  | loop => cases hjob

end Engine

end Roster
