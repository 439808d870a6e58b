import Roster.Proofs.Ending

/-!
# Proofs.Outcomes — what the directory query of a cycle comes to

* `Obtains`: the outcome with which a query ends, and the reason. `Resumes`: what a cycle does when it
  goes on; `resumeRun_resumes`: it does nothing else.
* `conclude_stopped`, `conclude_failed`: what a cycle makes of an error. `finish_members`: what its end
  does to the members.
* `Proceeds`: what a deed does to the cycles in flight, to the turn and to the calls.
* `Over`: a cycle that is not in flight any more. It stays over, and it calls nobody. `Stage.Final`: a
  cycle that calls nobody any more, though it is in flight.
* `Asking`: how many calls a cycle has made and may make yet.
-/

namespace Roster

open Members Relation

/-- The calls that a cycle may have to make yet. -/
def Stage.toCome (attempts : Nat) : Stage → Nat
  | .queued => attempts
  | .attempting left _ _ => left - 1
  | .pausing left _ _ => left

/-- From here on a cycle calls nobody: everything is over before it began, the directory has said its
last word, or no attempt is left. -/
def Stage.Final (ended : Bool) : Stage → Prop
  | .queued => ended = true
  | .attempting _ _ outcome => Retry.repeatable? outcome = none
  | .pausing left _ _ => left = 0

namespace Engine

variable {config : Config} {e e' : Engine} {run : Run}

/-! ## The outcome of a query -/

/-- The query of a cycle ends with this outcome, whether or not the cycle heeds a request to stop before
the end of a pause. -/
inductive Obtains (e : Engine) (run : Run) (heeds : Bool) :
    Except DiscoveryError (List Record) → Prop where
  /-- Everything is over before the first call. -/
  | refused (stage : run.stage = .queued) (ended : e.members.closed = true) :
      Obtains e run heeds (.error .shutdown)
  /-- Cycles were asked to stop before the first call. -/
  | stopped (stage : run.stage = .queued) (running : e.members.closed = false)
      (cancelled : e.isCancelled = true) : Obtains e run heeds (.error .cancelled)
  /-- Cycles were asked to stop, and the cycle heeds that or would make another call. -/
  | interrupted {left ends : Nat} {last : DiscoveryError} (stage : run.stage = .pausing left ends last)
      (cancelled : e.isCancelled = true) (more : ends ≤ e.now → heeds = true ∨ left ≠ 0) :
      Obtains e run heeds (.error .cancelled)
  /-- The directory has said its last word. -/
  | replied {left ends : Nat} {outcome : Except DiscoveryError (List Record)}
      (stage : run.stage = .attempting left ends outcome) (due : ends ≤ e.now)
      (final : Retry.repeatable? outcome = none) : Obtains e run heeds outcome
  /-- The last attempt has failed. -/
  | exhausted {ends : Nat} {last : DiscoveryError} (stage : run.stage = .pausing 0 ends last)
      (due : ends ≤ e.now) (unheeded : (e.isCancelled && heeds) = false) :
      Obtains e run heeds (.error (e.retry.exhausted operation last))

/-- What a cycle in flight does when it goes on. -/
inductive Resumes (e : Engine) (run : Run) : Engine → Prop where
  /-- There is nothing to do yet. -/
  | waits (early : ∀ left ends outcome, run.stage = .attempting left ends outcome → e.now < ends) :
      Resumes e run e
  /-- It asks the directory. -/
  | asks (turn : e.turn = some run.id) (left : Nat)
      (stage : (run.stage = .queued ∧ e.members.closed = false ∧ left = e.retry.attempts.toNat) ∨
        ∃ ends last, run.stage = .pausing left ends last ∧ left ≠ 0) :
      Resumes e run (e.attempt run.id left)
  /-- An attempt has failed, and it pauses. -/
  | pauses (turn : e.turn = some run.id) {left ends : Nat}
      {outcome : Except DiscoveryError (List Record)} {last : DiscoveryError}
      (stage : run.stage = .attempting left ends outcome)
      (failed : Retry.repeatable? outcome = some last) :
      Resumes e run (e.afterAttempt run left outcome)
  /-- Its query is at an end. -/
  | ends (kept : (run.ofLoop && e.aborted) = false) (turn : e.turn = some run.id)
      (heeds : Bool) {outcome : Except DiscoveryError (List Record)}
      (obtains : Obtains e run heeds outcome) : Resumes e run (e.conclude run outcome)
  /-- The poll loop was told to end, and its cycle is given up. -/
  | givenUp (given : (run.ofLoop && e.aborted) = true) : Resumes e run (e.abandon run)

theorem resumeRun_resumes {heeds : Bool} (turn : run.stage ≠ .queued → e.turn = some run.id) :
    Resumes e run (e.resumeRun run heeds) := by
  cases given : run.ofLoop && e.aborted with
  | true =>
    unfold Engine.resumeRun
    rw [if_pos given]
    exact .givenUp given
  | false =>
    cases hstage : run.stage with
    | queued =>
      unfold Engine.resumeRun
      rw [if_neg (by simp [given]), hstage]
      dsimp only
      split
      · next hturn =>
        unfold enter
        split
        · next hclosed => exact .ends given hturn heeds (.refused hstage hclosed)
        · next hopen =>
          replace hopen := Bool.eq_false_iff.2 hopen
          split
          · next hcancelled => exact .ends given hturn heeds (.stopped hstage hopen hcancelled)
          · exact .asks hturn _ (.inl ⟨hstage, hopen, rfl⟩)
      · exact .waits (by simp [hstage])
    | attempting left ends outcome =>
      have hturn := turn (by simp [hstage])
      unfold Engine.resumeRun
      rw [if_neg (by simp [given]), hstage]
      dsimp only
      split
      · next due =>
        cases hrep : Retry.repeatable? outcome with
        | some last => exact .pauses hturn hstage hrep
        | none =>
          unfold afterAttempt
          rw [hrep]
          exact .ends given hturn heeds (.replied hstage due hrep)
      · next early =>
        refine .waits fun left' ends' outcome' h => ?_
        obtain ⟨-, rfl, -⟩ := Stage.attempting.inj (hstage.symm.trans h)
        omega
    | pausing left ends last =>
      have hturn := turn (by simp [hstage])
      rcases resumeRun_of_pausing given hstage heeds with ⟨cancelled, more, heq⟩ |
        ⟨due, rfl, unheeded, heq⟩ | ⟨-, more, -, heq⟩ | ⟨-, -, heq⟩
      · rw [heq]
        exact .ends given hturn heeds (.interrupted hstage cancelled more)
      · rw [heq]
        exact .ends given hturn heeds (.exhausted hstage due unheeded)
      · rw [heq]
        exact .asks hturn left (.inr ⟨ends, last, hstage, more⟩)
      · rw [heq]
        exact .waits (by simp [hstage])

/-- A cycle whose query is at an end comes to its own end when it goes on. -/
theorem Obtains.resumeRun {heeds : Bool} {outcome : Except DiscoveryError (List Record)}
    (obtains : Obtains e run heeds outcome) (turn : e.turn = some run.id)
    (kept : (run.ofLoop && e.aborted) = false) : e.resumeRun run heeds = e.conclude run outcome := by
  unfold Engine.resumeRun
  rw [if_neg (by simp [kept])]
  cases obtains with
  | refused stage ended =>
    have stops : e.conclude run (.error .shutdown) = e.finish run (.error .shutdown) := rfl
    simp only [stage, if_pos turn, enter, if_pos ended, stops]
  | stopped stage running cancelled => simp [stage, turn, enter, running, cancelled]
  | @interrupted left ends last stage cancelled more =>
    by_cases due : ends ≤ e.now
    · rcases more due with rfl | more
      · simp [stage, cancelled]
      · simp [stage, cancelled, due, afterPause, Retry.ending?, more]
    · simp [stage, cancelled, Nat.lt_of_not_le due]
  | replied stage due final => simp [stage, due, afterAttempt, final]
  | exhausted stage due unheeded =>
    simp [stage, due, Nat.not_lt.2 due, unheeded, afterPause, Retry.ending?]

/-! ## What a cycle makes of it -/

theorem conclude_stopped (run : Run) {error : DiscoveryError} (h : error.isCancelled = true) :
    e.conclude run (.error error) = e.finish run (.error error) := by
  unfold conclude
  rw [show Retry.optional operation (.error error : Except DiscoveryError (List Record)) =
    (.error error, []) from if_pos h]
  rfl

theorem conclude_failed (run : Run) {error : DiscoveryError} (h : error.isCancelled = false) :
    e.conclude run (.error error) =
      (e.write (.givingUp operation error)).unresolve.2.finish run (.ok .unresolved) := by
  unfold conclude
  rw [show Retry.optional operation (.error error : Except DiscoveryError (List Record)) =
    (.ok none, [.givingUp operation error]) from if_neg (by simp [h])]
  rfl

/-- What an instance that was let go does to the members once no call is in flight. -/
theorem settleRelease_members (e : Engine) :
    (e.settleRelease.members = e.members ∧ e.settleRelease.running = e.running) ∨
      (e.settleRelease.members = e.members.close ∧ e.settleRelease.running = false) := by
  unfold settleRelease
  split
  · obtain ⟨aborted, woken, heq⟩ := silence_eq e
    rw [heq]
    exact .inr ⟨rfl, rfl⟩
  · exact .inl ⟨rfl, rfl⟩

/-- A cycle that is at an end leaves the members alone, but for the end of everything. -/
theorem finish_members (e : Engine) (run : Run) (result : CycleResult) :
    ((e.finish run result).members = e.members ∧ (e.finish run result).running = e.running) ∨
      ((e.finish run result).members = e.members.close ∧ (e.finish run result).running = false) := by
  have passed : Aside (e.dropRun run.id) (e.dropRun run.id).passTurn := passTurn_aside
  have hm : (e.dropRun run.id).passTurn.members = e.members := passed.members
  have hr : (e.dropRun run.id).passTurn.running = e.running := passed.running
  unfold finish
  dsimp only
  split
  · have after := afterCycle_aside (e := { (e.dropRun run.id).passTurn with
      results := (run.id, result) :: (e.dropRun run.id).passTurn.results }) result
    exact .inl ⟨after.members.trans hm, after.running.trans hr⟩
  · rcases settleRelease_members { (e.dropRun run.id).passTurn with
      results := (run.id, result) :: (e.dropRun run.id).passTurn.results } with ⟨h, h'⟩ | ⟨h, h'⟩
    · exact .inl ⟨h.trans hm, h'.trans hr⟩
    · exact .inr ⟨h.trans (congrArg Members.close hm), h'⟩

/-! ## What becomes of the cycles -/

/-- What a deed does to the cycles in flight, to the turn, to the calls and to the outcomes. -/
inductive Proceeds (e : Engine) : Deed → Engine → Prop where
  /-- No cycle notices. -/
  | besides {deed : Deed} {e' : Engine} (runs : e'.runs = e.runs) (calls : e'.calls = e.calls)
      (results : e'.results = e.results) (turn : e.turn = none ∨ e'.turn = e.turn)
      (started : e'.started = e.started) : Proceeds e deed e'
  /-- One comes into being. -/
  | begins {deed : Deed} {e' : Engine} (ofLoop : Bool)
      (runs : e'.runs = e.runs ++ [⟨e.started, ofLoop, .queued⟩]) (calls : e'.calls = e.calls)
      (results : e'.results = e.results) (turn : e.turn = none ∨ e'.turn = e.turn)
      (started : e'.started = e.started + 1) : Proceeds e deed e'
  /-- One is turned away before it began. -/
  | refused {run : Run} {heeds : Bool} {e' : Engine} (inFlight : run ∈ e.runs)
      (other : e.turn ≠ some run.id)
      (runs : e'.runs = e.runs.filter (·.id != run.id)) (calls : e'.calls = e.calls)
      (results : e'.results = (run.id, .error .shutdown) :: e.results) (turn : e'.turn = e.turn)
      (started : e'.started = e.started) : Proceeds e (.turn (.start run.id) heeds) e'
  /-- One asks the directory. -/
  | asks {run : Run} {heeds : Bool} {e' : Engine} (inFlight : run ∈ e.runs)
      (holds : e.turn = some run.id)
      {left ends : Nat} {outcome : Except DiscoveryError (List Record)}
      (stage : (run.stage = .queued ∧ e.members.closed = false ∧ left = e.retry.attempts.toNat) ∨
        ∃ ends last, run.stage = .pausing left ends last ∧ left ≠ 0)
      (runs : e'.runs = (e.setStage run.id (.attempting left ends outcome)).runs)
      (calls : e'.calls = ⟨e.now, run.id⟩ :: e.calls) (results : e'.results = e.results)
      (turn : e'.turn = e.turn) (started : e'.started = e.started) :
      Proceeds e (.turn (.resume run.id) heeds) e'
  /-- One pauses after a failure that asking again may mend. -/
  | pauses {run : Run} {heeds : Bool} {e' : Engine} (inFlight : run ∈ e.runs)
      (holds : e.turn = some run.id)
      {left ends ends' : Nat} {outcome : Except DiscoveryError (List Record)} {last : DiscoveryError}
      (stage : run.stage = .attempting left ends outcome)
      (failed : Retry.repeatable? outcome = some last)
      (runs : e'.runs = (e.setStage run.id (.pausing (left - 1) ends' last)).runs)
      (calls : e'.calls = e.calls) (results : e'.results = e.results) (turn : e'.turn = e.turn)
      (started : e'.started = e.started) : Proceeds e (.turn (.resume run.id) heeds) e'
  /-- One comes to its end. -/
  | ends {run : Run} {heeds : Bool} {e' : Engine} (inFlight : run ∈ e.runs)
      (holds : e.turn = some run.id) (result : CycleResult)
      (late : run.stage = .queued → e.members.closed = true → result = .error .shutdown)
      (runs : e'.runs = e.runs.filter (·.id != run.id))
      (calls : e'.calls = e.calls) (results : e'.results = (run.id, result) :: e.results)
      (started : e'.started = e.started) : Proceeds e (.turn (.resume run.id) heeds) e'
  /-- The poll loop's own is given up. -/
  | givenUp {run : Run} {heeds : Bool} {e' : Engine} (inFlight : run ∈ e.runs) (own : run.ofLoop = true)
      (runs : e'.runs = e.runs.filter (·.id != run.id)) (calls : e'.calls = e.calls)
      (results : e'.results = e.results) (turn : e.turn = some run.id ∨ e'.turn = e.turn)
      (started : e'.started = e.started) : Proceeds e (.turn (.resume run.id) heeds) e'

/-- A job of a cycle in flight, once it is taken from the others. -/
theorem InTurn.resumes (h : InTurn e) (id : Nat) (heeds : Bool) :
    (∃ run ∈ e.runs, run.id = id ∧
      Resumes { e with ready := e.ready.erase (.resume id) } run (e.act (.turn (.resume id) heeds))) ∨
    ((∀ run ∈ e.runs, run.id ≠ id) ∧
      e.act (.turn (.resume id) heeds) = { e with ready := e.ready.erase (.resume id) }) := by
  unfold act step
  dsimp only
  split
  · next run hrun =>
    have hmem : run ∈ e.runs := List.mem_of_find?_eq_some hrun
    have hid : run.id = id := by simpa using List.find?_some hrun
    exact .inl ⟨run, hmem, hid, resumeRun_resumes (h.placed run hmem).turn⟩
  · next hnone => exact .inr ⟨fun run hr => by simpa using List.find?_eq_none.1 hnone run hr, rfl⟩

theorem InTurn.run?_eq (h : InTurn e) (inFlight : run ∈ e.runs) : e.run? run.id = some run := by
  obtain ⟨other, hother⟩ := Option.isSome_iff_exists.1 (show (e.run? run.id).isSome = true from
    List.find?_isSome.2 ⟨run, inFlight, beq_self_eq_true run.id⟩)
  have hid : other.id = run.id := by simpa using List.find?_some hother
  rw [hother, h.unique (List.mem_of_find?_eq_some hother) inFlight hid]

/-- The jobs that can go on have no say in the outcome of a query. -/
theorem Obtains.of_ready {heeds : Bool} {outcome : Except DiscoveryError (List Record)}
    (h : Obtains e run heeds outcome) (ready : List Job) :
    Obtains { e with ready } run heeds outcome := by
  cases h with
  | refused stage ended => exact .refused stage ended
  | stopped stage running cancelled => exact .stopped stage running cancelled
  | interrupted stage cancelled more => exact .interrupted stage cancelled more
  | replied stage due final => exact .replied stage due final
  | exhausted stage due unheeded => exact .exhausted stage due unheeded

/-- A cycle whose query is at an end comes to its own end with its job. -/
theorem InTurn.concludes (h : InTurn e) (inFlight : run ∈ e.runs) {heeds : Bool}
    {outcome : Except DiscoveryError (List Record)} (obtains : Obtains e run heeds outcome)
    (turn : e.turn = some run.id) (kept : (run.ofLoop && e.aborted) = false) :
    e.act (.turn (.resume run.id) heeds) =
      Engine.conclude { e with ready := e.ready.erase (.resume run.id) } run outcome := by
  have found : Engine.run? { e with ready := e.ready.erase (.resume run.id) } run.id = some run :=
    h.run?_eq inFlight
  show Engine.step { e with ready := e.ready.erase (.resume run.id) } (.resume run.id) heeds = _
  unfold Engine.step
  dsimp only
  rw [found]
  exact (obtains.of_ready _).resumeRun turn kept

/-- The end of a cycle, seen from the others. -/
theorem finish_runs (e : Engine) (run : Run) (result : CycleResult) :
    (e.finish run result).runs = e.runs.filter (·.id != run.id) ∧
      (e.finish run result).calls = e.calls ∧
      (e.finish run result).results = (run.id, result) :: e.results ∧
      (e.finish run result).started = e.started := by
  obtain ⟨_, _, _, _, _, _, _, _, _, _, heq, -⟩ := finish_eq e run result
  rw [heq]
  exact ⟨rfl, rfl, rfl, rfl⟩

theorem conclude_runs (h : Orderly config e) {heeds : Bool}
    {outcome : Except DiscoveryError (List Record)} (obtains : Obtains e run heeds outcome) :
    ∃ result : CycleResult,
    (run.stage = .queued → e.members.closed = true → result = .error .shutdown) ∧
      (e.conclude run outcome).runs = e.runs.filter (·.id != run.id) ∧
      (e.conclude run outcome).calls = e.calls ∧
      (e.conclude run outcome).results = (run.id, result) :: e.results ∧
      (e.conclude run outcome).started = e.started := by
  have finished : ∀ e₁, Elsewhere e e₁ → ∀ result, (e₁.finish run result).runs =
      e.runs.filter (·.id != run.id) ∧ (e₁.finish run result).calls = e.calls ∧
        (e₁.finish run result).results = (run.id, result) :: e.results ∧
        (e₁.finish run result).started = e.started := by
    intro e₁ elsewhere result
    cases elsewhere
    exact finish_runs _ run result
  -- one that comes too late is told so
  have late : (run.stage = .queued → e.members.closed = true → outcome = .error .shutdown) := by
    intro stage ended
    cases obtains with
    | refused => rfl
    | stopped stage' running => exact absurd (ended.symm.trans running) (by decide)
    | interrupted stage' => exact absurd (stage.symm.trans stage') (by simp)
    | replied stage' => exact absurd (stage.symm.trans stage') (by simp)
    | exhausted stage' => exact absurd (stage.symm.trans stage') (by simp)
  cases outcome with
  | ok answer => exact ⟨_, fun stage ended => (by cases late stage ended), finished _ (.resolve h answer) _⟩
  | error error =>
    cases hc : error.isCancelled with
    | true =>
      rw [conclude_stopped run hc]
      refine ⟨_, fun stage ended => ?_, finished _ (.refl e) _⟩
      rw [Except.error.inj (late stage ended)]
    | false =>
      rw [conclude_failed run hc]
      refine ⟨_, fun stage ended => ?_, finished _ ((Elsewhere.write _).trans (.unresolve _)) _⟩
      rw [Except.error.inj (late stage ended)] at hc
      cases hc

/-- A cycle takes the turn if nobody has it. -/
theorem takeTurn_proceeds (e : Engine) (id : Nat) :
    (e.takeTurn id).runs = e.runs ∧ (e.takeTurn id).calls = e.calls ∧
      (e.takeTurn id).results = e.results ∧ (e.turn = none ∨ (e.takeTurn id).turn = e.turn) ∧
      (e.takeTurn id).started = e.started := by
  unfold takeTurn
  split
  · next hfree => exact ⟨rfl, rfl, rfl, .inl hfree, rfl⟩
  · exact ⟨rfl, rfl, rfl, .inr rfl, rfl⟩

theorem serveTick_proceeds (e : Engine) (ready : List Job) (due : Nat) (deed : Deed) :
    Proceeds e deed (Engine.serveTick { e with ready } due) := by
  obtain ⟨runs, calls, results, turn, started⟩ := takeTurn_proceeds
    { (Engine.newRun { e with ready } true).2 with
      loop := .cycling e.started (nextTick e.config.queryInterval due e.now) } e.started
  exact .begins true runs calls results turn started

theorem resumeLoop_proceeds (e : Engine) (ready : List Job) (deed : Deed) :
    Proceeds e deed (Engine.resumeLoop { e with ready }) := by
  have still : Proceeds e deed { e with ready } := .besides rfl rfl rfl (.inr rfl) rfl
  unfold resumeLoop
  split
  · exact .besides rfl rfl rfl (.inr rfl) rfl
  · split
    · split
      · exact serveTick_proceeds e ready _ deed
      · dsimp only
        generalize Clock.after _ _ = ends
        obtain ⟨first, later, heq, -⟩ :=
          goOnAt_eq { e with ready, loop := .delaying ends } ends .loop
        rw [heq]
        exact .besides rfl rfl rfl (.inr rfl) rfl
    · split
      · exact serveTick_proceeds e ready _ deed
      · exact still
    · split
      · exact serveTick_proceeds e ready _ deed
      · exact still
    · exact still

/-- A job of a cycle. -/
theorem InTurn.resume_proceeds (h : InTurn e) (ordered : Orderly config e) (id : Nat)
    (heeds : Bool) : Proceeds e (.turn (.resume id) heeds) (e.act (.turn (.resume id) heeds)) := by
  rcases h.resumes id heeds with ⟨run, hrun, rfl, resumes⟩ | ⟨-, heq⟩
  · have ordered' : Orderly config { e with ready := e.ready.erase (.resume run.id) } :=
      ordered.aside (erase_aside rfl)
    generalize e.act (.turn (.resume run.id) heeds) = e' at resumes
    cases resumes with
    | waits => exact .besides rfl rfl rfl (.inr rfl) rfl
    | asks turn left stage =>
      obtain ⟨ends, outcome, first, later, heq, -⟩ :=
        attempt_eq { e with ready := e.ready.erase (.resume run.id) } run.id left
      rw [heq]
      exact .asks hrun turn stage rfl rfl rfl rfl rfl
    | pauses turn stage failed =>
      obtain ⟨ends', first, later, heq, -⟩ :=
        pause_eq { e with ready := e.ready.erase (.resume run.id) } run _ failed
      rw [heq]
      exact .pauses hrun turn stage failed rfl rfl rfl rfl rfl
    | ends kept turn heeds obtains =>
      obtain ⟨result, late, runs, calls, results, started⟩ := conclude_runs ordered' obtains
      exact .ends hrun turn result late runs calls results started
    | givenUp given =>
      have own : run.ofLoop = true := (Bool.and_eq_true_iff.1 given).1
      have hturn : e.turn = some run.id ∨
          (Engine.abandon { e with ready := e.ready.erase (.resume run.id) } run).turn = e.turn := by
        unfold Engine.abandon
        dsimp only
        split
        · next hturn => exact .inl hturn
        · exact .inr rfl
      obtain ⟨turn, queue, woken, heq, -⟩ :=
        abandon_eq { e with ready := e.ready.erase (.resume run.id) } run
      rw [heq] at hturn ⊢
      exact .givenUp hrun own rfl rfl rfl hturn rfl
  · rw [heq]
    exact .besides rfl rfl rfl (.inr rfl) rfl

/-- Somebody's cycle starts, or is turned away. -/
theorem InTurn.start_proceeds (h : InTurn e) {id : Nat} {heeds : Bool}
    (allowed : .start id ∈ e.ready) :
    Proceeds e (.turn (.start id) heeds) (e.act (.turn (.start id) heeds)) := by
  obtain ⟨other, -, run, hrun, rfl, -⟩ := h.begins id allowed
  show Proceeds e _ (Engine.startRun { e with ready := e.ready.erase (.start run.id) } run.id)
  unfold Engine.startRun
  split
  · obtain ⟨runs, calls, results, turn, started⟩ :=
      takeTurn_proceeds { e with ready := e.ready.erase (.start run.id) } run.id
    exact .besides runs calls results turn started
  · obtain ⟨running, channel, aborted, woken, members, heq, -⟩ := settleRelease_eq
      { Engine.dropRun { e with ready := e.ready.erase (.start run.id) } run.id with
        results := (run.id, .error .shutdown) :: e.results }
    rw [heq]
    exact .refused hrun other rfl rfl rfl rfl rfl

/-- **What a deed does to the cycles in flight**, to the turn, to the calls and to the outcomes. -/
theorem InTurn.proceeds (h : InTurn e) (ordered : Orderly config e) {deed : Deed}
    (allowed : e.Allows deed) : Proceeds e deed (e.act deed) := by
  cases deed with
  | turn job heeds =>
    cases hjob : job.timer? with
    | some timer =>
      have elsewhere : Elsewhere _ (e.act (.turn job heeds)) := ordered.timer_elsewhere hjob allowed
      generalize e.act (.turn job heeds) = e' at elsewhere
      cases elsewhere
      exact .besides rfl rfl rfl (.inr rfl) rfl
    | none =>
      cases job with
      | arm timer => cases hjob
      | fire timer => cases hjob
      | start id => exact h.start_proceeds allowed
      | resume id => exact h.resume_proceeds ordered id heeds
      | loop => exact resumeLoop_proceeds e _ _
  | wait time =>
    obtain ⟨woken, heq, -⟩ := jump_eq e time
    rw [show e.act (.wait time) = _ from heq]
    exact .besides rfl rfl rfl (.inr rfl) rfl
  | call =>
    rcases call_eq e with ⟨-, hcall⟩ | ⟨-, hcall⟩
    · obtain ⟨runs, calls, results, turn, started⟩ := takeTurn_proceeds (e.newRun false).2 e.started
      rw [show e.act .call = _ from hcall]
      exact .begins false runs calls results turn started
    · rw [show e.act .call = _ from hcall]
      exact .besides rfl rfl rfl (.inr rfl) rfl
  | spawn =>
    obtain ⟨woken, heq, -⟩ := wake_eq (e.newRun false).2 (.start e.started)
    rw [show e.act .spawn = _ from heq]
    exact .begins false rfl rfl rfl (.inr rfl) rfl
  | fail key => exact .besides rfl rfl rfl (.inr rfl) rfl
  | pardon key =>
    obtain ⟨members, woken, heq⟩ := pardon_eq e key
    rw [show e.act (.pardon key) = _ from heq]
    exact .besides rfl rfl rfl (.inr rfl) rfl
  | cancel =>
    obtain ⟨channel, woken, heq⟩ := cancel_eq e
    rw [show e.act .cancel = _ from heq]
    exact .besides rfl rfl rfl (.inr rfl) rfl
  | stop =>
    obtain ⟨aborted, woken, members, heq⟩ := stop_eq e
    rw [show e.act .stop = _ from heq]
    exact .besides rfl rfl rfl (.inr rfl) rfl
  | release =>
    obtain ⟨running, channel, aborted, woken, members, heq, -⟩ :=
      settleRelease_eq { e with released := true }
    rw [show e.act .release = _ from heq]
    exact .besides rfl rfl rfl (.inr rfl) rfl
  | serve directory => exact .besides rfl rfl rfl (.inr rfl) rfl

/-! ## Cycles that are over -/

/-- The calls of a cycle to the directory, latest first. -/
def callsOf (e : Engine) (id : Nat) : List DirectoryCall := e.calls.filter (·.run == id)

/-- The outcomes of a cycle. -/
def resultsOf (e : Engine) (id : Nat) : List (Nat × CycleResult) := e.results.filter (·.1 == id)

/-- The cycle was in flight once and is not any more. -/
structure Over (e : Engine) (id : Nat) : Prop where
  known : id < e.started
  gone : ∀ run ∈ e.runs, run.id ≠ id

theorem setStage_runs (e : Engine) (id : Nat) (stage : Stage) {run : Run}
    (h : run ∈ (e.setStage id stage).runs) :
    ∃ before ∈ e.runs, before.id = run.id ∧ (run.id = id ∧ run.stage = stage ∨
      run.id ≠ id ∧ run = before) := by
  obtain ⟨before, hb, rfl⟩ := List.mem_map.1 h
  by_cases hid : before.id = id
  · rw [if_pos hid]
    exact ⟨before, hb, rfl, .inl ⟨hid, rfl⟩⟩
  · rw [if_neg hid]
    exact ⟨before, hb, rfl, .inr ⟨hid, rfl⟩⟩

namespace Proceeds

variable {deed : Deed} {id : Nat}

/-- A cycle in flight afterwards was in flight before, or is new. -/
theorem before (p : Proceeds e deed e') {run : Run} (h : run ∈ e'.runs) :
    (∃ r ∈ e.runs, r.id = run.id) ∨ (run.id = e.started ∧ run.stage = .queued) := by
  cases p with
  | besides runs => exact .inl ⟨run, runs ▸ h, rfl⟩
  | begins ofLoop runs =>
    rw [runs] at h
    rcases List.mem_append.1 h with h | h
    · exact .inl ⟨run, h, rfl⟩
    · rw [List.mem_singleton.1 h]
      exact .inr ⟨rfl, rfl⟩
  | refused inFlight other runs => exact .inl ⟨run, (List.mem_filter.1 (runs ▸ h)).1, rfl⟩
  | asks inFlight holds stage runs =>
    obtain ⟨r, hr, hid, -⟩ := setStage_runs e _ _ (runs ▸ h)
    exact .inl ⟨r, hr, hid⟩
  | pauses inFlight holds stage failed runs =>
    obtain ⟨r, hr, hid, -⟩ := setStage_runs e _ _ (runs ▸ h)
    exact .inl ⟨r, hr, hid⟩
  | ends inFlight holds result late runs => exact .inl ⟨run, (List.mem_filter.1 (runs ▸ h)).1, rfl⟩
  | givenUp inFlight own runs => exact .inl ⟨run, (List.mem_filter.1 (runs ▸ h)).1, rfl⟩

theorem started_le (p : Proceeds e deed e') : e.started ≤ e'.started := by
  cases p with
  | begins ofLoop runs calls results turn started => omega
  | besides runs calls results turn started => omega
  | refused inFlight other runs calls results turn started => omega
  | asks inFlight holds stage runs calls results turn started => omega
  | pauses inFlight holds stage failed runs calls results turn started => omega
  | ends inFlight holds result late runs calls results started => omega
  | givenUp inFlight own runs calls results turn started => omega

/-- Only the cycle with the turn calls the directory. -/
theorem calls (p : Proceeds e deed e') : e'.calls = e.calls ∨
    ∃ run ∈ e.runs, (∃ heeds, deed = .turn (.resume run.id) heeds) ∧ e.turn = some run.id ∧
      e'.calls = ⟨e.now, run.id⟩ :: e.calls := by
  cases p with
  | asks inFlight holds stage runs calls => exact .inr ⟨_, inFlight, ⟨_, rfl⟩, holds, calls⟩
  | besides runs calls => exact .inl calls
  | begins ofLoop runs calls => exact .inl calls
  | refused inFlight other runs calls => exact .inl calls
  | pauses inFlight holds stage failed runs calls => exact .inl calls
  | ends inFlight holds result late runs calls => exact .inl calls
  | givenUp inFlight own runs calls => exact .inl calls

/-- A cycle that comes to its end has the turn, or is turned away before it began. -/
theorem results (p : Proceeds e deed e') : e'.results = e.results ∨
    ∃ run ∈ e.runs, ∃ result, e'.results = (run.id, result) :: e.results ∧
      e'.runs = e.runs.filter (·.id != run.id) ∧
      (((∃ heeds, deed = .turn (.resume run.id) heeds) ∧ e.turn = some run.id) ∨
        ((∃ heeds, deed = .turn (.start run.id) heeds) ∧ e.turn ≠ some run.id ∧
          result = .error .shutdown)) := by
  cases p with
  | refused inFlight other runs calls results =>
    exact .inr ⟨_, inFlight, _, results, runs, .inr ⟨⟨_, rfl⟩, other, rfl⟩⟩
  | ends inFlight holds result late runs calls results =>
    exact .inr ⟨_, inFlight, result, results, runs, .inl ⟨⟨_, rfl⟩, holds⟩⟩
  | besides runs calls results => exact .inl results
  | begins ofLoop runs calls results => exact .inl results
  | asks inFlight holds stage runs calls results => exact .inl results
  | pauses inFlight holds stage failed runs calls results => exact .inl results
  | givenUp inFlight own runs calls results => exact .inl results

/-- A cycle whose outcome is there is not in flight any more. -/
theorem told_once (p : Proceeds e deed e') {result : CycleResult}
    (told : e'.results = (id, result) :: e.results) : ∀ run ∈ e'.runs, run.id ≠ id := by
  rcases p.results with same | ⟨other, -, result', results, runs, -⟩
  · exact absurd (same.symm.trans told).symm (List.cons_ne_self _ _)
  · have hid : other.id = id := congrArg Prod.fst (List.cons.inj (results.symm.trans told)).1
    rw [runs, hid]
    intro run hrun
    simpa using (List.mem_filter.1 hrun).2

/-- The cycle with the turn keeps it as long as it is in flight. -/
theorem turn (p : Proceeds e deed e') (holds : e.turn = some id)
    (inFlight : ∃ run ∈ e'.runs, run.id = id) : e'.turn = some id := by
  obtain ⟨r, hr, rfl⟩ := inFlight
  have held : e.turn = none ∨ e'.turn = e.turn → e'.turn = some r.id := by
    rintro (free | same)
    · rw [free] at holds
      cases holds
    · exact same.trans holds
  have dropped : ∀ run : Run, e.turn = some run.id → e'.runs = e.runs.filter (·.id != run.id) →
      e'.turn = some r.id := by
    intro run hrun runs
    rw [runs] at hr
    have same : run.id = r.id := Option.some.inj (hrun.symm.trans holds)
    simp [same] at hr
  cases p with
  | besides runs calls results turn => exact held turn
  | begins ofLoop runs calls results turn => exact held turn
  | refused inFlight other runs calls results turn => exact turn.trans holds
  | asks inFlight holds' stage runs calls results turn => exact turn.trans holds
  | pauses inFlight holds' stage failed runs calls results turn => exact turn.trans holds
  | ends inFlight holds' result late runs => exact dropped _ holds' runs
  | givenUp inFlight own runs calls results turn =>
    rcases turn with mine | same
    · exact dropped _ mine runs
    · exact same.trans holds

/-- What is over stays over: the cycle calls nobody, and its outcome stays what it is. -/
theorem stays_over (p : Proceeds e deed e') (h : Over e id) :
    Over e' id ∧ e'.callsOf id = e.callsOf id ∧ e'.resultsOf id = e.resultsOf id := by
  refine ⟨⟨Nat.lt_of_lt_of_le h.known p.started_le, fun run hrun heq => ?_⟩, ?_, ?_⟩
  · rcases p.before hrun with ⟨r, hr, hid⟩ | ⟨new, -⟩
    · exact h.gone r hr (hid.trans heq)
    · exact Nat.ne_of_lt h.known (heq.symm.trans new)
  · rcases p.calls with same | ⟨run, hrun, -, -, calls⟩
    · rw [callsOf, same]
      rfl
    · have other : (run.id == id) = false := by simpa using h.gone run hrun
      rw [callsOf, calls, List.filter_cons, other]
      rfl
  · rcases p.results with same | ⟨run, hrun, result, results, -⟩
    · rw [resultsOf, same]
      rfl
    · have other : (run.id == id) = false := by simpa using h.gone run hrun
      rw [resultsOf, results, List.filter_cons, other]
      rfl

end Proceeds

/-! ## Cycles that call nobody any more -/

/-- A cycle that is in flight is at this stage. -/
structure Stands (e : Engine) (id : Nat) (stage : Stage) : Prop where
  known : id < e.started
  stage : ∀ run ∈ e.runs, run.id = id → run.stage = stage

/-- From a final stage a cycle neither calls nor pauses: it stays there until it is over. -/
theorem Proceeds.stands {deed : Deed} {id : Nat} {stage : Stage} (p : Proceeds e deed e')
    (h : Stands e id stage) (final : stage.Final e.members.closed) :
    Stands e' id stage ∧ e'.callsOf id = e.callsOf id := by
  have known := Nat.lt_of_lt_of_le h.known p.started_le
  have same : e'.calls = e.calls → e'.callsOf id = e.callsOf id := fun calls => by
    rw [callsOf, calls, callsOf]
  have moved : ∀ run ∈ e.runs, run.id ≠ id → ∀ stage', e'.runs = (e.setStage run.id stage').runs →
      ∀ r ∈ e'.runs, r.id = id → r.stage = stage := by
    intro run hrun other stage' runs r hr hid
    obtain ⟨before, hb, -, ⟨own, -⟩ | ⟨-, rfl⟩⟩ := setStage_runs e _ _ (runs ▸ hr)
    · exact absurd (own.symm.trans hid) other
    · exact h.stage r hb hid
  cases p with
  | besides runs calls => exact ⟨⟨known, fun r hr => h.stage r (runs ▸ hr)⟩, same calls⟩
  | begins ofLoop runs calls =>
    refine ⟨⟨known, fun r hr hid => ?_⟩, same calls⟩
    rw [runs] at hr
    rcases List.mem_append.1 hr with hr | hr
    · exact h.stage r hr hid
    · rw [List.mem_singleton.1 hr] at hid
      exact absurd hid (Nat.ne_of_gt h.known)
  | refused inFlight other runs calls =>
    exact ⟨⟨known, fun r hr => h.stage r (List.mem_filter.1 (runs ▸ hr)).1⟩, same calls⟩
  | @asks run _ _ inFlight holds left ends outcome before runs calls =>
    have other : run.id ≠ id := by
      intro hid
      rcases before with ⟨hs, running, -⟩ | ⟨ends', last, hs, more⟩
      · rw [← h.stage run inFlight hid, hs] at final
        exact absurd (running.symm.trans final) (by decide)
      · rw [← h.stage run inFlight hid, hs] at final
        exact more final
    refine ⟨⟨known, moved run inFlight other _ runs⟩, ?_⟩
    have hne : (run.id == id) = false := by simpa using other
    rw [callsOf, calls, List.filter_cons, hne]
    rfl
  | @pauses run _ _ inFlight holds left ends ends' outcome last before failed runs calls =>
    have other : run.id ≠ id := by
      intro hid
      rw [← h.stage run inFlight hid, before] at final
      rw [show Retry.repeatable? outcome = none from final] at failed
      cases failed
    exact ⟨⟨known, moved run inFlight other _ runs⟩, same calls⟩
  | ends inFlight holds result late runs calls =>
    exact ⟨⟨known, fun r hr => h.stage r (List.mem_filter.1 (runs ▸ hr)).1⟩, same calls⟩
  | givenUp inFlight own runs calls =>
    exact ⟨⟨known, fun r hr => h.stage r (List.mem_filter.1 (runs ▸ hr)).1⟩, same calls⟩

/-! ## Runs of discovery -/

/-- Wherever discovery can be, cycles take turns and polls go on. -/
theorem Reachable.proceeds (h : Reachable config e) {deed : Deed} (allowed : e.Allows deed) :
    Proceeds e deed (e.act deed) := h.underway.turns.proceeds h.orderly allowed

/-- **What is over stays over**: the cycle calls nobody, and its outcome stays what it is. -/
theorem Over.leads {id : Nat} (isOver : Over e id) (h : Reachable config e) {deeds : List Deed}
    (l : Leads e deeds e') :
    Over e' id ∧ e'.callsOf id = e.callsOf id ∧ e'.resultsOf id = e.resultsOf id := by
  induction l with
  | start => exact ⟨isOver, rfl, rfl⟩
  | next before deed allowed ih =>
    obtain ⟨isOver', calls, results⟩ := ih
    obtain ⟨isOver'', calls', results'⟩ := ((h.leads before).proceeds allowed).stays_over isOver'
    exact ⟨isOver'', calls'.trans calls, results'.trans results⟩

/-- A cycle that is in flight at the end was in flight all the time. -/
theorem in_flight_meanwhile (h : Reachable config e) {deeds : List Deed} (l : Leads e deeds e')
    {id : Nat} (known : id < e.started) (inFlight : ∃ run ∈ e'.runs, run.id = id) :
    ∃ run ∈ e.runs, run.id = id := by
  by_contra gone
  have isOver : Over e id := ⟨known, fun run hrun hid => gone ⟨run, hrun, hid⟩⟩
  obtain ⟨run, hrun, hid⟩ := inFlight
  exact (isOver.leads h l).1.gone run hrun hid

theorem started_le_of_leads (h : Reachable config e) {deeds : List Deed} (l : Leads e deeds e') :
    e.started ≤ e'.started := by
  induction l with
  | start => exact Nat.le_refl _
  | next before deed allowed ih => exact Nat.le_trans ih ((h.leads before).proceeds allowed).started_le

/-- The cycle with the turn keeps it until it is over. -/
theorem turn_meanwhile (h : Reachable config e) {deeds : List Deed} (l : Leads e deeds e') {id : Nat}
    (holds : e.turn = some id) (inFlight : ∃ run ∈ e'.runs, run.id = id) : e'.turn = some id := by
  have known : id < e.started := by
    obtain ⟨run, hrun, rfl⟩ := h.underway.turns.holder id holds
    exact h.underway.turns.known run hrun
  induction l with
  | start => exact holds
  | next before deed allowed ih =>
    have reached := h.leads before
    have still := in_flight_meanwhile reached (Leads.start.next deed allowed)
      (Nat.lt_of_lt_of_le known (started_le_of_leads h before)) inFlight
    exact (reached.proceeds allowed).turn (ih still) inFlight

/-- The end is for good. -/
theorem ended_lasts (h : Reachable config e) {deeds : List Deed} (l : Leads e deeds e')
    (ended : e.members.closed = true) : e'.members.closed = true :=
  ((h.orderly.leads l).1.of_gone h.orderly.sound (h.orderly.sound.gone ended)).1.closed

/-- A cycle at a final stage calls nobody until it is over. -/
theorem Stands.leads {id : Nat} {stage : Stage} (stands : Stands e id stage)
    (final : stage.Final e.members.closed) (h : Reachable config e) {deeds : List Deed}
    (l : Leads e deeds e') : Stands e' id stage ∧ e'.callsOf id = e.callsOf id := by
  induction l with
  | start => exact ⟨stands, rfl⟩
  | @next deeds e' before deed allowed ih =>
    obtain ⟨stands', calls⟩ := ih
    have final' : stage.Final e'.members.closed := by
      cases stage with
      | queued => exact ended_lasts h before final
      | _ => exact final
    obtain ⟨stands'', calls'⟩ := ((h.leads before).proceeds allowed).stands stands' final'
    exact ⟨stands'', calls'.trans calls⟩

/-! ## The number of calls -/

/-- Every call is that of a cycle that began, no cycle makes more calls than there are attempts, and
one in flight has the others yet to make. -/
structure Asking (e : Engine) : Prop where
  known : ∀ c ∈ e.calls, c.run < e.started
  bound : ∀ id, (e.callsOf id).length ≤ e.retry.attempts.toNat
  budget : ∀ run ∈ e.runs,
    (e.callsOf run.id).length + run.stage.toCome e.retry.attempts.toNat = e.retry.attempts.toNat

namespace Asking

variable {deed : Deed}

/-- No cycle has called, and none is at another stage. -/
theorem quiet (h : Asking e) (settings : e'.config = e.config) (calls : e'.calls = e.calls)
    (started : e.started ≤ e'.started) (runs : ∀ run ∈ e'.runs, (e'.callsOf run.id).length +
      run.stage.toCome e.retry.attempts.toNat = e.retry.attempts.toNat) : Asking e' := by
  have retry : e'.retry = e.retry := by rw [Engine.retry, settings]; rfl
  refine ⟨fun c hc => ?_, fun id => ?_, retry ▸ runs⟩
  · rw [calls] at hc
    exact Nat.lt_of_lt_of_le (h.known c hc) started
  · rw [callsOf, calls, retry]
    exact h.bound id

/-- At most some cycles have gone. -/
theorem fewer (h : Asking e) (settings : e'.config = e.config) (calls : e'.calls = e.calls)
    (started : e'.started = e.started) (runs : ∀ run ∈ e'.runs, run ∈ e.runs) : Asking e' := by
  refine h.quiet settings calls (Nat.le_of_eq started.symm) fun run hrun => ?_
  rw [callsOf, calls]
  exact h.budget run (runs run hrun)

/-- A cycle that has a call to make has made it. -/
theorem asks (h : Asking e) (turns : InTurn e) (settings : e'.config = e.config)
    (inFlight : run ∈ e.runs) {left ends : Nat} {outcome : Except DiscoveryError (List Record)}
    (spent : (e.callsOf run.id).length + left = e.retry.attempts.toNat) (more : 0 < left)
    (runs : e'.runs = (e.setStage run.id (.attempting left ends outcome)).runs)
    (calls : e'.calls = ⟨e.now, run.id⟩ :: e.calls) (started : e'.started = e.started) :
    Asking e' := by
  have retry : e'.retry = e.retry := by rw [Engine.retry, settings]; rfl
  have mine : (e'.callsOf run.id).length = (e.callsOf run.id).length + 1 := by
    simp [callsOf, calls]
  have others : ∀ id, id ≠ run.id → e'.callsOf id = e.callsOf id := fun id hid => by
    simp [callsOf, calls, hid.symm]
  refine ⟨fun c hc => ?_, fun id => ?_, fun r hr => ?_⟩
  · rw [calls] at hc
    rw [started]
    rcases List.mem_cons.1 hc with rfl | hc
    · exact turns.known run inFlight
    · exact h.known c hc
  · rw [retry]
    by_cases hid : id = run.id
    · rw [hid, mine]
      omega
    · rw [others id hid]
      exact h.bound id
  · rw [retry]
    obtain ⟨before, hb, hid, ⟨own, hs⟩ | ⟨other, rfl⟩⟩ := setStage_runs e _ _ (runs ▸ hr)
    · rw [own, hs, mine]
      dsimp only [Stage.toCome]
      omega
    · rw [others r.id other]
      exact h.budget r hb

theorem act (h : Asking e) (turns : InTurn e) (p : Proceeds e deed e')
    (settings : e'.config = e.config) : Asking e' := by
  cases p with
  | besides runs calls results turn started =>
    exact h.fewer settings calls started fun run hrun => runs ▸ hrun
  | refused inFlight other runs calls results turn started =>
    exact h.fewer settings calls started fun run hrun => (List.mem_filter.1 (runs ▸ hrun)).1
  | ends inFlight holds result late runs calls results started =>
    exact h.fewer settings calls started fun run hrun => (List.mem_filter.1 (runs ▸ hrun)).1
  | givenUp inFlight own runs calls results turn started =>
    exact h.fewer settings calls started fun run hrun => (List.mem_filter.1 (runs ▸ hrun)).1
  | begins ofLoop runs calls results turn started =>
    refine h.quiet settings calls (by omega) fun run hrun => ?_
    rw [callsOf, calls]
    rw [runs] at hrun
    rcases List.mem_append.1 hrun with hrun | hrun
    · exact h.budget run hrun
    · rw [List.mem_singleton.1 hrun]
      have none : e.callsOf e.started = [] := by
        refine List.filter_eq_nil_iff.2 fun c hc => ?_
        simpa using Nat.ne_of_lt (h.known c hc)
      exact (congrArg (·.length + e.retry.attempts.toNat) none).trans (Nat.zero_add _)
  | @pauses run _ _ inFlight holds left ends ends' outcome last stage failed runs calls results turn
      started =>
    refine h.quiet settings calls (Nat.le_of_eq started.symm) fun r hr => ?_
    rw [callsOf, calls]
    obtain ⟨before, hb, hid, ⟨mine, hs⟩ | ⟨-, rfl⟩⟩ := setStage_runs e _ _ (runs ▸ hr)
    · have spent := h.budget run inFlight
      rw [stage] at spent
      rw [mine, hs]
      exact spent
    · exact h.budget r hb
  | @asks run _ _ inFlight holds left ends outcome stage runs calls results turn started =>
    have spent := h.budget run inFlight
    rcases stage with ⟨hs, -, rfl⟩ | ⟨ends', last, hs, hne⟩
    · rw [hs] at spent
      exact h.asks turns settings inFlight spent e.retry.attempts_pos runs calls started
    · rw [hs] at spent
      exact h.asks turns settings inFlight spent (Nat.pos_of_ne_zero hne) runs calls started

end Asking

theorem start_idle {directory : Directory} {reactions : List Reaction}
    (h : start config directory reactions = .ok e) : e.runs = [] ∧ e.calls = [] := by
  unfold start at h
  split at h
  · cases h
  · split at h
    · cases h
    · obtain rfl := Except.ok.inj h
      exact ⟨rfl, rfl⟩

/-- Wherever discovery can be, no cycle calls more often than it may. -/
theorem Reachable.asking (h : Reachable config e) : Asking e := by
  refine h.induct (fun directory reactions e₀ h₀ => ?_) fun e deed reached allowed ih => ?_
  · obtain ⟨runs, calls⟩ := start_idle h₀
    exact ⟨by simp [calls], by simp [callsOf, calls], by simp [runs]⟩
  · have next := reached.leads (Leads.start.next deed allowed)
    exact ih.act reached.underway.turns (reached.proceeds allowed)
      (next.orderly.settings.trans reached.orderly.settings.symm)

end Engine

end Roster
