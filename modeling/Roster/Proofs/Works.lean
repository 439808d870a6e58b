import Roster.Engine.Session
import Roster.Proofs.Moves

/-!
# Proofs.Works — what the jobs of cycles and of the poll loop do

* `Aside`: a change of what concerns neither the members, nor the outcomes of cycles, nor timers.
* `Quiet`, `Quietly`: changes that leave the peers as they are, apart from the end of everything.
* `Works`: the same, or one cycle with an answer between such changes. `resolve_eq`: such a cycle
  reconciles the members with its candidates, and counts.
* `resumeRun_cases`: a cycle that goes on concludes, or does nothing that concerns the members.
* One lemma for each other function of the engine that fires no timer.
-/

namespace Roster

open Members Relation

/-- The timer that the job concerns. -/
def Job.timer? : Job → Option Nat
  | .arm timer | .fire timer => some timer
  | _ => none

namespace Engine

/-- The jobs that concern timers, among those that can go on. -/
def timerJobs (e : Engine) : List Job := e.ready.filter (·.timer?.isSome)

/-- A change that concerns neither the members, nor the outcomes of cycles, nor timers. New alarms
lie ahead. -/
structure Aside (e e' : Engine) : Prop where
  members : e'.members = e.members
  running : e'.running = e.running
  config : e'.config = e.config
  results : e'.results = e.results
  jobs : e'.timerJobs = e.timerJobs
  alarms : ∃ later, e'.alarms = e.alarms ++ later ∧
    ∀ a ∈ later, a.job.timer? = none ∧ e.now ≤ a.due ∧ a.due % Clock.tick = 0

namespace Aside

variable {e e' e'' : Engine}

theorem of_eq (members : e'.members = e.members) (running : e'.running = e.running)
    (config : e'.config = e.config) (results : e'.results = e.results)
    (jobs : e'.timerJobs = e.timerJobs) (alarms : e'.alarms = e.alarms) : Aside e e' :=
  ⟨members, running, config, results, jobs, [], by simp [alarms], by simp⟩

theorem refl (e : Engine) : Aside e e := of_eq rfl rfl rfl rfl rfl rfl

theorem trans (h : Aside e e') (h' : Aside e' e'') : Aside e e'' := by
  obtain ⟨later, hl, hlater⟩ := h.alarms
  obtain ⟨later', hl', hlater'⟩ := h'.alarms
  refine ⟨h'.members.trans h.members, h'.running.trans h.running, h'.config.trans h.config,
    h'.results.trans h.results, h'.jobs.trans h.jobs, later ++ later', ?_, ?_⟩
  · rw [hl', hl, List.append_assoc]
  · intro a ha
    rcases List.mem_append.1 ha with ha | ha
    · exact hlater a ha
    · have hnow : e'.now = e.now := congrArg Members.now h.members
      exact hnow ▸ hlater' a ha

/-- The same after a change that concerns none of these either. -/
theorem after (h : Aside e' e'') (members : e'.members = e.members)
    (running : e'.running = e.running) (config : e'.config = e.config)
    (results : e'.results = e.results) (jobs : e'.timerJobs = e.timerJobs)
    (alarms : e'.alarms = e.alarms) : Aside e e'' :=
  (of_eq members running config results jobs alarms).trans h

end Aside

/-- A change that leaves the peers as they are, or gives all of them up for good. -/
inductive Quiet (e : Engine) : Engine → Prop where
  /-- Something else changes. -/
  | aside {e'} (h : Aside e e') : Quiet e e'
  /-- A line is written. -/
  | write (remark : Remark) : Quiet e (e.write remark)
  /-- A cycle is counted. -/
  | count {f} (hf : OfCycle f) : Quiet e (e.count f)
  /-- A cycle ends without an answer. -/
  | fruitless (id : Nat) (result : CycleResult)
      (h : ∀ report, result = .ok report → report = .unresolved) :
      Quiet e { e with results := (id, result) :: e.results }
  /-- Discovery is over. -/
  | close : Quiet e { e with running := false, members := e.members.close }

abbrev Quietly : Engine → Engine → Prop := ReflTransGen Quiet

/-- A cycle ends with an answer. -/
def conclusion (e : Engine) (id : Nat) (answer : List Record) : Engine :=
  { (e.resolve answer).2 with
    results := (id, .ok (e.resolve answer).1) :: (e.resolve answer).2.results }

/-- A cycle is done with the members, and counts. -/
def counted (e : Engine) (members : Members) : Engine :=
  { e with
    members := (members.count Tally.cycle).count (·.resolved (members.count Tally.cycle).size)
    ready := e.ready ++ (List.range (members.armed - e.members.armed)).map fun i =>
      .arm (e.members.armed + i) }

theorem counted_members (e : Engine) (members : Members) :
    ∃ tally, (e.counted members).members = { members with tally } := ⟨_, rfl⟩

/-- A cycle with an answer reconciles the members with the candidates, and counts. -/
theorem resolve_eq (e : Engine) (answer : List Record) : e.resolve answer =
    (⟨true, (e.found answer).1.size,
      ((e.briefed answer).members.reconcile Members.tell (e.found answer).1).1, (e.found answer).2⟩,
      (e.briefed answer).counted
        ((e.briefed answer).members.reconcile Members.tell (e.found answer).1).2) := by
  unfold resolve onMembers counted Engine.count
  dsimp only

/-- What a job of a cycle or of the poll loop does: quiet changes, and at most one answer. -/
inductive Works (e : Engine) : Engine → Prop where
  | quiet {e'} (h : Quietly e e') : Works e e'
  | answer {e₁ e'} (before : Aside e e₁) (id : Nat) (answer : List Record)
      (after : Quietly (e₁.conclusion id answer) e') : Works e e'

theorem Aside.quietly {e e' : Engine} (h : Aside e e') : Quietly e e' := .single (.aside h)

theorem Works.after {e e' e'' : Engine} (h : Aside e e') (w : Works e' e'') : Works e e'' := by
  cases w with
  | quiet h' => exact .quiet (.head (.aside h) h')
  | answer before id answer after => exact .answer (h.trans before) id answer after

theorem Aside.works {e e' : Engine} (h : Aside e e') : Works e e' := .quiet h.quietly

/-! ## Jobs -/

variable {e : Engine}

theorem goOn_aside {job : Job} (h : job.timer? = none) : Aside e (e.goOn job) :=
  .of_eq rfl rfl rfl rfl (by simp [timerJobs, goOn, h]) rfl

theorem wake_aside {job : Job} (h : job.timer? = none) : Aside e (e.wake job) := by
  unfold wake
  split
  · exact .refl e
  · exact .of_eq rfl rfl rfl rfl (by simp [timerJobs, h]) rfl

theorem goOnAt_aside {job : Job} {due : Nat} (hdue : due % Clock.tick = 0)
    (h : job.timer? = none) : Aside e (e.goOnAt due job) := by
  unfold goOnAt
  split
  · exact goOn_aside h
  · next hlater =>
    refine ⟨rfl, rfl, rfl, rfl, rfl, [⟨due, job⟩], rfl, ?_⟩
    intro a ha
    obtain rfl := List.mem_singleton.1 ha
    exact ⟨h, Nat.le_of_not_le hlater, hdue⟩

theorem foldl_wake_aside {α : Type} {job : α → Job} (h : ∀ a, (job a).timer? = none) (l : List α) :
    Aside e (l.foldl (fun e a => e.wake (job a)) e) := by
  induction l generalizing e with
  | nil => exact .refl e
  | cons a rest ih => exact (wake_aside (h a)).trans ih

theorem foldl_write_quietly (remarks : List Remark) : Quietly e (remarks.foldl write e) := by
  induction remarks generalizing e with
  | nil => exact .refl
  | cons remark rest ih => exact .head (.write remark) ih

/-! ## Cycles -/

theorem passTurn_aside : Aside e e.passTurn := by
  unfold passTurn
  split
  · exact .of_eq rfl rfl rfl rfl rfl rfl
  · exact (wake_aside rfl).after rfl rfl rfl rfl rfl rfl

theorem takeTurn_aside (id : Nat) : Aside e (e.takeTurn id) := by
  unfold takeTurn
  split
  · exact (goOn_aside rfl).after rfl rfl rfl rfl rfl rfl
  · exact .of_eq rfl rfl rfl rfl rfl rfl

theorem newRun_aside (ofLoop : Bool) : Aside e (e.newRun ofLoop).2 := .of_eq rfl rfl rfl rfl rfl rfl

theorem attempt_aside (id left : Nat) : Aside e (e.attempt id left) := by
  unfold attempt
  exact (goOnAt_aside (Retry.outcome_mod _ _ _ _) rfl).after rfl rfl rfl rfl rfl rfl

theorem unresolve_quietly : Quietly e e.unresolve.2 :=
  ((ReflTransGen.single (.write _)).tail (.count .failure)).tail (.count .cycle)

/-! ## The poll loop -/

theorem serveTick_aside (due : Nat) : Aside e (e.serveTick due) :=
  (newRun_aside true).trans ((takeTurn_aside _).after rfl rfl rfl rfl rfl rfl)

theorem awaitTick_aside (due : Nat) : Aside e (e.awaitTick due) := by
  unfold awaitTick
  exact (goOnAt_aside (Clock.roundUp_mod _) rfl).after rfl rfl rfl rfl rfl rfl

theorem afterCycle_aside (result : CycleResult) : Aside e (e.afterCycle result) := by
  unfold afterCycle
  split
  · exact awaitTick_aside _
  · split
    · exact .of_eq rfl rfl rfl rfl rfl rfl
    · exact awaitTick_aside _
  · exact .refl e

theorem resumeLoop_aside : Aside e e.resumeLoop := by
  unfold resumeLoop
  split
  · exact .of_eq rfl rfl rfl rfl rfl rfl
  · split
    · split
      · exact serveTick_aside _
      · exact (goOnAt_aside (Clock.after_mod _ _) rfl).after rfl rfl rfl rfl rfl rfl
    · split
      · exact serveTick_aside _
      · exact .refl e
    · split
      · exact serveTick_aside _
      · exact .refl e
    · exact .refl e

/-! ## The end -/

theorem closeChannel_aside : Aside e e.closeChannel := by
  unfold closeChannel
  exact (foldl_wake_aside (fun _ => rfl) _).after rfl rfl rfl rfl rfl rfl

theorem abortLoop_aside : Aside e e.abortLoop := by
  unfold abortLoop
  split
  · exact .refl e
  · exact (wake_aside rfl).after rfl rfl rfl rfl rfl rfl
  · exact (wake_aside rfl).after rfl rfl rfl rfl rfl rfl

theorem silence_quietly : Quietly e e.silence := by
  have h : Aside { e with running := false } (closeChannel { e with running := false }).abortLoop :=
    closeChannel_aside.trans abortLoop_aside
  have h' : Aside { e with running := false, members := e.members.close } e.silence :=
    ⟨congrArg Members.close h.members, h.running, h.config, h.results, h.jobs, h.alarms⟩
  exact .head .close h'.quietly

theorem settleRelease_quietly : Quietly e e.settleRelease := by
  unfold settleRelease
  split
  · exact silence_quietly
  · exact .refl

/-! ## Outcomes -/

/-- Once its outcome is on record, a cycle ends quietly. -/
theorem finish_quietly (run : Run) (result : CycleResult) :
    Quietly { e with results := (run.id, result) :: e.results } (e.finish run result) := by
  have passed : Aside (e.dropRun run.id) (e.dropRun run.id).passTurn := passTurn_aside
  have h : Aside { e with results := (run.id, result) :: e.results }
      { (e.dropRun run.id).passTurn with
        results := (run.id, result) :: (e.dropRun run.id).passTurn.results } :=
    ⟨passed.members, passed.running, passed.config, congrArg (List.cons _) passed.results,
      passed.jobs, passed.alarms⟩
  unfold finish
  dsimp only
  split
  · exact (h.trans (afterCycle_aside result)).quietly
  · exact .head (.aside h) settleRelease_quietly

theorem finish_fruitless (run : Run) {result : CycleResult}
    (h : ∀ report, result = .ok report → report = .unresolved) :
    Quietly e (e.finish run result) :=
  .head (.fruitless run.id result h) (finish_quietly run result)

theorem conclude_works (run : Run) (outcome : Except DiscoveryError (List Record)) :
    Works e (e.conclude run outcome) := by
  cases outcome with
  | ok records => exact .answer (.refl e) run.id records (finish_quietly run _)
  | error error =>
    refine .quiet ?_
    unfold conclude
    by_cases hc : error.isCancelled = true
    · rw [show Retry.optional operation (.error error : Except DiscoveryError (List Record)) =
        (.error error, []) from if_pos hc]
      exact finish_fruitless run fun report hr => by cases hr
    · rw [show Retry.optional operation (.error error : Except DiscoveryError (List Record)) =
        (.ok none, [.givingUp operation error]) from if_neg hc]
      exact (ReflTransGen.head (.write _) unresolve_quietly).trans
        (finish_fruitless run fun report hr => (Except.ok.inj hr).symm)

theorem abandon_aside (run : Run) : Aside e (e.abandon run) := by
  unfold abandon
  dsimp only
  split
  · exact passTurn_aside.after rfl rfl rfl rfl rfl rfl
  · exact .of_eq rfl rfl rfl rfl rfl rfl

theorem enter_cases (run : Run) :
    Aside e (e.enter run) ∨ ∃ outcome, e.enter run = e.conclude run outcome := by
  unfold enter
  split
  · exact .inr ⟨.error .shutdown, rfl⟩
  · split
    · exact .inr ⟨_, rfl⟩
    · exact .inl (attempt_aside _ _)

theorem afterAttempt_cases (run : Run) (left : Nat) (outcome : Except DiscoveryError (List Record)) :
    Aside e (e.afterAttempt run left outcome) ∨
      ∃ outcome', e.afterAttempt run left outcome = e.conclude run outcome' := by
  unfold afterAttempt
  split
  · exact .inr ⟨_, rfl⟩
  · dsimp only
    split
    · exact .inl ((goOn_aside rfl).after rfl rfl rfl rfl rfl rfl)
    · exact .inl ((goOnAt_aside (Clock.after_mod _ _) rfl).after rfl rfl rfl rfl rfl rfl)

theorem afterPause_cases (run : Run) (left : Nat) (last : DiscoveryError) :
    Aside e (e.afterPause run left last) ∨
      ∃ outcome, e.afterPause run left last = e.conclude run outcome := by
  unfold afterPause
  split
  · exact .inr ⟨_, rfl⟩
  · exact .inl (attempt_aside _ _)

/-- A cycle that goes on concludes, or does nothing that concerns the members. -/
theorem resumeRun_cases (run : Run) (heeds : Bool) :
    Aside e (e.resumeRun run heeds) ∨ ∃ outcome, e.resumeRun run heeds = e.conclude run outcome := by
  unfold resumeRun
  split
  · exact .inl (abandon_aside run)
  · split
    · split
      · exact enter_cases run
      · exact .inl (.refl e)
    · split
      · exact afterAttempt_cases run _ _
      · exact .inl (.refl e)
    · split
      · exact .inr ⟨_, rfl⟩
      · split
        · exact afterPause_cases run _ _
        · exact .inl (.refl e)

theorem resumeRun_works (run : Run) (heeds : Bool) : Works e (e.resumeRun run heeds) := by
  rcases resumeRun_cases run heeds with aside | ⟨outcome, heq⟩
  · exact aside.works
  · rw [heq]
    exact conclude_works run outcome

theorem startRun_quietly (id : Nat) : Quietly e (e.startRun id) := by
  unfold startRun
  split
  · exact (takeTurn_aside id).quietly
  · have h : Quiet (e.dropRun id) { e.dropRun id with results := (id, .error .shutdown) :: e.results } :=
      .fruitless id _ fun report hr => by cases hr
    have gone : Aside e (e.dropRun id) := .of_eq rfl rfl rfl rfl rfl rfl
    exact .head (.aside gone) (.head h settleRelease_quietly)

/-! ## Deeds -/

/-- A job that concerns no timer leaves those that do. -/
theorem erase_aside {job : Job} (h : job.timer? = none) :
    Aside e { e with ready := e.ready.erase job } := by
  refine .of_eq rfl rfl rfl rfl ?_ rfl
  show (e.ready.erase job).filter (·.timer?.isSome) = e.ready.filter (·.timer?.isSome)
  rw [← List.erase_filter, List.erase_of_not_mem]
  simp [h]

/-- A job that concerns no timer. -/
theorem turn_works {job : Job} {heeds : Bool} (h : job.timer? = none) :
    Works e (e.act (.turn job heeds)) := by
  refine .after (erase_aside h) ?_
  cases job with
  | arm timer => cases h
  | fire timer => cases h
  | start id => exact .quiet (startRun_quietly id)
  | resume id =>
    unfold act Engine.step
    dsimp only
    split
    · exact resumeRun_works _ heeds
    · exact (Aside.refl _).works
  | loop => exact resumeLoop_aside.works

/-- What somebody may ask for without naming a peer. -/
theorem ask_quietly {deed : Deed} (h : match deed with
    | .call | .spawn | .cancel | .stop | .release | .serve _ => True
    | _ => False) : Quietly e (e.act deed) := by
  cases deed with
  | call =>
    show Quietly e e.call.2
    unfold call
    split
    · exact ((newRun_aside false).trans (takeTurn_aside _)).quietly
    · exact .refl
  | spawn => exact ((newRun_aside false).trans (wake_aside rfl)).quietly
  | cancel =>
    show Quietly e e.cancel.2
    unfold cancel
    split
    · exact closeChannel_aside.quietly
    · exact .refl
  | stop =>
    show Quietly e e.stop
    unfold stop
    dsimp only
    split
    · exact silence_quietly.tail (.write _)
    · exact silence_quietly
  | release =>
    have h : Aside e { e with released := true } := .of_eq rfl rfl rfl rfl rfl rfl
    exact .head (.aside h) settleRelease_quietly
  | serve directory => exact Aside.quietly (.of_eq rfl rfl rfl rfl rfl rfl)
  | _ => cases h

end Engine

end Roster
