import Roster.Proofs.Polling

/-!
# Proofs.Persistence — what can end the poll loop before the end of discovery

* `Directory.Candid`: a directory that never answers with the errors that stand for a stop.
* `Persistent`: the poll loop has not ended, and nothing that is under way will end it.
* `poll_loop_persists`: over such directories the poll loop goes on for as long as discovery runs.
* `poll_loop_ended_by_answer`: over others it need not. `poll_loop_stays_ended`: then it never polls
  again.
-/

namespace Roster

/-- The directory never answers that it was cancelled or shut down. -/
def Directory.Candid : Directory → Prop
  | .scripted script => ∀ answer, answer ∈ script.answers ∨ script.fallback = some answer →
      ∀ error, answer.result = .error error → error.isCancelled = false
  | .fixed _ | .dns _ => True

/-- The deed leaves the channel open and brings in no directory that claims a stop. -/
def Deed.Plain : Deed → Prop
  | .cancel => False
  | .serve directory => directory.Candid
  | _ => True

theorem Directory.Candid.ask {d : Directory} (h : d.Candid) (selector : Selector) :
    (d.ask selector).2.Candid ∧
      ∀ error, (d.ask selector).1.result = .error error → error.isCancelled = false := by
  cases d with
  | scripted script =>
    obtain ⟨answers, fallback⟩ := script
    cases answers with
    | cons a rest =>
      refine ⟨?_, h a (.inl List.mem_cons_self)⟩
      intro answer ha
      exact h answer (ha.imp_left (List.mem_cons_of_mem a))
    | nil =>
      refine ⟨h, ?_⟩
      cases fallback with
      | some answer => exact h answer (.inr rfl)
      | none =>
        intro error he
        obtain rfl := Except.error.inj he
        rfl
  | fixed list =>
    refine ⟨trivial, ?_⟩
    intro error he
    cases he
  | dns names =>
    refine ⟨trivial, ?_⟩
    intro error he
    cases selector with
    | pods namespaceName labels =>
      obtain rfl := Except.error.inj he
      rfl
    | service name =>
      unfold Directory.ask Dns.list Dns.lookupHost at he
      dsimp only at he
      split at he
      · cases he
      · split at he
        · obtain rfl := Except.error.inj he
          rfl
        · cases he

/-- The time limit of an attempt adds no error that stands for a stop. -/
theorem outcome_candid {α : Type} (r : Retry) (operation : String) (now : Nat) {answer : Answer α}
    (h : ∀ error, answer.result = .error error → error.isCancelled = false) :
    ∀ error, (r.outcome operation now answer).2 = .error error → error.isCancelled = false := by
  intro error he
  unfold Retry.outcome at he
  split at he
  · exact h error he
  · dsimp only at he
    split at he
    · exact h error he
    · obtain rfl := Except.error.inj he
      rfl

namespace Engine

variable {config : Config} {e e' : Engine} {run : Run}

/-- The outcome that the cycle waits for is no error that stands for a stop. -/
def Honest (run : Run) : Prop :=
  ∀ left ends error, run.stage = .attempting left ends (.error error) → error.isCancelled = false

/-- As long as discovery runs, the poll loop has not ended, and nothing that is under way ends it. -/
structure Persistent (e : Engine) : Prop where
  directory : e.directory.Candid
  honest : ∀ run ∈ e.runs, Honest run
  listening : e.running = true → e.isCancelled = false
  loop : e.running = true → e.loop ≠ .ended

namespace Persistent

theorem congr (h : Persistent e) (directory : e'.directory.Candid)
    (runs : ∀ run ∈ e'.runs, run ∈ e.runs ∨ Honest run)
    (running : e'.running = true → e.running = true ∧ e'.channel = e.channel)
    (loop : e'.running = true → e'.loop = e.loop ∨ e'.loop ≠ .ended) : Persistent e' := by
  refine ⟨directory, fun run hr => (runs run hr).elim (h.honest run) id, ?_, ?_⟩
  · intro hrunning
    obtain ⟨hrunning', hchannel⟩ := running hrunning
    rw [isCancelled, hchannel]
    exact h.listening hrunning'
  · intro hrunning
    rcases loop hrunning with hl | hl
    · rw [hl]
      exact h.loop (running hrunning).1
    · exact hl

theorem elsewhere (h : Persistent e) (x : Elsewhere e e') : Persistent e' := by
  cases x with
  | mk members fresh later now closed jobs alarms finished =>
  exact h.congr h.directory (fun _ => .inl) (fun hr => ⟨hr, rfl⟩) fun _ => .inl rfl

/-- Discovery is over. -/
theorem stopped (h : Persistent e) (directory : e'.directory = e.directory) (runs : e'.runs = e.runs)
    (stopped : e'.running = false) : Persistent e' := by
  have nothing : ∀ {P : Prop}, e'.running = true → P := fun running =>
    absurd (stopped.symm.trans running) (by decide)
  exact ⟨directory ▸ h.directory, runs ▸ h.honest, nothing, nothing⟩

theorem settleRelease (h : Persistent e) : Persistent e.settleRelease := by
  unfold Engine.settleRelease
  split
  · obtain ⟨aborted, woken, heq⟩ := silence_eq e
    exact heq ▸ h.stopped rfl rfl rfl
  · exact h

theorem goOnAt (h : Persistent e) (due : Nat) (job : Job) : Persistent (e.goOnAt due job) := by
  obtain ⟨first, later, heq, -⟩ := goOnAt_eq e due job
  rw [heq]
  exact h.congr h.directory (fun _ => .inl) (fun hr => ⟨hr, rfl⟩) fun _ => .inl rfl

theorem wait (h : Persistent e) {loop : Loop} (hl : loop ≠ .ended) : Persistent { e with loop } :=
  h.congr h.directory (fun _ => .inl) (fun hr => ⟨hr, rfl⟩) fun _ => .inr hl

theorem takeTurn (h : Persistent e) (id : Nat) : Persistent (e.takeTurn id) := by
  unfold Engine.takeTurn
  split <;> exact h.congr h.directory (fun _ => .inl) (fun hr => ⟨hr, rfl⟩) fun _ => .inl rfl

theorem newRun (h : Persistent e) (ofLoop : Bool) : Persistent (e.newRun ofLoop).2 := by
  refine h.congr h.directory ?_ (fun hr => ⟨hr, rfl⟩) fun _ => .inl rfl
  intro run hr
  rcases List.mem_append.1 hr with hr | hr
  · exact .inl hr
  · rw [List.mem_singleton.1 hr]
    exact .inr fun left ends error hs => by cases hs

theorem dropRun (h : Persistent e) (id : Nat) : Persistent (e.dropRun id) :=
  h.congr h.directory (fun _ hr => .inl (List.mem_filter.1 hr).1) (fun hr => ⟨hr, rfl⟩) fun _ => .inl rfl

theorem setStage (h : Persistent e) (id : Nat) (stage : Stage)
    (honest : ∀ run : Run, Honest { run with stage }) : Persistent (e.setStage id stage) := by
  refine h.congr h.directory ?_ (fun hr => ⟨hr, rfl⟩) fun _ => .inl rfl
  intro run hr
  obtain ⟨old, hold, rfl⟩ := List.mem_map.1 hr
  split
  · exact .inr (honest old)
  · exact .inl hold

theorem attempt (h : Persistent e) (id left : Nat) : Persistent (e.attempt id left) := by
  obtain ⟨directory, answer⟩ := h.directory.ask e.config.selector
  have asked : Persistent { e with
      directory := (e.directory.ask e.config.selector).2, calls := ⟨e.now, id⟩ :: e.calls } :=
    h.congr directory (fun _ => .inl) (fun hr => ⟨hr, rfl⟩) fun _ => .inl rfl
  refine (asked.setStage id _ ?_).goOnAt _ _
  intro run left' ends error hs
  obtain ⟨-, -, houtcome⟩ := Stage.attempting.inj hs
  exact outcome_candid e.retry operation e.now answer error houtcome

theorem pause (h : Persistent e) (run : Run) (left : Nat)
    {outcome : Except DiscoveryError (List Record)} {last : DiscoveryError}
    (failed : Retry.repeatable? outcome = some last) :
    Persistent (e.afterAttempt run left outcome) := by
  obtain ⟨ends, first, later, heq, -⟩ := pause_eq e run left failed
  have paused := h.setStage run.id (.pausing (left - 1) ends last) fun _ _ _ _ hs => by cases hs
  rw [heq]
  exact paused.congr paused.directory (fun _ => .inl) (fun hr => ⟨hr, rfl⟩) fun _ => .inl rfl

/-- A cycle comes to its end. As long as discovery runs it is no cancellation. -/
theorem finish (h : Persistent e) (run : Run) {result : CycleResult}
    (fair : e.running = true → ∃ report, result = .ok report) : Persistent (e.finish run result) := by
  obtain ⟨turn, queue, woken, heq, -⟩ := passTurn_eq (e.dropRun run.id)
  have passed : Persistent { (e.dropRun run.id).passTurn with
      results := (run.id, result) :: (e.dropRun run.id).passTurn.results } := by
    rw [heq]
    exact (h.dropRun run.id).congr h.directory (fun _ => .inl) (fun hr => ⟨hr, rfl⟩) fun _ => .inl rfl
  unfold Engine.finish
  dsimp only
  split
  · unfold Engine.afterCycle
    split
    · exact (passed.wait (by simp)).goOnAt _ _
    · next error _ =>
      split
      · refine passed.congr passed.directory (fun _ => .inl) (fun hr => ⟨hr, rfl⟩) ?_
        intro hr
        rw [heq] at hr
        obtain ⟨report, hreport⟩ := fair hr
        cases hreport
      · exact (passed.wait (by simp)).goOnAt _ _
    · exact passed
  · exact passed.settleRelease

/-- As long as discovery runs, a cycle ends with a report. -/
theorem fair (h : Persistent e) (closed : e.members.closed = !e.running) (hrun : run ∈ e.runs)
    {result : CycleResult} (cause : ∀ error, result = .error error → error.isCancelled = true ∧
      (e.members.closed = true ∨ e.isCancelled = true ∨
        ∃ left ends, run.stage = .attempting left ends (.error error)))
    (running : e.running = true) : ∃ report, result = .ok report := by
  cases result with
  | ok report => exact ⟨report, rfl⟩
  | error error =>
    exfalso
    obtain ⟨cancelled, hclosed | hcancelled | ⟨left, ends, hs⟩⟩ := cause error rfl
    · rw [closed, running] at hclosed
      cases hclosed
    · rw [h.listening running] at hcancelled
      cases hcancelled
    · rw [h.honest run hrun left ends error hs] at cancelled
      cases cancelled

/-- A cycle goes on. -/
theorem goes (h : Persistent e) (closed : e.members.closed = !e.running)
    (polling : Polling (e.goOn (.resume run.id))) (hrun : run ∈ e.runs) (g : Goes e run e') :
    Persistent e' := by
  cases g with
  | waits kept early => exact h
  | asks kept turn listening left stage => exact h.attempt _ _
  | pauses kept stage finished failed => exact h.pause run _ failed
  | @ends kept turn e₁ elsewhere result noop cause =>
    refine (h.elsewhere elsewhere).finish run fun hr => h.fair closed hrun cause ?_
    cases elsewhere
    exact hr
  | abandoned ofLoop aborted =>
    obtain ⟨turn, queue, woken, heq, -⟩ := abandon_eq e run
    have finished : ∀ {P : Prop}, e.running = true → P := fun running =>
      absurd ((polling.running running).symm.trans aborted) (by decide)
    rw [heq]
    exact h.congr h.directory (fun _ hr => .inl (List.mem_filter.1 hr).1) finished finished

theorem resumeLoop (h : Persistent e) (polling : Polling (e.goOn .loop)) : Persistent e.resumeLoop := by
  have serve : ∀ due, Persistent (e.serveTick due) := fun due =>
    ((h.newRun true).wait (by simp)).takeTurn _
  unfold Engine.resumeLoop
  split
  · next aborted =>
    have finished : ∀ {P : Prop}, e.running = true → P := fun running =>
      absurd ((polling.running running).symm.trans aborted) (by decide)
    exact h.congr h.directory (fun _ => .inl) finished finished
  · split
    · split
      · exact serve _
      · exact (h.wait (by simp)).goOnAt _ _
    · split
      · exact serve _
      · exact h
    · split
      · exact serve _
      · exact h
    · exact h

theorem startRun (h : Persistent e) (id : Nat) : Persistent (e.startRun id) := by
  unfold Engine.startRun
  split
  · exact h.takeTurn id
  · refine settleRelease ?_
    exact (h.dropRun id).congr h.directory (fun _ => .inl) (fun hr => ⟨hr, rfl⟩) fun _ => .inl rfl

/-- **Nothing ends the poll loop** but the end of discovery, if no directory claims a stop. -/
theorem act (h : Persistent e) (ordered : Orderly config e) (underway : Underway e) {deed : Deed}
    (allowed : e.Allows deed) (plain : deed.Plain) : Persistent (e.act deed) := by
  cases deed with
  | turn job heeds =>
    have popped : Persistent { e with ready := e.ready.erase job } :=
      h.congr h.directory (fun _ => .inl) (fun hr => ⟨hr, rfl⟩) fun _ => .inl rfl
    have closed : e.members.closed = !e.running := ordered.closed
    have taken : Taken _ job (e.act (.turn job heeds)) := underway.turns.taken ordered allowed
    have polling := (underway.take allowed).polling
    generalize e.act (.turn job heeds) = e' at taken
    cases taken with
    | timer concerns elsewhere => exact popped.elsewhere elsewhere
    | start id => exact popped.startRun id
    | loop => exact popped.resumeLoop polling
    | resume inFlight goes => exact popped.goes closed polling inFlight goes
    | stale gone => exact popped
  | wait time =>
    obtain ⟨woken, heq, -⟩ := jump_eq e time
    rw [show e.act (.wait time) = _ from heq]
    exact h.congr h.directory (fun _ => .inl) (fun hr => ⟨hr, rfl⟩) fun _ => .inl rfl
  | call =>
    show Persistent e.call.2
    unfold call
    split
    · exact (h.newRun false).takeTurn _
    · exact h
  | spawn =>
    obtain ⟨woken, heq, -⟩ := wake_eq (e.newRun false).2 (.start e.started)
    show Persistent ((e.newRun false).2.wake (.start e.started))
    rw [heq]
    have begun := h.newRun false
    exact begun.congr begun.directory (fun _ => .inl) (fun hr => ⟨hr, rfl⟩) fun _ => .inl rfl
  | fail key => exact h.elsewhere (.fail ordered key)
  | pardon key => exact h.elsewhere (.pardon e key)
  | cancel => exact plain.elim
  | stop =>
    obtain ⟨aborted, woken, members, heq⟩ := stop_eq e
    rw [show e.act .stop = _ from heq]
    exact h.stopped rfl rfl rfl
  | release =>
    have h' : Persistent { e with released := true } :=
      h.congr h.directory (fun _ => .inl) (fun hr => ⟨hr, rfl⟩) fun _ => .inl rfl
    exact h'.settleRelease
  | serve directory => exact h.congr plain (fun _ => .inl) (fun hr => ⟨hr, rfl⟩) fun _ => .inl rfl

theorem leads (h : Persistent e) (ordered : Orderly config e) (underway : Underway e)
    {deeds : List Deed} (l : Leads e deeds e') (plain : ∀ deed ∈ deeds, deed.Plain) :
    Persistent e' := by
  induction l with
  | start => exact h
  | next before deed allowed ih =>
    exact (ih fun d hd => plain d (List.mem_cons_of_mem _ hd)).act (ordered.leads before).2
      (underway.leads ordered before) allowed (plain deed List.mem_cons_self)

end Persistent

theorem start_persistent {directory : Directory} {reactions : List Reaction}
    (candid : directory.Candid) (h : start config directory reactions = .ok e) : Persistent e := by
  unfold start at h
  split at h
  · cases h
  · split at h
    · cases h
    · obtain rfl := Except.ok.inj h
      exact ⟨candid, fun run hr => (by cases hr), fun _ => rfl, fun _ hl => by cases hl⟩

/-! ## Where the loop goes -/

/-- After a report the loop waits for its next tick. -/
theorem afterCycle_ok (id next : Nat) (hl : e.loop = .cycling id next) (report : Report) :
    (e.afterCycle (.ok report)).loop = .waiting next ∧
      (e.afterCycle (.ok report)).results = e.results := by
  obtain ⟨first, later, heq, -⟩ := goOnAt_eq { e with loop := .waiting next } (Clock.roundUp next) .loop
  unfold afterCycle awaitTick
  rw [hl]
  dsimp only
  rw [heq]
  exact ⟨rfl, rfl⟩

theorem settleRelease_loop (e : Engine) : e.settleRelease.loop = e.loop := by
  obtain ⟨running, channel, aborted, woken, members, heq, -⟩ := settleRelease_eq e
  rw [heq]

theorem takeTurn_loop (e : Engine) (id : Nat) : (e.takeTurn id).loop = e.loop := by
  obtain ⟨turn, queue, first, heq, -⟩ := takeTurn_eq e id
  rw [heq]

/-- Only jobs move the loop. -/
theorem act_loop (e : Engine) {deed : Deed} (other : ∀ job heeds, deed ≠ .turn job heeds) :
    (e.act deed).loop = e.loop := by
  cases deed with
  | turn job heeds => exact absurd rfl (other job heeds)
  | wait time =>
    obtain ⟨woken, heq, -⟩ := jump_eq e time
    rw [show e.act (.wait time) = _ from heq]
  | call =>
    rcases call_eq e with ⟨-, heq⟩ | ⟨-, heq⟩
    · rw [show e.act .call = _ from heq]
      exact takeTurn_loop _ _
    · rw [show e.act .call = _ from heq]
  | spawn =>
    obtain ⟨woken, heq, -⟩ := wake_eq (e.newRun false).2 (.start e.started)
    rw [show e.act .spawn = _ from heq]
    rfl
  | fail key => rfl
  | pardon key =>
    obtain ⟨members, woken, heq⟩ := pardon_eq e key
    rw [show e.act (.pardon key) = _ from heq]
  | cancel =>
    obtain ⟨channel, woken, heq⟩ := cancel_eq e
    rw [show e.act .cancel = _ from heq]
  | stop =>
    obtain ⟨aborted, woken, members, heq⟩ := stop_eq e
    rw [show e.act .stop = _ from heq]
  | release => exact settleRelease_loop _
  | serve directory => rfl

/-- A job moves the loop only if it is the loop's own, or if the loop's cycle is over. -/
theorem Taken.loop_cases {job : Job} (t : Taken e job e') :
    e'.loop = e.loop ∨ (job = .loop ∧ e' = e.resumeLoop) ∨
      ∃ run ∈ e.runs, run.ofLoop = true ∧
        ((e.aborted = true ∧ e' = e.abandon run) ∨
          (e.aborted = false ∧ ∃ e₁ result, Elsewhere e e₁ ∧ e' = e₁.finish run result ∧
            ∀ error, result = .error error → error.isCancelled = true ∧
              (e.members.closed = true ∨ e.isCancelled = true ∨
                ∃ left ends, run.stage = .attempting left ends (.error error)))) := by
  cases t with
  | timer concerns elsewhere =>
    cases elsewhere
    exact .inl rfl
  | start id =>
    refine .inl ?_
    unfold Engine.startRun
    split
    · exact takeTurn_loop e id
    · exact settleRelease_loop _
  | loop => exact .inr (.inl ⟨rfl, rfl⟩)
  | stale gone => exact .inl rfl
  | @resume run _ inFlight goes =>
    cases goes with
    | waits kept early => exact .inl rfl
    | asks kept turn listening left stage =>
      obtain ⟨ends, outcome, first, later, heq, -⟩ := attempt_eq e run.id left
      rw [heq]
      exact .inl rfl
    | @pauses kept left _ _ _ stage finished failed =>
      obtain ⟨ends, first, later, heq, -⟩ := pause_eq e run left failed
      rw [heq]
      exact .inl rfl
    | @ends kept turn e₁ elsewhere result noop cause =>
      cases own : run.ofLoop with
      | true =>
        rw [own] at kept
        exact .inr (.inr ⟨run, inFlight, own, .inr ⟨kept, e₁, result, elsewhere, rfl, cause⟩⟩)
      | false =>
        obtain ⟨turn, queue, woken, heq, -⟩ := passTurn_eq (e₁.dropRun run.id)
        refine .inl ?_
        unfold Engine.finish
        rw [own]
        refine (settleRelease_loop _).trans ?_
        rw [heq]
        cases elsewhere
        rfl
    | abandoned ofLoop aborted => exact .inr (.inr ⟨run, inFlight, ofLoop, .inl ⟨aborted, rfl⟩⟩)

/-- The loop's cycle is over when the loop goes on, and then it waits for its next tick. -/
theorem Persistent.cycle_to_wait (h : Persistent e) (ordered : Orderly config e)
    (underway : Underway e) (running : e.running = true) {id next : Nat}
    (hl : e.loop = .cycling id next) {deed : Deed} (allowed : e.Allows deed) :
    (e.act deed).loop = .cycling id next ∨
      ((e.act deed).loop = .waiting next ∧
        ∃ report, (e.act deed).results = (id, .ok report) :: e.results) := by
  rcases deed.turn_or_other with ⟨job, heeds, rfl⟩ | other
  · have taken : Taken _ job (e.act (.turn job heeds)) := underway.turns.taken ordered allowed
    have polling := (underway.take allowed).polling
    rcases taken.loop_cases with same | ⟨rfl, -⟩ | ⟨run, hrun, own, ⟨aborted, -⟩ | ⟨-, finished⟩⟩
    · exact .inl (same.trans hl)
    · -- while its cycle is in flight the loop has no other job
      have none : (Engine.goOn { e with ready := e.ready.erase .loop } .loop).loopJobs = 0 :=
        polling.alone id next hl
      simp [loopJobs, Engine.goOn] at none
    · exact absurd ((underway.polling.running running).symm.trans aborted) (by decide)
    · obtain ⟨e₁, result, elsewhere, heq, cause⟩ := finished
      obtain ⟨report, rfl⟩ := h.fair ordered.closed hrun cause running
      obtain ⟨next', hl'⟩ := underway.polling.own run hrun own
      obtain ⟨rfl, rfl⟩ := Loop.cycling.inj (hl.symm.trans hl')
      obtain ⟨turn, queue, woken, hpass, -⟩ := passTurn_eq (e₁.dropRun run.id)
      rw [heq]
      unfold Engine.finish
      rw [own, hpass]
      cases elsewhere
      refine .inr ((afterCycle_ok run.id next ?_ report).imp_right fun hr => ⟨report, hr⟩)
      exact hl
  · exact .inl ((act_loop e other).trans hl)

/-- A tick that is due is served. -/
theorem resumeLoop_of_due {due : Nat} (live : e.aborted = false) (hl : e.loop = .waiting due)
    (hdue : Clock.roundUp due ≤ e.now) :
    e.resumeLoop.loop = .cycling e.started (nextTick e.config.queryInterval due e.now) := by
  unfold resumeLoop
  rw [live, hl, if_neg (by simp)]
  dsimp only
  rw [if_pos hdue]
  exact takeTurn_loop _ _

/-- A loop that has ended does not begin again. -/
theorem act_loop_of_ended (ordered : Orderly config e) (underway : Underway e)
    (ended : e.loop = .ended) {deed : Deed} (allowed : e.Allows deed) : (e.act deed).loop = .ended := by
  rcases deed.turn_or_other with ⟨job, heeds, rfl⟩ | other
  · have taken : Taken _ job (e.act (.turn job heeds)) := underway.turns.taken ordered allowed
    rcases taken.loop_cases with same | ⟨-, heq⟩ | ⟨run, hrun, own, -⟩
    · exact same.trans ended
    · rw [heq]
      unfold resumeLoop
      split
      · rfl
      · rw [ended]
    · obtain ⟨next, hl⟩ := underway.polling.own run hrun own
      rw [ended] at hl
      cases hl
  · exact (act_loop e other).trans ended

/-! ## Discovery -/

/-- **The poll loop goes on for as long as discovery runs**, if no directory claims a stop. Whatever
the other answers and errors are and whatever else happens short of a stop, the loop has not ended: a
job or an alarm makes it go on, or its own cycle is in flight. That cycle ends with a report, and then
the loop waits for its next tick. -/
theorem poll_loop_persists {directory : Directory} {reactions : List Reaction} {e₀ : Engine}
    {deeds : List Deed} (polite : ∀ r ∈ reactions, Reaction.OnlyReports r)
    (candid : directory.Candid) (h₀ : start config directory reactions = .ok e₀)
    (l : Leads e₀ deeds e) (plain : ∀ deed ∈ deeds, deed.Plain) (running : e.running = true) :
    e.loop ≠ .ended ∧ e.Polls ∧
    (∀ due heeds, e.loop = .waiting due → Clock.roundUp due ≤ e.now →
      (e.act (.turn .loop heeds)).loop =
        .cycling e.started (nextTick config.queryInterval due e.now)) ∧
    ∀ id next, e.loop = .cycling id next → ∀ deed, e.Allows deed →
      (e.act deed).loop = .cycling id next ∨
        ((e.act deed).loop = .waiting next ∧
          ∃ report, (e.act deed).results = (id, .ok report) :: e.results) := by
  have ordered₀ := (start_orderly polite h₀).2
  have underway₀ := start_underway h₀
  have ordered := (ordered₀.leads l).2
  have underway := underway₀.leads ordered₀ l
  have persistent := (start_persistent candid h₀).leads ordered₀ underway₀ l plain
  refine ⟨persistent.loop running, underway.polling.polls, ?_,
    fun id next hl deed allowed => persistent.cycle_to_wait ordered underway running hl allowed⟩
  intro due heeds hl hdue
  have served := resumeLoop_of_due (e := { e with ready := e.ready.erase .loop })
    (underway.polling.running running) hl hdue
  rw [← ordered.settings]
  exact served

/-- After a query that failed for good the loop waits for the next tick. -/
theorem poll_loop_after_failure : ∃ e,
    session .standard (.scripted ⟨[⟨.error (.config "no such namespace"), .zero⟩], none⟩) []
      [.turn .loop, .turn (.resume 0), .turn (.resume 0)] = some e ∧
    e.running = true ∧ e.loop = .waiting 30000000000 ∧ e.Polls := by
  obtain ⟨e, he, hp⟩ := (Option.any_eq_true _ _).1 (show
    (session .standard (.scripted ⟨[⟨.error (.config "no such namespace"), .zero⟩], none⟩) []
      [.turn .loop, .turn (.resume 0), .turn (.resume 0)]).any (fun e => e.running &&
        decide (e.loop = .waiting 30000000000)) = true by decide +kernel)
  obtain ⟨running, hl⟩ := Bool.and_eq_true_iff.1 hp
  obtain ⟨e₀, h₀, l⟩ := leads_of_session he
  have candid : Directory.Candid (.scripted ⟨[⟨.error (.config "no such namespace"), .zero⟩], none⟩) := by
    rintro answer (ha | ha) error herror
    · rw [List.mem_singleton.1 ha] at herror
      obtain rfl := Except.error.inj herror
      rfl
    · cases ha
  obtain ⟨-, polls, -⟩ :=
    poll_loop_persists (by simp) candid h₀ l (by simp [Deed.Plain]) running
  exact ⟨e, he, running, of_decide_eq_true hl, polls⟩

/-- Once the poll loop has ended it never polls again. -/
theorem poll_loop_stays_ended (ordered : Orderly config e) (underway : Underway e)
    (ended : e.loop = .ended) {deeds : List Deed} (l : Leads e deeds e') : e'.loop = .ended := by
  induction l with
  | start => exact ended
  | next before deed allowed ih =>
    exact act_loop_of_ended (ordered.leads before).2 (underway.leads ordered before) ih allowed

/-- A directory that answers with the error of a shut-down discovery ends the poll loop of a running
one: nothing is left that could go on, and whatever happens from then on, the loop never polls
again. -/
theorem poll_loop_ended_by_answer : ∃ e,
    session .standard (.scripted ⟨[⟨.error .shutdown, .zero⟩], some ⟨.ok [.plain "a" 0], .zero⟩⟩) []
      [.turn .loop, .turn (.resume 0), .turn (.resume 0)] = some e ∧
    e.running = true ∧ e.loop = .ended ∧ e.ready = [] ∧ e.alarms = [] ∧
    ∀ deeds e', Leads e deeds e' → e'.loop = .ended := by
  obtain ⟨e, he, hp⟩ := (Option.any_eq_true _ _).1 (show
    (session .standard (.scripted ⟨[⟨.error .shutdown, .zero⟩], some ⟨.ok [.plain "a" 0], .zero⟩⟩) []
      [.turn .loop, .turn (.resume 0), .turn (.resume 0)]).any (fun e => e.running &&
        decide (e.loop = .ended) && e.ready.isEmpty && e.alarms.isEmpty) = true by decide +kernel)
  simp only [Bool.and_eq_true, decide_eq_true_eq, List.isEmpty_iff] at hp
  obtain ⟨⟨⟨running, ended⟩, ready⟩, alarms⟩ := hp
  have reachable : Reachable .standard e := reachable_of_session (by simp) he
  exact ⟨e, he, running, ended, ready, alarms, fun deeds e' l =>
    poll_loop_stays_ended reachable.orderly reachable.underway ended l⟩

end Engine

end Roster
