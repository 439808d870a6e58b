import Roster.Proofs.Session

/-!
# Proofs.Jobs — what becomes of jobs and alarms

* `Awaits`: a job goes on once a given time has come.
* `goOnAt_eq`: how a job that has to wait joins the others.
* `attempt_eq`, `pause_eq`, `takeTurn_eq`, `passTurn_eq`, `abandon_eq`, `closeChannel_eq`,
  `abortLoop_eq`, `silence_eq`, `settleRelease_eq`: functions of the engine that bring jobs about.
  Those that can go on already stay as they are.
* `stop_eq`, `cancel_eq`, `pardon_eq`, `call_eq`: so it is with what somebody asks for.
-/

namespace Roster

open Members Relation

/-- The job with which the poll loop goes on. -/
def Loop.job? : Loop → Option Job
  | .ended => none
  | .cycling id _ => some (.resume id)
  | _ => some .loop

/-- The poll loop goes on by itself, or with its own cycle. -/
theorem Loop.eq_of_job? {loop : Loop} {job : Job} (h : loop.job? = some job) :
    job = .loop ∨ ∃ id next, loop = .cycling id next ∧ job = .resume id := by
  cases loop with
  | ended => cases h
  | cycling id next => exact .inr ⟨id, next, rfl, (Option.some.inj h).symm⟩
  | _ => exact .inl (Option.some.inj h).symm

theorem Loop.job?_ne_start (loop : Loop) (id : Nat) : loop.job? ≠ some (.start id) := by
  intro h
  rcases eq_of_job? h with hj | ⟨_, _, _, hj⟩ <;> cases hj

namespace Engine

variable {e e' : Engine}

/-- The job goes on once `time` has come: it is among those that can go on, or an alarm is set. -/
def Awaits (e : Engine) (time : Nat) (job : Job) : Prop :=
  (time ≤ e.now ∧ job ∈ e.ready) ∨ ⟨time, job⟩ ∈ e.alarms

theorem Awaits.mono {time : Nat} {job : Job} (h : e.Awaits time job) (now : e'.now = e.now)
    (jobs : job ∈ e.ready → job ∈ e'.ready) (alarms : ∀ a ∈ e.alarms, a ∈ e'.alarms) :
    e'.Awaits time job := by
  rcases h with ⟨due, hjob⟩ | ha
  · exact .inl ⟨now ▸ due, jobs hjob⟩
  · exact .inr (alarms _ ha)

/-! ## Jobs that join the others -/

/-- A job that has to wait, waits. -/
theorem awaits_goOnAt (e : Engine) (due : Nat) (job : Job) : (e.goOnAt due job).Awaits due job := by
  unfold goOnAt
  split
  · next hdue => exact .inl ⟨hdue, List.mem_cons_self⟩
  · exact .inr (List.mem_append_right _ List.mem_cons_self)

/-- A job that has to wait goes on at once or by an alarm. -/
theorem goOnAt_eq (e : Engine) (due : Nat) (job : Job) : ∃ first later,
    e.goOnAt due job = { e with ready := first ++ e.ready, alarms := e.alarms ++ later } ∧
      ((first = [job] ∧ later = []) ∨ (first = [] ∧ later = [⟨due, job⟩])) := by
  unfold goOnAt
  split
  · exact ⟨[job], [], by simp [goOn], .inl ⟨rfl, rfl⟩⟩
  · exact ⟨[], [⟨due, job⟩], by simp, .inr ⟨rfl, rfl⟩⟩

theorem wake_of_mem {job : Job} (h : job ∈ e.ready) : e.wake job = e :=
  if_pos (List.contains_iff_mem.2 h)

theorem foldl_wake_of_mem {α : Type} {job : α → Job} {l : List α} (h : ∀ a ∈ l, job a ∈ e.ready) :
    l.foldl (fun e a => e.wake (job a)) e = e := by
  induction l with
  | nil => rfl
  | cons a rest ih =>
    rw [List.foldl_cons, wake_of_mem (h a List.mem_cons_self)]
    exact ih fun b hb => h b (List.mem_cons_of_mem _ hb)

/-- A job that is not among the woken ones is there as often as before. -/
theorem count_woken {woken l : List Job} (h : woken.Sublist l) {job : Job} (other : job ∉ l)
    (ready : List Job) : (ready ++ woken).count job = ready.count job := by
  rw [List.count_append, List.count_eq_zero.2 fun hm => other (h.subset hm), Nat.add_zero]

/-! ## Functions that wake jobs -/

/-- A cycle that asks the directory goes on when the outcome is there. -/
theorem attempt_eq (e : Engine) (id left : Nat) : ∃ ends outcome first later,
    e.attempt id left = { e with
      directory := (e.directory.ask e.config.selector).2
      calls := ⟨e.now, id⟩ :: e.calls
      runs := (e.setStage id (.attempting left ends outcome)).runs
      ready := first ++ e.ready
      alarms := e.alarms ++ later } ∧
    ((first = [.resume id] ∧ later = []) ∨ (first = [] ∧ later = [⟨ends, .resume id⟩])) := by
  unfold attempt
  dsimp only
  generalize e.retry.outcome operation e.now _ = course
  obtain ⟨first, later, heq, new⟩ := goOnAt_eq (setStage { e with
    directory := (e.directory.ask e.config.selector).2, calls := ⟨e.now, id⟩ :: e.calls } id
      (.attempting left course.1 course.2)) course.1 (.resume id)
  exact ⟨course.1, course.2, first, later, heq, new⟩

/-- A cycle that pauses goes on when the pause is over, and at once if it is asked to stop. -/
theorem pause_eq (e : Engine) (run : Run) (left : Nat)
    {outcome : Except DiscoveryError (List Record)} {last : DiscoveryError}
    (failed : Retry.repeatable? outcome = some last) : ∃ ends first later,
    e.afterAttempt run left outcome = { e with
      runs := (e.setStage run.id (.pausing (left - 1) ends last)).runs
      ready := first ++ e.ready
      alarms := e.alarms ++ later } ∧
    ((first = [.resume run.id] ∧ later = []) ∨
      (e.isCancelled = false ∧ first = [] ∧ later = [⟨ends, .resume run.id⟩])) := by
  unfold afterAttempt
  rw [failed]
  dsimp only
  generalize Clock.after e.now e.retry.delay = ends
  split
  · exact ⟨ends, [.resume run.id], [], by simp [goOn, setStage], .inl ⟨rfl, rfl⟩⟩
  · next hc =>
    obtain ⟨first, later, heq, new⟩ :=
      goOnAt_eq (e.setStage run.id (.pausing (left - 1) ends last)) ends (.resume run.id)
    exact ⟨ends, first, later, heq, new.imp_right fun hn => ⟨Bool.eq_false_iff.2 hc, hn⟩⟩

/-- A cycle that takes its turn goes on at once. -/
theorem takeTurn_eq (e : Engine) (id : Nat) : ∃ turn queue first,
    e.takeTurn id = { e with turn, queue, ready := first ++ e.ready } ∧
      first.Sublist [.resume id] := by
  unfold takeTurn
  split
  · exact ⟨_, _, [.resume id], rfl, List.Sublist.refl _⟩
  · exact ⟨e.turn, _, [], rfl, List.nil_sublist _⟩

/-- When the turn passes, one cycle goes on at most. -/
theorem passTurn_eq (e : Engine) : ∃ turn queue woken,
    e.passTurn = { e with turn, queue, ready := e.ready ++ woken } ∧ woken.length ≤ 1 ∧
      ∀ job ∈ woken, ∃ id, job = .resume id := by
  unfold passTurn
  split
  · exact ⟨none, e.queue, [], by simp, Nat.zero_le _, by simp⟩
  · next next rest _ =>
    obtain ⟨woken, heq, sub, -⟩ := wake_eq { e with turn := some next, queue := rest } (.resume next)
    exact ⟨_, _, woken, heq, sub.length_le, fun job hj => ⟨next, List.mem_singleton.1 (sub.subset hj)⟩⟩

/-- When the poll loop's cycle is given up, another one goes on at most. -/
theorem abandon_eq (e : Engine) (run : Run) : ∃ turn queue woken,
    e.abandon run = { e.dropRun run.id with
      loop := .ended, turn, queue, ready := e.ready ++ woken } ∧ woken.length ≤ 1 ∧
      ∀ job ∈ woken, ∃ id, job = .resume id := by
  unfold abandon
  dsimp only
  split
  · obtain ⟨turn, queue, woken, heq, length, resumes⟩ := passTurn_eq { e.dropRun run.id with
      loop := .ended, queue := e.queue.filter (· != run.id) }
    exact ⟨turn, queue, woken, heq, length, resumes⟩
  · exact ⟨e.turn, e.queue.filter (· != run.id), [], by simp [dropRun], Nat.zero_le _, by simp⟩

/-- The cycles that pause are woken when the channel is closed. -/
theorem closeChannel_eq (e : Engine) : ∃ woken,
    e.closeChannel = { e with channel := .closed, ready := e.ready ++ woken } ∧
      (∀ job ∈ woken, ∃ id, job = .resume id) ∧
      ∀ run ∈ e.runs, ∀ left ends last, run.stage = .pausing left ends last →
        .resume run.id ∈ e.ready ++ woken := by
  obtain ⟨pausing, closes, paused⟩ : ∃ pausing : List Run,
      e.closeChannel = pausing.foldl (fun e r => e.wake (.resume r.id)) { e with channel := .closed } ∧
        ∀ run ∈ e.runs, ∀ left ends last, run.stage = .pausing left ends last → run ∈ pausing :=
    ⟨_, rfl, fun run hr left ends last hs => List.mem_filter.2 ⟨hr, by rw [hs]⟩⟩
  obtain ⟨woken, heq, sub, all⟩ := foldl_wake_eq (fun r : Run => .resume r.id) pausing
    { e with channel := .closed }
  refine ⟨woken, closes.trans heq, ?_, ?_⟩
  · intro job hj
    obtain ⟨r, -, rfl⟩ := List.mem_map.1 (sub.subset hj)
    exact ⟨r.id, rfl⟩
  · intro run hr left ends last hs
    exact all run (paused run hr left ends last hs)

/-- The poll loop is woken when it is told to end. -/
theorem abortLoop_cases (e : Engine) : (e.loop = .ended ∧ e.abortLoop = e) ∨
    ∃ job, e.loop.job? = some job ∧ e.abortLoop = Engine.wake { e with aborted := true } job := by
  unfold abortLoop
  cases hl : e.loop with
  | ended => exact .inl ⟨rfl, rfl⟩
  | cycling id next => exact .inr ⟨.resume id, rfl, rfl⟩
  | _ => exact .inr ⟨.loop, rfl, rfl⟩

/-- The poll loop goes on when it is told to end. -/
theorem abortLoop_eq (e : Engine) : ∃ aborted woken,
    e.abortLoop = { e with aborted, ready := e.ready ++ woken } ∧
      (aborted = true ∨ (e.loop = .ended ∧ aborted = e.aborted)) ∧
      (∀ job ∈ woken, e.loop.job? = some job) ∧
      ∀ job, e.loop.job? = some job → job ∈ e.ready ++ woken := by
  rcases abortLoop_cases e with ⟨hl, heq⟩ | ⟨job, hjob, heq⟩
  · refine ⟨e.aborted, [], heq.trans (by simp), .inr ⟨hl, rfl⟩, by simp, ?_⟩
    intro job hjob
    rw [hl] at hjob
    cases hjob
  · obtain ⟨woken, hwake, sub, mem⟩ := wake_eq { e with aborted := true } job
    refine ⟨true, woken, heq.trans hwake, .inl rfl, fun other ho => ?_, fun other ho => ?_⟩
    · rw [List.mem_singleton.1 (sub.subset ho)]
      exact hjob
    · rwa [← Option.some.inj (hjob.symm.trans ho)]

/-- What the end of discovery leaves alone. -/
theorem silence_eq (e : Engine) : ∃ aborted woken,
    e.silence = { e with
      running := false, channel := .closed, aborted, ready := e.ready ++ woken
      members := e.members.close } := by
  obtain ⟨first, hclose, -⟩ := closeChannel_eq { e with running := false }
  obtain ⟨aborted, second, habort, -⟩ := abortLoop_eq (closeChannel { e with running := false })
  refine ⟨aborted, first ++ second, ?_⟩
  unfold silence
  dsimp only
  rw [habort, hclose, ← List.append_assoc]

/-- What the end leaves alone where it was asked for. -/
theorem settleRelease_eq (e : Engine) : ∃ running channel aborted woken members,
    e.settleRelease = { e with running, channel, aborted, members, ready := e.ready ++ woken } ∧
      (running = true → e.running = true) := by
  unfold settleRelease
  split
  · obtain ⟨aborted, woken, heq⟩ := silence_eq e
    exact ⟨false, .closed, aborted, woken, _, heq, fun hr => by cases hr⟩
  · exact ⟨e.running, e.channel, e.aborted, [], e.members, by simp, id⟩

/-! ## What somebody asks for -/

theorem stop_eq (e : Engine) : ∃ aborted woken members,
    e.stop = { e with
      running := false, channel := .closed, aborted, members, ready := e.ready ++ woken } := by
  obtain ⟨aborted, woken, heq⟩ := silence_eq e
  unfold stop
  dsimp only
  rw [heq]
  split <;> exact ⟨aborted, woken, _, rfl⟩

theorem cancel_eq (e : Engine) : ∃ channel woken,
    e.cancel.2 = { e with channel, ready := e.ready ++ woken } := by
  unfold cancel
  split
  · obtain ⟨woken, heq, -⟩ := closeChannel_eq e
    exact ⟨.closed, woken, heq⟩
  · exact ⟨e.channel, [], by simp⟩

theorem pardon_eq (e : Engine) (key : PeerKey) : ∃ members woken,
    (e.pardon key).2 = { e with members, ready := e.ready ++ woken } := by
  unfold pardon
  dsimp only
  split <;> exact ⟨_, _, rfl⟩

/-- A call begins a cycle, or is turned away. -/
theorem call_eq (e : Engine) : (e.running = true ∧ e.call.2 = (e.newRun false).2.takeTurn e.started) ∨
    (e.running = false ∧ e.call.2 = e) := by
  unfold call
  split
  · next running => exact .inl ⟨running, rfl⟩
  · next stopped => exact .inr ⟨Bool.eq_false_iff.2 stopped, rfl⟩

/-! ## Time -/

/-- What waits for a time still does when the clock has moved on. -/
theorem Awaits.jump {time until' : Nat} {job : Job} (h : e.Awaits time job) (later : e.now ≤ until') :
    (e.jump until').Awaits time job := by
  obtain ⟨woken, heq, -, all⟩ := jump_eq e until'
  rw [heq]
  rcases h with ⟨due, hjob⟩ | ha
  · exact .inl ⟨Nat.le_trans due later, List.mem_append_left _ hjob⟩
  · by_cases due : time ≤ until'
    · exact .inl ⟨due, all _ ha due⟩
    · exact .inr (List.mem_filter.2 ⟨ha, by simpa using due⟩)

end Engine

end Roster
