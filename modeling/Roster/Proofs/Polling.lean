import Roster.Proofs.Turns

/-!
# Proofs.Polling — where the poll loop stands

* `Polls`: the poll loop goes on at some time. It waits for a tick, or for its own cycle.
* `Polling`: the same, by one job, and once it was told to end it does so when it is next due.
* One lemma for each thing that can happen to the loop; `Polling.goes`: whatever a cycle does.
* `Underway`: cycles take turns and the poll loop polls. `Underway.act`, `Reachable.underway`: always.
-/

namespace Roster

namespace Engine

variable {config : Config} {e e' : Engine} {run : Run}

/-- The poll loop goes on at some time, unless it has ended. -/
def Polls (e : Engine) : Prop :=
  match e.loop with
  | .ended => True
  | .starting => .loop ∈ e.ready
  | .delaying ends => e.Awaits ends .loop
  | .waiting due => e.Awaits (Clock.roundUp due) .loop
  | .cycling id _ => ∃ run ∈ e.runs, run.id = id ∧ run.ofLoop = true

/-- The poll loop waits for a cycle of its own. -/
theorem Polls.own_cycle (h : e.Polls) {id : Nat} (hj : e.loop.job? = some (.resume id)) :
    ∃ run ∈ e.runs, run.id = id ∧ run.ofLoop = true := by
  rcases Loop.eq_of_job? hj with hj | ⟨id', next, hl, hj⟩
  · cases hj
  · obtain rfl := Job.resume.inj hj
    unfold Polls at h
    rwa [hl] at h

/-- The number of jobs and alarms with which the poll loop goes on from a wait. -/
def loopJobs (e : Engine) : Nat := e.ready.count .loop + (e.alarms.map (·.job)).count .loop

/-- The poll loop goes on at some time, and ends if it was told to. -/
structure Polling (e : Engine) : Prop where
  own : ∀ run ∈ e.runs, run.ofLoop = true → ∃ next, e.loop = .cycling run.id next
  begun : ∀ run ∈ e.runs, run.ofLoop = true → .start run.id ∉ e.ready
  polls : e.Polls
  single : e.aborted = false → e.loopJobs ≤ 1
  alone : ∀ id next, e.loop = .cycling id next → e.loopJobs = 0
  /-- Once told to end, the loop goes on at once. -/
  told : e.aborted = true → ∀ job, e.loop.job? = some job → job ∈ e.ready
  running : e.running = true → e.aborted = false
  stopped : e.running = false → e.isCancelled = true ∧ (e.loop = .ended ∨ e.aborted = true)

/-- No job and no cycle of the poll loop is left, and it may go on. -/
structure Free (e : Engine) : Prop where
  own : ∀ run ∈ e.runs, run.ofLoop = false
  jobs : e.loopJobs = 0
  aborted : e.aborted = false
  running : e.running = true

/-- The cycles of the poll loop stay in flight. -/
structure SameOwn (e e' : Engine) : Prop where
  back : ∀ run ∈ e'.runs, run.ofLoop = true → ∃ old ∈ e.runs, old.ofLoop = true ∧ old.id = run.id
  keep : ∀ run ∈ e.runs, run.ofLoop = true → ∃ new ∈ e'.runs, new.ofLoop = true ∧ new.id = run.id

theorem SameOwn.of_eq (h : e'.runs = e.runs) : SameOwn e e' :=
  ⟨fun run hr ho => ⟨run, h ▸ hr, ho, rfl⟩, fun run hr ho => ⟨run, h ▸ hr, ho, rfl⟩⟩

theorem SameOwn.setStage (id : Nat) (stage : Stage) (h : e'.runs = (e.setStage id stage).runs) :
    SameOwn e e' := by
  have same : ∀ r : Run, (if r.id = id then { r with stage } else r).ofLoop = r.ofLoop ∧
      (if r.id = id then { r with stage } else r).id = r.id := fun r => by split <;> exact ⟨rfl, rfl⟩
  refine ⟨?_, ?_⟩ <;> rw [h]
  · intro run hr ho
    obtain ⟨old, hold, rfl⟩ := List.mem_map.1 hr
    exact ⟨old, hold, (same old).1.symm.trans ho, (same old).2.symm⟩
  · intro run hr ho
    exact ⟨_, List.mem_map.2 ⟨run, hr, rfl⟩, (same run).1.trans ho, (same run).2⟩

/-- A cycle that is not the poll loop's goes. -/
theorem SameOwn.dropRun {id : Nat} (other : ∀ run ∈ e.runs, run.id = id → run.ofLoop = false)
    (h : e'.runs = (e.dropRun id).runs) : SameOwn e e' := by
  refine ⟨?_, ?_⟩ <;> rw [h]
  · intro run hr ho
    exact ⟨run, (List.mem_filter.1 hr).1, ho, rfl⟩
  · intro run hr ho
    refine ⟨run, List.mem_filter.2 ⟨hr, ?_⟩, ho, rfl⟩
    have hne : run.id ≠ id := fun hid => by
      rw [other run hr hid] at ho
      cases ho
    simpa using hne

namespace Polling

/-- The poll loop stands where it stood. -/
theorem congr (h : Polling e) (runs : SameOwn e e') (loop : e'.loop = e.loop)
    (aborted : e'.aborted = e.aborted) (running : e'.running = e.running)
    (cancelled : e.isCancelled = true → e'.isCancelled = true)
    (starts : ∀ run ∈ e.runs, run.ofLoop = true → .start run.id ∈ e'.ready → .start run.id ∈ e.ready)
    (fewer : e'.loopJobs ≤ e.loopJobs)
    (jobs : e.aborted = true → ∀ job, e.loop.job? = some job → job ∈ e.ready → job ∈ e'.ready)
    (first : .loop ∈ e.ready → .loop ∈ e'.ready)
    (awaits : ∀ time, e.Awaits time .loop → e'.Awaits time .loop) : Polling e' := by
  refine ⟨?_, ?_, ?_, ?_, ?_, ?_, ?_, ?_⟩
  · intro run hr ho
    obtain ⟨old, hold, ho', hid⟩ := runs.back run hr ho
    rw [loop, ← hid]
    exact h.own old hold ho'
  · intro run hr ho hs
    obtain ⟨old, hold, ho', hid⟩ := runs.back run hr ho
    rw [← hid] at hs
    exact h.begun old hold ho' (starts old hold ho' hs)
  · have polls := h.polls
    unfold Polls at polls ⊢
    rw [loop]
    split
    · trivial
    · next hl =>
      rw [hl] at polls
      exact first polls
    · next hl =>
      rw [hl] at polls
      exact awaits _ polls
    · next hl =>
      rw [hl] at polls
      exact awaits _ polls
    · next hl =>
      rw [hl] at polls
      obtain ⟨run, hr, rfl, ho⟩ := polls
      obtain ⟨new, hnew, ho', hid⟩ := runs.keep run hr ho
      exact ⟨new, hnew, hid, ho'⟩
  · rw [aborted]
    exact fun ha => Nat.le_trans fewer (h.single ha)
  · rw [loop]
    exact fun id next hl => Nat.le_zero.1 (Nat.le_trans fewer (Nat.le_of_eq (h.alone id next hl)))
  · intro ha job hj
    rw [aborted] at ha
    rw [loop] at hj
    exact jobs ha job hj (h.told ha job hj)
  · rw [running, aborted]
    exact h.running
  · rw [running, loop, aborted]
    exact fun hs => (h.stopped hs).imp_left cancelled

/-- Something has changed that the poll loop does not depend on, and other jobs go on besides. -/
theorem others (h : Polling e) (runs : SameOwn e e') (loop : e'.loop = e.loop)
    (aborted : e'.aborted = e.aborted) (running : e'.running = e.running) (now : e'.now = e.now)
    (cancelled : e.isCancelled = true → e'.isCancelled = true) (before after : List Job)
    (later : List Alarm) (ready : e'.ready = before ++ e.ready ++ after)
    (alarms : e'.alarms = e.alarms ++ later)
    (starts : ∀ run ∈ e.runs, run.ofLoop = true → .start run.id ∉ before ++ after)
    (nobody : .loop ∉ before ++ after) (never : ∀ a ∈ later, a.job ≠ .loop) : Polling e' := by
  have keep : ∀ job ∈ e.ready, job ∈ e'.ready := fun job hj => by
    rw [ready]
    exact List.mem_append_left _ (List.mem_append_right _ hj)
  rw [List.mem_append, not_or] at nobody
  have silent : (later.map (·.job)).count .loop = 0 := List.count_eq_zero.2 fun hm => by
    obtain ⟨a, ha, hj⟩ := List.mem_map.1 hm
    exact never a ha hj
  refine h.congr runs loop aborted running cancelled ?_ ?_ (fun _ job _ => keep job) (keep _) ?_
  · intro run hr ho hs
    rw [ready] at hs
    have hne := starts run hr ho
    simp only [List.mem_append, not_or] at hs hne
    exact (hs.resolve_right hne.2).resolve_left hne.1
  · simp only [loopJobs, ready, alarms, List.count_append, List.map_append, silent,
      List.count_eq_zero.2 nobody.1, List.count_eq_zero.2 nobody.2]
    omega
  · intro time hw
    refine hw.mono now (keep _) fun a ha => ?_
    rw [alarms]
    exact List.mem_append_left _ ha

/-- A change that no cycle notices. -/
theorem elsewhere (h : Polling e) (x : Elsewhere e e') : Polling e' := by
  cases x with
  | mk members fresh later now closed jobs alarms finished =>
  refine h.others (.of_eq rfl) rfl rfl rfl now (fun hc => hc) [] fresh later rfl rfl ?_ ?_ ?_
  · intro run _ _ hs
    cases jobs _ hs
  · intro hm
    cases jobs _ hm
  · intro a ha hj
    have hjob := alarms a ha
    rw [hj] at hjob
    cases hjob

/-- The poll loop is where it was once another job is over. -/
theorem pop {job : Job} (h : Polling (e.goOn job)) (other : job ≠ .loop)
    (unneeded : e.aborted = true → e.loop.job? ≠ some job) : Polling e := by
  have first : .loop ∈ (e.goOn job).ready → .loop ∈ e.ready := fun hm =>
    (List.mem_cons.1 hm).resolve_left other.symm
  refine h.congr (.of_eq rfl) rfl rfl rfl (fun hc => hc) (fun _ _ _ => List.mem_cons_of_mem _) ?_ ?_
    first fun time hw => hw.mono rfl first fun _ ha => ha
  · exact Nat.add_le_add_right List.count_le_count_cons _
  · intro ha job' hj hm
    refine (List.mem_cons.1 hm).resolve_left ?_
    rintro rfl
    exact unneeded ha hj

/-- The poll loop is where it was once a cycle goes on that is not given up. -/
theorem pop_resume (h : Polling (e.goOn (.resume run.id))) (turns : InTurn (e.goOn (.resume run.id)))
    (hrun : run ∈ e.runs) (kept : (run.ofLoop && e.aborted) = false) : Polling e := by
  refine h.pop (by simp) ?_
  intro ha hj
  obtain ⟨r, hr, hid, ho⟩ := h.polls.own_cycle hj
  rw [← turns.unique hr hrun hid, ho, ha] at kept
  cases kept

/-! ## Cycles -/

/-- Somebody's cycle comes into being. -/
theorem newRun (h : Polling e) : Polling (e.newRun false).2 := by
  refine h.others ⟨?_, ?_⟩ rfl rfl rfl rfl (fun hc => hc) [] [] [] (by simp [Engine.newRun])
    (by simp [Engine.newRun]) (by simp) (by simp) (by simp)
  · intro run hr ho
    rcases List.mem_append.1 hr with hr | hr
    · exact ⟨run, hr, ho, rfl⟩
    · rw [List.mem_singleton.1 hr] at ho
      cases ho
  · intro run hr ho
    exact ⟨run, List.mem_append_left _ hr, ho, rfl⟩

theorem takeTurn (h : Polling e) (id : Nat) : Polling (e.takeTurn id) := by
  unfold Engine.takeTurn
  split
  · exact h.others (.of_eq rfl) rfl rfl rfl rfl (fun hc => hc) [.resume id] [] []
      (by simp [Engine.goOn]) (by simp [Engine.goOn]) (by simp) (by simp) (by simp)
  · exact h.others (.of_eq rfl) rfl rfl rfl rfl (fun hc => hc) [] [] [] (by simp) (by simp) (by simp)
      (by simp) (by simp)

theorem spawn (h : Polling e) (turns : InTurn e) : Polling e.spawn.2 := by
  obtain ⟨woken, heq, sub, -⟩ := wake_eq (e.newRun false).2 (.start e.started)
  show Polling ((e.newRun false).2.wake (.start e.started))
  have mem : ∀ job ∈ woken, job = .start e.started := fun job hj =>
    List.mem_singleton.1 (sub.subset hj)
  rw [heq]
  refine h.newRun.others (.of_eq rfl) rfl rfl rfl rfl (fun hc => hc) [] woken [] rfl (by simp) ?_ ?_
    (by simp)
  · intro run hr ho hm
    have hid := Job.start.inj (mem _ hm)
    rcases List.mem_append.1 hr with hr | hr
    · exact absurd hid (Nat.ne_of_lt (turns.known run hr))
    · rw [List.mem_singleton.1 hr] at ho
      cases ho
  · intro hm
    cases mem _ hm

/-- A cycle goes on to another stage, and is woken at once or by an alarm. -/
theorem setStage (h : Polling e) (directory : Directory) (calls : List DirectoryCall) (id : Nat)
    (stage : Stage) {ends : Nat} {first : List Job} {later : List Alarm}
    (new : (first = [.resume id] ∧ later = []) ∨ (first = [] ∧ later = [⟨ends, .resume id⟩])) :
    Polling { e with
      directory, calls
      runs := (e.setStage id stage).runs
      ready := first ++ e.ready
      alarms := e.alarms ++ later } := by
  refine h.others (.setStage id stage rfl) rfl rfl rfl rfl (fun hc => hc) first [] later
    (List.append_nil _).symm rfl ?_ ?_ ?_
  all_goals rcases new with ⟨rfl, rfl⟩ | ⟨rfl, rfl⟩ <;> simp

theorem attempt (h : Polling e) (id left : Nat) : Polling (e.attempt id left) := by
  obtain ⟨ends, outcome, first, later, heq, new⟩ := attempt_eq e id left
  rw [heq]
  exact h.setStage _ _ _ _ new

/-- A cycle pauses after a failure. -/
theorem pause (h : Polling e) (run : Run) (left : Nat)
    {outcome : Except DiscoveryError (List Record)} {last : DiscoveryError}
    (failed : Retry.repeatable? outcome = some last) : Polling (e.afterAttempt run left outcome) := by
  obtain ⟨ends, first, later, heq, new⟩ := pause_eq e run left failed
  rw [heq]
  exact h.setStage _ _ _ _ (new.imp_right And.right)

/-! ## The end -/

theorem closeChannel (h : Polling e) : Polling e.closeChannel := by
  obtain ⟨woken, heq, only, -⟩ := closeChannel_eq e
  rw [heq]
  refine h.others (.of_eq rfl) rfl rfl rfl rfl (fun _ => rfl) [] woken [] rfl (by simp) ?_ ?_ (by simp)
  · intro run _ _ hm
    obtain ⟨_, hj⟩ := only _ hm
    cases hj
  · intro hm
    obtain ⟨_, hj⟩ := only _ hm
    cases hj

/-- Discovery is over: the poll loop ends when it is next due. -/
theorem silence (h : Polling e) : Polling e.silence := by
  obtain ⟨woken, hclose, only, -⟩ := closeChannel_eq { e with running := false }
  obtain ⟨aborted, told, habort, ended, own, all⟩ := abortLoop_eq
    (Engine.closeChannel { e with running := false })
  have never : .loop ∉ woken := fun hm => by
    obtain ⟨_, hj⟩ := only _ hm
    cases hj
  unfold Engine.silence
  dsimp only
  rw [habort]
  rw [hclose] at ended own all ⊢
  have keep : ∀ job ∈ e.ready, job ∈ e.ready ++ woken ++ told := fun job hj =>
    List.mem_append_left _ (List.mem_append_left _ hj)
  have first : ∀ time, e.Awaits time .loop → Awaits { e with ready := e.ready ++ woken ++ told } time
      .loop := fun time hw => hw.mono rfl (keep _) fun _ ha => ha
  refine ⟨h.own, ?_, ?_, ?_, ?_, fun _ => all, fun hr => (by cases hr), fun _ => ⟨rfl, ?_⟩⟩
  · intro run hr ho hm
    rcases List.mem_append.1 hm with hm | hm
    · refine h.begun run hr ho ((List.mem_append.1 hm).resolve_right fun hm => ?_)
      obtain ⟨_, hj⟩ := only _ hm
      cases hj
    · exact e.loop.job?_ne_start run.id (own _ hm)
  · have polls := h.polls
    unfold Polls at polls ⊢
    dsimp only
    split <;> rename_i hl <;> rw [hl] at polls
    · trivial
    · exact keep _ polls
    · exact first _ polls
    · exact first _ polls
    · exact polls
  · intro ha
    rcases ended with hd | ⟨hl, hd⟩
    · rw [hd] at ha
      cases ha
    · have nobody : told = [] := List.eq_nil_iff_forall_not_mem.2 fun job hm => by
        have hj := own job hm
        rw [hl] at hj
        cases hj
      have single := h.single (hd.symm.trans ha)
      rw [nobody]
      simpa [loopJobs, List.count_eq_zero.2 never] using single
  · intro id next hl
    have nobody : .loop ∉ told := fun hm => by
      have hj := own _ hm
      rw [hl] at hj
      cases hj
    have alone := h.alone id next hl
    simpa [loopJobs, List.count_eq_zero.2 never, List.count_eq_zero.2 nobody] using alone
  · exact ended.elim .inr fun hl => .inl hl.1

theorem settleRelease (h : Polling e) : Polling e.settleRelease := by
  unfold Engine.settleRelease
  split
  · exact h.silence
  · exact h

/-! ## The poll loop -/

/-- The poll loop waits for a time. -/
theorem wait (f : Free e) {loop : Loop} {ends : Nat}
    (hl : loop = .delaying ends ∨ ∃ due, loop = .waiting due ∧ ends = Clock.roundUp due) :
    Polling ({ e with loop }.goOnAt ends .loop) := by
  have waits := awaits_goOnAt { e with loop } ends .loop
  obtain ⟨first, later, heq, new⟩ := goOnAt_eq { e with loop } ends .loop
  rw [heq] at waits ⊢
  have none := f.jobs
  unfold loopJobs at none
  refine ⟨?_, ?_, ?_, ?_, ?_, fun ha => absurd (f.aborted.symm.trans ha) (by decide), fun _ =>
    f.aborted, fun hs => absurd (f.running.symm.trans hs) (by decide)⟩
  · intro run hr ho
    rw [f.own run hr] at ho
    cases ho
  · intro run hr ho
    rw [f.own run hr] at ho
    cases ho
  · rcases hl with rfl | ⟨due, rfl, rfl⟩
    · exact waits
    · exact waits
  · intro _
    show (first ++ e.ready).count .loop + ((e.alarms ++ later).map (·.job)).count .loop ≤ 1
    rw [List.count_append, List.map_append, List.count_append]
    rcases new with ⟨rfl, rfl⟩ | ⟨rfl, rfl⟩ <;> simp <;> omega
  · rintro id next rfl
    rcases hl with hl | ⟨due, hl, -⟩ <;> cases hl

/-- The poll loop has come to its end. -/
theorem finished (f : Free e) : Polling { e with loop := .ended } := by
  refine ⟨?_, ?_, trivial, fun _ => Nat.le_trans (Nat.le_of_eq f.jobs) (Nat.zero_le 1),
    fun _ _ hl => (by cases hl), fun _ _ hj => (by cases hj), fun _ => f.aborted,
    fun hs => absurd (f.running.symm.trans hs) (by decide)⟩
  · intro run hr ho
    exact absurd ((f.own run hr).symm.trans ho) (by decide)
  · intro run hr ho
    exact absurd ((f.own run hr).symm.trans ho) (by decide)

/-- The poll loop goes on after a cycle. -/
theorem afterCycle (f : Free e) {id next : Nat} (hl : e.loop = .cycling id next)
    (result : CycleResult) : Polling (e.afterCycle result) := by
  have tick : Polling (e.awaitTick next) := wait f (.inr ⟨next, rfl, rfl⟩)
  unfold Engine.afterCycle
  rw [hl]
  cases result with
  | ok report => exact tick
  | error error =>
    dsimp only
    split
    · exact finished f
    · exact tick

/-- A tick is served. -/
theorem serveTick (f : Free e) (turns : InTurn e) (due : Nat) : Polling (e.serveTick due) := by
  refine Polling.takeTurn (e := { (e.newRun true).2 with
    loop := .cycling e.started (nextTick e.config.queryInterval due e.now) }) ?_ e.started
  have last : ∀ run ∈ e.runs ++ [⟨e.started, true, .queued⟩], run.ofLoop = true →
      run.id = e.started := by
    intro run hr ho
    rcases List.mem_append.1 hr with hr | hr
    · rw [f.own run hr] at ho
      cases ho
    · rw [List.mem_singleton.1 hr]
  refine ⟨?_, ?_, ?_, fun _ => Nat.le_trans (Nat.le_of_eq f.jobs) (Nat.zero_le 1),
    fun _ _ _ => f.jobs, ?_, fun _ => f.aborted, ?_⟩
  · intro run hr ho
    exact ⟨_, by rw [last run hr ho]⟩
  · intro run hr ho hm
    rw [last run hr ho] at hm
    obtain ⟨-, -, old, hold, hid, -⟩ := turns.begins _ hm
    exact absurd hid (Nat.ne_of_lt (turns.known old hold))
  · exact ⟨_, List.mem_append_right _ List.mem_cons_self, rfl, rfl⟩
  · intro ha
    exact absurd (f.aborted.symm.trans ha) (by decide)
  · intro hs
    exact absurd (f.running.symm.trans hs) (by decide)

/-- The poll loop goes on from a wait. -/
theorem resumeLoop (h : Polling (e.goOn .loop)) (turns : InTurn (e.goOn .loop)) :
    Polling e.resumeLoop := by
  have jobs : (e.goOn .loop).loopJobs = e.loopJobs + 1 := by
    simp only [loopJobs, Engine.goOn, List.count_cons_self]
    omega
  have waits : ∀ id next, e.loop ≠ .cycling id next := fun id next hl => by
    rw [h.alone id next hl] at jobs
    omega
  have own : ∀ run ∈ e.runs, run.ofLoop = false := fun run hr => Bool.eq_false_iff.2 fun ho => by
    obtain ⟨next, hl⟩ := h.own run hr ho
    exact waits _ _ hl
  unfold Engine.resumeLoop
  split
  · next ha =>
    refine ⟨?_, ?_, trivial, ?_, fun _ _ hl => (by cases hl), fun _ _ hj => (by cases hj), h.running,
      fun hs => ⟨(h.stopped hs).1, .inl rfl⟩⟩
    · intro run hr ho
      exact absurd ((own run hr).symm.trans ho) (by decide)
    · intro run hr ho
      exact absurd ((own run hr).symm.trans ho) (by decide)
    · intro hl
      exact absurd (ha.symm.trans hl) (by decide)
  · next hlive =>
    have aborted := Bool.eq_false_iff.2 hlive
    have single : e.loopJobs = 0 := by
      have hle := h.single aborted
      omega
    have free : e.loop ≠ .ended → Free e := fun hl => by
      refine ⟨own, single, aborted, Bool.of_not_eq_false fun hs => ?_⟩
      rcases (h.stopped hs).2 with hended | ha
      · exact hl hended
      · exact hlive ha
    -- the loop stays where it is if it waits for a time to come
    have stay : e.Polls → Polling e := fun polls =>
      ⟨h.own, fun run hr ho hm => h.begun run hr ho (List.mem_cons_of_mem _ hm), polls,
        fun _ => by omega, fun id next hl => absurd hl (waits id next),
        fun ha => absurd ha hlive, h.running, h.stopped⟩
    have turns' : InTurn e := turns.pop (by simp) fun _ _ hj => by cases hj
    have alarmed : ∀ {time}, ¬ time ≤ e.now → (e.goOn .loop).Awaits time .loop → e.Awaits time .loop :=
      fun hlt hw => .inr (hw.resolve_left fun hdue => hlt hdue.1)
    have polls := h.polls
    unfold Polls at polls
    split
    · next hl =>
      split
      · exact serveTick (free (by rw [hl]; simp)) turns' _
      · exact wait (free (by rw [hl]; simp)) (.inl rfl)
    · next ends hl =>
      rw [show (e.goOn .loop).loop = _ from hl] at polls
      split
      · exact serveTick (free (by rw [hl]; simp)) turns' _
      · next hlt =>
        refine stay ?_
        unfold Polls
        rw [hl]
        exact alarmed hlt polls
    · next due hl =>
      rw [show (e.goOn .loop).loop = _ from hl] at polls
      split
      · exact serveTick (free (by rw [hl]; simp)) turns' _
      · next hlt =>
        refine stay ?_
        unfold Polls
        rw [hl]
        exact alarmed hlt polls
    · next hstarting hdelaying hwaiting =>
      refine stay ?_
      unfold Polls
      cases hl : e.loop with
      | ended => trivial
      | starting => exact absurd hl hstarting
      | delaying ends => exact absurd hl (hdelaying ends)
      | waiting due => exact absurd hl (hwaiting due)
      | cycling id next => exact absurd hl (waits id next)

/-! ## Jobs -/

/-- A cycle of the poll loop has left, and the loop is free. -/
theorem free_of_own (h : Polling e) (hrun : run ∈ e.runs) (own : run.ofLoop = true)
    (aborted : e.aborted = false) (e' : Engine) (runs : e'.runs = (e.dropRun run.id).runs)
    (jobs : e'.loopJobs ≤ e.loopJobs) (aborted' : e'.aborted = e.aborted)
    (running : e'.running = e.running) : Free e' := by
  obtain ⟨next, hl⟩ := h.own run hrun own
  refine ⟨?_, ?_, aborted'.trans aborted, ?_⟩
  · intro r hr
    rw [runs] at hr
    obtain ⟨hr, hid⟩ := List.mem_filter.1 hr
    refine Bool.eq_false_iff.2 fun ho => ?_
    obtain ⟨next', hl'⟩ := h.own r hr ho
    rw [hl] at hl'
    have heq : r.id = run.id := (Loop.cycling.inj hl').1.symm
    simp [heq] at hid
  · have none := h.alone _ _ hl
    omega
  · rw [running]
    refine Bool.of_not_eq_false fun hs => ?_
    rcases (h.stopped hs).2 with hended | ha
    · rw [hl] at hended
      cases hended
    · exact absurd (aborted.symm.trans ha) (by decide)

/-- A cycle comes to its end. -/
theorem finish (h : Polling e) (turns : InTurn (e.goOn (.resume run.id))) (hrun : run ∈ e.runs)
    (kept : (run.ofLoop && e.aborted) = false) (result : CycleResult) :
    Polling (e.finish run result) := by
  obtain ⟨turn, queue, woken, heq, -, resumes⟩ := passTurn_eq (e.dropRun run.id)
  have nobody : .loop ∉ woken := fun hm => by
    obtain ⟨_, hj⟩ := resumes _ hm
    cases hj
  unfold Engine.finish
  dsimp only
  rw [heq]
  split
  · next ho =>
    have aborted : e.aborted = false := by rwa [ho] at kept
    obtain ⟨next, hl⟩ := h.own run hrun ho
    refine afterCycle ?_ (by exact hl) result
    refine h.free_of_own hrun ho aborted _ rfl (Nat.le_of_eq ?_) rfl rfl
    show (e.ready ++ woken).count .loop + _ = _
    rw [List.count_append, List.count_eq_zero.2 nobody]
    rfl
  · next ho =>
    refine Polling.settleRelease (h.others (.dropRun ?_ rfl) rfl rfl rfl rfl (fun hc => hc) [] woken
      [] rfl (List.append_nil _).symm ?_ nobody (by simp))
    · intro r hr hid
      rw [turns.unique hr hrun hid]
      exact Bool.eq_false_iff.2 ho
    · intro r _ _ hm
      obtain ⟨_, hj⟩ := resumes _ hm
      cases hj

/-- The poll loop's cycle is given up, and the loop has ended. -/
theorem abandon (h : Polling (e.goOn (.resume run.id))) (hrun : run ∈ e.runs)
    (own : run.ofLoop = true) (aborted : e.aborted = true) : Polling (e.abandon run) := by
  obtain ⟨next, hl⟩ := h.own run hrun own
  have ended : ∀ queue, Polling { e.dropRun run.id with loop := .ended, queue } := by
    intro queue
    have gone : ∀ r ∈ (e.dropRun run.id).runs, r.ofLoop = true → False := by
      intro r hr ho
      obtain ⟨hr, hid⟩ := List.mem_filter.1 hr
      obtain ⟨next', hl'⟩ := h.own r hr ho
      rw [hl] at hl'
      have heq : r.id = run.id := (Loop.cycling.inj hl').1.symm
      simp [heq] at hid
    exact ⟨fun r hr ho => (gone r hr ho).elim, fun r hr ho => (gone r hr ho).elim, trivial,
      fun ha => absurd (aborted.symm.trans ha) (by decide), fun _ _ hl => (by cases hl),
      fun _ _ hj => (by cases hj), h.running, fun hs => ⟨(h.stopped hs).1, .inl rfl⟩⟩
  obtain ⟨turn, queue, woken, heq, -, resumes⟩ := abandon_eq e run
  rw [heq]
  refine (ended queue).others (.of_eq rfl) rfl rfl rfl rfl (fun hc => hc) [] woken [] rfl (by simp)
    ?_ ?_ (by simp)
  · intro r _ _ hm
    obtain ⟨_, hj⟩ := resumes _ hm
    cases hj
  · intro hm
    obtain ⟨_, hj⟩ := resumes _ hm
    cases hj

/-- **A cycle that goes on** leaves the poll loop where it stands, or brings it back to its wait. -/
theorem goes (h : Polling (e.goOn (.resume run.id))) (turns : InTurn (e.goOn (.resume run.id)))
    (hrun : run ∈ e.runs) (g : Goes e run e') : Polling e' := by
  cases g with
  | waits kept early => exact h.pop_resume turns hrun kept
  | asks kept turn listening left stage => exact (h.pop_resume turns hrun kept).attempt _ _
  | pauses kept stage finished failed => exact (h.pop_resume turns hrun kept).pause run _ failed
  | ends kept turn elsewhere result noop cause =>
    have h₁ := (h.pop_resume turns hrun kept).elsewhere elsewhere
    have turns₁ := turns.elsewhere elsewhere.goOn
    cases elsewhere with
    | mk members fresh later now closed jobs alarms finished =>
      exact h₁.finish turns₁ hrun kept result
  | abandoned ofLoop aborted => exact h.abandon hrun ofLoop aborted

/-- Somebody's cycle starts, or is over before that. -/
theorem startRun {id : Nat} (h : Polling (e.goOn (.start id))) : Polling (e.startRun id) := by
  have popped : Polling e := by
    exact h.pop (by simp) fun _ => e.loop.job?_ne_start id
  unfold Engine.startRun
  split
  · exact popped.takeTurn id
  · refine Polling.settleRelease (popped.others (.dropRun ?_ rfl) rfl rfl rfl rfl (fun hc => hc) [] []
      [] (List.append_nil _).symm (List.append_nil _).symm (by simp) (by simp) (by simp))
    intro r hr hid
    refine Bool.eq_false_iff.2 fun ho => h.begun r hr ho ?_
    rw [hid]
    exact List.mem_cons_self

/-! ## Time -/

theorem jump (h : Polling e) (turns : InTurn e) {time : Nat} (later : e.now ≤ time) :
    Polling (e.jump time) := by
  have waits : ∀ t, e.Awaits t .loop → (e.jump time).Awaits t .loop := fun _ hw => hw.jump later
  obtain ⟨woken, heq, sub, -⟩ := jump_eq e time
  rw [heq] at waits ⊢
  refine h.congr (.of_eq rfl) rfl rfl rfl (fun hc => hc) ?_ ?_
    (fun _ _ _ => List.mem_append_left _) (List.mem_append_left _) waits
  · intro run _ _ hm
    refine (List.mem_append.1 hm).resolve_right fun hm => ?_
    obtain ⟨a, ha, hj⟩ := List.mem_map.1 (sub.subset hm)
    exact turns.rings a (List.mem_filter.1 ha).1 _ hj
  · have split : (e.alarms.map (·.job)).count .loop =
        ((e.alarms.filter fun a => decide (a.due ≤ time)).map (·.job)).count .loop +
          ((e.alarms.filter fun a => !decide (a.due ≤ time)).map (·.job)).count .loop := by
      simp only [List.count_eq_countP, List.countP_map]
      exact List.countP_eq_countP_filter_add _ _ _
    have fewer := sub.count_le (.loop : Job)
    simp only [loopJobs, List.count_append]
    omega

end Polling

/-! ## Cycles and the poll loop -/

/-- Cycles take turns, and the poll loop polls. -/
structure Underway (e : Engine) : Prop where
  turns : InTurn e
  polling : Polling e

namespace Underway

/-- A job is taken from the others before it goes on. -/
theorem take (h : Underway e) {job : Job} (allowed : job ∈ e.ready) :
    Underway (Engine.goOn { e with ready := e.ready.erase job } job) := by
  have perm : e.ready.Perm (job :: e.ready.erase job) := List.perm_cons_erase allowed
  refine ⟨h.turns.others rfl rfl rfl rfl rfl rfl rfl (fun id => perm.symm.count_eq _)
    (fun id hm => perm.mem_iff.1 hm) (fun _ ha => ha) h.turns.rings, ?_⟩
  refine h.polling.congr (.of_eq rfl) rfl rfl rfl (fun hc => hc) (fun _ _ _ hm => perm.mem_iff.2 hm) ?_
    (fun _ job _ hm => perm.mem_iff.1 hm) (fun hm => perm.mem_iff.1 hm)
    fun time hw => hw.mono rfl (fun hm => perm.mem_iff.1 hm) fun _ ha => ha
  exact Nat.add_le_add_right (Nat.le_of_eq (perm.symm.count_eq _)) _

theorem elsewhere (h : Underway e) (x : Elsewhere e e') : Underway e' :=
  ⟨h.turns.elsewhere x, h.polling.elsewhere x⟩

/-- Something has changed that neither cycles nor the poll loop depend on. -/
theorem congr (h : Underway e) (runs : e'.runs = e.runs) (turn : e'.turn = e.turn)
    (queue : e'.queue = e.queue) (started : e'.started = e.started) (results : e'.results = e.results)
    (now : e'.now = e.now) (channel : e'.channel = e.channel) (loop : e'.loop = e.loop)
    (aborted : e'.aborted = e.aborted) (running : e'.running = e.running)
    (ready : e'.ready = e.ready) (alarms : e'.alarms = e.alarms) : Underway e' := by
  have cancelled : e'.isCancelled = e.isCancelled := congrArg (· == Channel.closed) channel
  refine ⟨h.turns.others runs turn queue started results now cancelled (fun _ => by rw [ready])
    (fun _ hm => ready ▸ hm) (fun _ ha => alarms ▸ ha) (alarms ▸ h.turns.rings), ?_⟩
  exact h.polling.others (.of_eq runs) loop aborted running now (fun hc => cancelled.trans hc) [] [] []
    (by simp [ready]) (by simp [alarms]) (by simp) (by simp) (by simp)

/-- A job goes on. -/
theorem turn (h : Underway e) (ordered : Orderly config e) {job : Job} {heeds : Bool}
    (allowed : job ∈ e.ready) : Underway (e.act (.turn job heeds)) := by
  have taken : Taken _ job (e.act (.turn job heeds)) := h.turns.taken ordered allowed
  obtain ⟨turns, polling⟩ := h.take allowed
  generalize e.act (.turn job heeds) = e' at taken
  generalize { e with ready := e.ready.erase job } = e₀ at taken turns polling
  cases taken with
  | timer concerns elsewhere =>
    refine ⟨(turns.pop ?_ ?_).elsewhere elsewhere, (polling.pop ?_ ?_).elsewhere elsewhere⟩
    · rintro id rfl
      cases concerns
    · rintro run - rfl
      cases concerns
    · rintro rfl
      cases concerns
    · intro _ hj
      rcases Loop.eq_of_job? hj with rfl | ⟨_, _, _, rfl⟩ <;> cases concerns
  | start id => exact ⟨turns.startRun, polling.startRun⟩
  | loop => exact ⟨(turns.pop (by simp) fun _ _ hj => by cases hj).resumeLoop, polling.resumeLoop turns⟩
  | @resume run _ inFlight goes =>
    exact ⟨turns.goes inFlight
      (fun ho hs => polling.begun run inFlight ho (List.mem_cons_of_mem _ hs)) goes,
      polling.goes turns inFlight goes⟩
  | @stale id gone =>
    refine ⟨turns.pop (by simp) fun run hr hj => absurd (Job.resume.inj hj).symm (gone run hr),
      polling.pop (by simp) ?_⟩
    intro _ hj
    obtain ⟨run, hr, hid, -⟩ := polling.polls.own_cycle hj
    exact gone run hr hid

/-- **Cycles take turns and the poll loop polls**, whatever happens to discovery. -/
theorem act (h : Underway e) (ordered : Orderly config e) {deed : Deed} (allowed : e.Allows deed) :
    Underway (e.act deed) := by
  cases deed with
  | turn job heeds => exact h.turn ordered allowed
  | wait time => exact ⟨h.turns.jump allowed.2.1, h.polling.jump h.turns allowed.2.1⟩
  | call =>
    show Underway e.call.2
    unfold call
    split
    · exact ⟨h.turns.newRun_takeTurn false, h.polling.newRun.takeTurn _⟩
    · exact h
  | spawn => exact ⟨h.turns.spawn, h.polling.spawn h.turns⟩
  | fail key => exact h.elsewhere (.fail ordered key)
  | pardon key => exact h.elsewhere (.pardon e key)
  | cancel =>
    show Underway e.cancel.2
    unfold cancel
    split
    · exact ⟨h.turns.closeChannel, h.polling.closeChannel⟩
    · exact h
  | stop =>
    show Underway e.stop
    have finished : Underway e.silence := ⟨h.turns.silence, h.polling.silence⟩
    unfold stop
    dsimp only
    split
    · exact finished.elsewhere (.write _)
    · exact finished
  | release =>
    have h' : Underway { e with released := true } :=
      h.congr rfl rfl rfl rfl rfl rfl rfl rfl rfl rfl rfl rfl
    exact ⟨h'.turns.settleRelease, h'.polling.settleRelease⟩
  | serve directory => exact h.congr rfl rfl rfl rfl rfl rfl rfl rfl rfl rfl rfl rfl

theorem leads (h : Underway e) (ordered : Orderly config e) {deeds : List Deed}
    (l : Leads e deeds e') : Underway e' := by
  induction l with
  | start => exact h
  | next before deed allowed ih => exact ih.act (ordered.leads before).2 allowed

end Underway

theorem start_underway {directory : Directory} {reactions : List Reaction}
    (h : start config directory reactions = .ok e) : Underway e := by
  unfold start at h
  split at h
  · cases h
  · split at h
    · cases h
    · obtain rfl := Except.ok.inj h
      have none : ∀ {α : Type} {a : α}, a ∉ ([] : List α) := fun hm => by cases hm
      refine ⟨{
          ids := List.nodup_nil
          known := fun _ hr => absurd hr none
          holder := fun _ ht => by cases ht
          busy := fun _ => rfl
          line := List.nodup_nil
          queued := fun _ hm => absurd hm none
          begins := fun _ hm => by cases List.mem_singleton.1 hm
          once := fun _ => List.count_le_length
          rings := fun _ ha => absurd ha none
          placed := fun _ hr => absurd hr none
          finished := fun _ hx => absurd hx none
          outcomes := List.nodup_nil }, {
          own := fun _ hr => absurd hr none
          begun := fun _ hr => absurd hr none
          polls := List.mem_cons_self
          single := fun _ => Nat.le_refl _
          alone := fun _ _ hl => by cases hl
          told := fun ha => by cases ha
          running := fun _ => rfl
          stopped := fun hs => by cases hs }⟩

theorem Reachable.underway (h : Reachable config e) : Underway e := by
  obtain ⟨directory, reactions, e₀, deeds, hr, h₀, l⟩ := h
  exact (start_underway h₀).leads (start_orderly hr h₀).2 l

end Engine

end Roster
