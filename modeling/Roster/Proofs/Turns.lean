import Roster.Proofs.Flight
import Roster.Proofs.Jobs

/-!
# Proofs.Turns — cycles take turns, and none is forgotten

* `Placed`: a cycle in flight goes on at some time. Only in its turn does it ask the directory.
* `InTurn`: every cycle is placed, one at most has the turn, and each comes to one end.
* One lemma for each thing that can happen to a cycle; `InTurn.goes`: whatever a cycle does.
* `Taken`: what a job does that goes on.

A job is taken from the others before it goes on. The lemmas about a job that goes on therefore take
`InTurn (e.goOn job)`, where `e` is what the job is carried out on.
-/

namespace Roster

namespace Engine

variable {config : Config} {e e' : Engine} {run : Run}

/-- The cycle goes on at some time. One that asks the directory has the turn, and one that pauses
notices at once when it is asked to stop. -/
def Placed (e : Engine) (run : Run) : Prop :=
  match run.stage with
  | .queued => (e.turn = some run.id ∧ .resume run.id ∈ e.ready) ∨ run.id ∈ e.queue ∨
      .start run.id ∈ e.ready
  | .attempting _ ends _ => e.turn = some run.id ∧ e.Awaits ends (.resume run.id)
  | .pausing _ ends _ => e.turn = some run.id ∧
      (if e.isCancelled then .resume run.id ∈ e.ready else e.Awaits ends (.resume run.id))

/-- Every cycle in flight is placed, one at most has the turn, and each comes to one end. -/
structure InTurn (e : Engine) : Prop where
  ids : (e.runs.map (·.id)).Nodup
  known : ∀ run ∈ e.runs, run.id < e.started
  holder : ∀ id, e.turn = some id → ∃ run ∈ e.runs, run.id = id
  /-- Nobody queues for a turn that nobody has. -/
  busy : e.turn = none → e.queue = []
  line : e.queue.Nodup
  queued : ∀ id ∈ e.queue, e.turn ≠ some id ∧ ∃ run ∈ e.runs, run.id = id ∧ run.stage = .queued
  begins : ∀ id, .start id ∈ e.ready → e.turn ≠ some id ∧ id ∉ e.queue ∧
    ∃ run ∈ e.runs, run.id = id ∧ run.stage = .queued
  once : ∀ id, e.ready.count (.start id) ≤ 1
  rings : ∀ a ∈ e.alarms, ∀ id, a.job ≠ .start id
  placed : ∀ run ∈ e.runs, e.Placed run
  finished : ∀ x ∈ e.results, x.1 < e.started ∧ ∀ run ∈ e.runs, run.id ≠ x.1
  outcomes : (e.results.map (·.1)).Nodup

/-! ## Waiting -/

theorem Placed.mono (h : e.Placed run) (turn : e.turn = some run.id → e'.turn = some run.id)
    (queue : run.id ∈ e.queue → run.id ∈ e'.queue)
    (start : .start run.id ∈ e.ready → .start run.id ∈ e'.ready)
    (resume : .resume run.id ∈ e.ready → .resume run.id ∈ e'.ready)
    (awaits : ∀ time, e.Awaits time (.resume run.id) → e'.Awaits time (.resume run.id))
    (cancelled : e'.isCancelled = e.isCancelled) : e'.Placed run := by
  unfold Placed at *
  rw [cancelled]
  split at h
  · exact h.imp (.imp turn resume) (.imp queue start)
  · exact h.imp turn (awaits _)
  · refine h.imp turn fun hw => ?_
    split
    · next hc => exact resume (by rwa [if_pos hc] at hw)
    · next hc => exact awaits _ (by rwa [if_neg hc] at hw)

/-- A cycle that asks the directory has the turn. -/
theorem Placed.turn (h : e.Placed run) (asking : run.stage ≠ .queued) : e.turn = some run.id := by
  unfold Placed at h
  split at h
  · next hq => exact absurd hq asking
  · exact h.1
  · exact h.1

/-- A cycle without the turn queues for it, or is about to. -/
theorem Placed.waits (h : e.Placed run) (other : e.turn ≠ some run.id) :
    run.stage = .queued ∧ (run.id ∈ e.queue ∨ .start run.id ∈ e.ready) := by
  unfold Placed at h
  split at h
  · next hq => exact ⟨hq, h.resolve_left fun ht => other ht.1⟩
  · exact absurd h.1 other
  · exact absurd h.1 other

theorem placed_of_queue (stage : run.stage = .queued) (h : run.id ∈ e.queue) : e.Placed run := by
  unfold Placed
  rw [stage]
  exact .inr (.inl h)

theorem placed_of_start (stage : run.stage = .queued) (h : .start run.id ∈ e.ready) :
    e.Placed run := by
  unfold Placed
  rw [stage]
  exact .inr (.inr h)

theorem placed_of_turn (stage : run.stage = .queued) (turn : e.turn = some run.id)
    (h : .resume run.id ∈ e.ready) : e.Placed run := by
  unfold Placed
  rw [stage]
  exact .inl ⟨turn, h⟩

theorem mem_start_iff {id : Nat} : .start id ∈ e.ready ↔ 0 < e.ready.count (.start id) :=
  List.count_pos_iff.symm

/-! ## Changes -/

namespace InTurn

/-- A cycle is known by its number. -/
theorem unique (h : InTurn e) {run' : Run} (hr : run ∈ e.runs) (hr' : run' ∈ e.runs)
    (same : run.id = run'.id) : run = run' :=
  List.inj_on_of_nodup_map h.ids hr hr' same

/-- The cycles are the same, and each is placed as before. -/
theorem congr (h : InTurn e) (runs : e'.runs = e.runs) (turn : e'.turn = e.turn)
    (queue : e'.queue = e.queue) (started : e'.started = e.started)
    (results : e'.results = e.results)
    (starts : ∀ id, e'.ready.count (.start id) = e.ready.count (.start id))
    (rings : ∀ a ∈ e'.alarms, ∀ id, a.job ≠ .start id)
    (placed : ∀ run ∈ e.runs, e.Placed run → e'.Placed run) : InTurn e' := by
  have begins : ∀ id, .start id ∈ e'.ready → .start id ∈ e.ready := fun id hid => by
    rw [mem_start_iff] at hid ⊢
    rwa [← starts]
  refine ⟨runs ▸ h.ids, ?_, ?_, ?_, queue ▸ h.line, ?_, ?_, fun id => starts id ▸ h.once id, rings,
    ?_, ?_, results ▸ h.outcomes⟩
  · rw [runs, started]
    exact h.known
  · rw [runs, turn]
    exact h.holder
  · rw [turn, queue]
    exact h.busy
  · rw [queue, turn, runs]
    exact h.queued
  · rw [queue, turn, runs]
    exact fun id hid => h.begins id (begins id hid)
  · rw [runs]
    exact fun run hr => placed run hr (h.placed run hr)
  · rw [results, runs, started]
    exact h.finished

/-- A change that no cycle notices. -/
theorem elsewhere (h : InTurn e) (x : Elsewhere e e') : InTurn e' := by
  cases x with
  | mk members fresh later now closed jobs alarms finished =>
  have none : ∀ id, fresh.count (.start id) = 0 := fun id => List.count_eq_zero.2 fun hm => by
    cases jobs _ hm
  refine h.congr rfl rfl rfl rfl rfl ?_ ?_ ?_
  · intro id
    rw [List.count_append, none, Nat.add_zero]
  · intro a ha id hj
    rcases List.mem_append.1 ha with ha | ha
    · exact h.rings a ha id hj
    · have hjob := alarms a ha
      rw [hj] at hjob
      cases hjob
  · intro run _ hp
    exact hp.mono id id (List.mem_append_left _) (List.mem_append_left _)
      (fun time hw => hw.mono now (List.mem_append_left _) fun a => List.mem_append_left _) rfl

/-- Something has changed that cycles do not depend on, and other jobs go on. -/
theorem others (h : InTurn e) (runs : e'.runs = e.runs) (turn : e'.turn = e.turn)
    (queue : e'.queue = e.queue) (started : e'.started = e.started)
    (results : e'.results = e.results) (now : e'.now = e.now)
    (cancelled : e'.isCancelled = e.isCancelled)
    (starts : ∀ id, e'.ready.count (.start id) = e.ready.count (.start id))
    (resumes : ∀ id, .resume id ∈ e.ready → .resume id ∈ e'.ready)
    (alarms : ∀ a ∈ e.alarms, a ∈ e'.alarms)
    (rings : ∀ a ∈ e'.alarms, ∀ id, a.job ≠ .start id) : InTurn e' := by
  refine h.congr runs turn queue started results starts rings ?_
  intro run _ hp
  refine hp.mono (turn ▸ id) (queue ▸ id) ?_ (resumes _)
    (fun time hw => hw.mono now (resumes _) alarms) cancelled
  intro hs
  rw [mem_start_iff] at hs ⊢
  rwa [starts]

/-- A job that starts no cycle goes on besides. -/
theorem goOn (h : InTurn e) {job : Job} (other : ∀ id, job ≠ .start id) : InTurn (e.goOn job) :=
  h.others rfl rfl rfl rfl rfl rfl rfl (fun id => List.count_cons_of_ne (other id))
    (fun _ => List.mem_cons_of_mem _) (fun _ => id) h.rings

theorem goOnAt (h : InTurn e) {due : Nat} {job : Job} (other : ∀ id, job ≠ .start id) :
    InTurn (e.goOnAt due job) := by
  obtain ⟨first, later, heq, ⟨rfl, rfl⟩ | ⟨rfl, rfl⟩⟩ := goOnAt_eq e due job
  · rw [heq, List.append_nil]
    exact h.goOn other
  · rw [heq]
    refine h.others rfl rfl rfl rfl rfl rfl rfl (fun _ => rfl) (fun _ => id)
      (fun _ => List.mem_append_left _) ?_
    intro a ha id
    rcases List.mem_append.1 ha with ha | ha
    · exact h.rings a ha id
    · obtain rfl := List.mem_singleton.1 ha
      exact other id

/-- A job that no cycle needs is over. -/
theorem pop {job : Job} (h : InTurn (e.goOn job)) (other : ∀ id, job ≠ .start id)
    (unneeded : ∀ run ∈ e.runs, job = .resume run.id → (e.goOn job).Placed run → e.Placed run) :
    InTurn e := by
  refine h.congr rfl rfl rfl rfl rfl (fun id => (List.count_cons_of_ne (other id)).symm) h.rings ?_
  intro run hr hp
  by_cases hj : job = .resume run.id
  · exact unneeded run hr hj hp
  · have back : ∀ other, other ≠ job → other ∈ (e.goOn job).ready → other ∈ e.ready :=
      fun other hne hm => (List.mem_cons.1 hm).resolve_left hne
    have resume := back (.resume run.id) fun heq => hj heq.symm
    exact hp.mono id id (back _ fun heq => other _ heq.symm) resume
      (fun time hw => hw.mono rfl resume fun _ => id) rfl

/-- A cycle that is over has its outcome on record. -/
theorem record (h : InTurn e) {id : Nat} (known : id < e.started) (gone : ∀ run ∈ e.runs, run.id ≠ id)
    (first : ∀ x ∈ e.results, x.1 ≠ id) (result : CycleResult) :
    InTurn { e with results := (id, result) :: e.results } := by
  refine ⟨h.ids, h.known, h.holder, h.busy, h.line, h.queued, h.begins, h.once, h.rings, h.placed,
    ?_, ?_⟩
  · intro x hx
    rcases List.mem_cons.1 hx with rfl | hx
    · exact ⟨known, gone⟩
    · exact h.finished x hx
  · refine List.nodup_cons.2 ⟨?_, h.outcomes⟩
    intro hm
    obtain ⟨x, hx, hid⟩ := List.mem_map.1 hm
    exact first x hx hid

/-! ## A cycle comes into being -/

/-- A new cycle is about to begin. -/
theorem newRun (h : InTurn e) (ofLoop : Bool) :
    InTurn ((e.newRun ofLoop).2.goOn (.start e.started)) := by
  have fresh : ∀ run ∈ e.runs, run.id ≠ e.started := fun run hr => Nat.ne_of_lt (h.known run hr)
  have older : ∀ id, (∃ run ∈ e.runs, run.id = id ∧ run.stage = .queued) →
      id ≠ e.started ∧ ∃ run ∈ e.runs ++ [⟨e.started, ofLoop, .queued⟩],
        run.id = id ∧ run.stage = .queued := by
    rintro id ⟨run, hr, rfl, hq⟩
    exact ⟨fresh run hr, run, List.mem_append_left _ hr, rfl, hq⟩
  have fresh' : .start e.started ∉ e.ready := fun hm => (older _ (h.begins _ hm).2.2).1 rfl
  refine ⟨?_, ?_, ?_, h.busy, h.line, ?_, ?_, ?_, h.rings, ?_, ?_, h.outcomes⟩
  · show ((e.runs ++ [Run.mk e.started ofLoop .queued]).map (·.id)).Nodup
    rw [List.map_append]
    refine List.nodup_append.2 ⟨h.ids, List.nodup_singleton _, ?_⟩
    intro id hid id' hid'
    obtain ⟨run, hr, rfl⟩ := List.mem_map.1 hid
    obtain rfl := List.mem_singleton.1 hid'
    exact fresh run hr
  · intro run hr
    rcases List.mem_append.1 hr with hr | hr
    · exact Nat.lt_succ_of_lt (h.known run hr)
    · obtain rfl := List.mem_singleton.1 hr
      exact Nat.lt_succ_self _
  · intro id ht
    obtain ⟨run, hr, hid⟩ := h.holder id ht
    exact ⟨run, List.mem_append_left _ hr, hid⟩
  · intro id hid
    exact ⟨(h.queued id hid).1, (older id (h.queued id hid).2).2⟩
  · intro id hid
    rcases List.mem_cons.1 hid with hid | hid
    · obtain rfl := Job.start.inj hid
      refine ⟨?_, ?_, _, List.mem_append_right _ List.mem_cons_self, rfl, rfl⟩
      · intro ht
        obtain ⟨run, hr, hid⟩ := h.holder _ ht
        exact fresh run hr hid
      · exact fun hq => (older _ (h.queued _ hq).2).1 rfl
    · obtain ⟨ht, hq, hr⟩ := h.begins id hid
      exact ⟨ht, hq, (older id hr).2⟩
  · intro id
    by_cases hid : id = e.started
    · have once : (Job.start e.started :: e.ready).count (.start id) = 1 := by
        rw [hid, List.count_cons_self, List.count_eq_zero.2 fresh']
      exact Nat.le_of_eq once
    · refine Nat.le_trans (Nat.le_of_eq (List.count_cons_of_ne ?_)) (h.once id)
      exact fun heq => hid (Job.start.inj heq).symm
  · intro run hr
    rcases List.mem_append.1 hr with hr | hr
    · exact (h.placed run hr).mono id id (List.mem_cons_of_mem _) (List.mem_cons_of_mem _)
        (fun time hw => hw.mono rfl (List.mem_cons_of_mem _) fun _ => id) rfl
    · obtain rfl := List.mem_singleton.1 hr
      exact placed_of_start rfl List.mem_cons_self
  · intro x hx
    obtain ⟨hlt, hne⟩ := h.finished x hx
    refine ⟨Nat.lt_succ_of_lt hlt, ?_⟩
    intro run hr
    rcases List.mem_append.1 hr with hr | hr
    · exact hne run hr
    · obtain rfl := List.mem_singleton.1 hr
      exact Nat.ne_of_gt hlt

/-- A cycle that is about to begin takes the turn or queues for it. -/
theorem takeTurn {id : Nat} (h : InTurn (e.goOn (.start id))) : InTurn (e.takeTurn id) := by
  obtain ⟨hturn, hqueue, run, hrun, rfl, hstage⟩ := h.begins id List.mem_cons_self
  have last : .start run.id ∉ e.ready := by
    have hone : (Job.start run.id :: e.ready).count (.start run.id) ≤ 1 := h.once run.id
    rw [List.count_cons_self] at hone
    exact List.count_eq_zero.1 (by omega)
  have begins : ∀ id, .start id ∈ e.ready → id ≠ run.id ∧ .start id ∈ (e.goOn (.start run.id)).ready :=
    fun id hid => ⟨fun heq => last (heq ▸ hid), List.mem_cons_of_mem _ hid⟩
  have once : ∀ id, e.ready.count (.start id) ≤ 1 := fun id =>
    Nat.le_trans List.count_le_count_cons (h.once id)
  have back : ∀ other : Run, other ∈ e.runs → other.id ≠ run.id →
      .start other.id ∈ (e.goOn (.start run.id)).ready → .start other.id ∈ e.ready :=
    fun other _ hne hm => (List.mem_cons.1 hm).resolve_left fun heq => hne (Job.start.inj heq)
  have resume : ∀ id, .resume id ∈ (e.goOn (.start run.id)).ready → .resume id ∈ e.ready :=
    fun id hm => (List.mem_cons.1 hm).resolve_left fun heq => by cases heq
  unfold Engine.takeTurn
  split
  · next hfree =>
    have empty : e.queue = [] := h.busy hfree
    refine ⟨h.ids, h.known, ?_, ?_, h.line, ?_, ?_, ?_, h.rings, ?_, h.finished, h.outcomes⟩
    · intro id ht
      exact ⟨run, hrun, Option.some.inj ht⟩
    · intro ht
      cases ht
    · intro id hid
      rw [show _ = e.queue from rfl, empty] at hid
      cases hid
    · intro id hid
      have hid' : .start id ∈ e.ready := (List.mem_cons.1 hid).resolve_left fun heq => by cases heq
      obtain ⟨hne, hm⟩ := begins id hid'
      exact ⟨fun ht => hne (Option.some.inj ht).symm, (h.begins id hm).2⟩
    · intro id
      exact Nat.le_trans (Nat.le_of_eq (List.count_cons_of_ne (by simp))) (once id)
    · intro other hother
      by_cases hid : other.id = run.id
      · rw [h.unique hother hrun hid]
        exact placed_of_turn hstage rfl List.mem_cons_self
      · have hp : (e.goOn (.start run.id)).Placed other := h.placed other hother
        obtain ⟨hq, hwait⟩ := hp.waits (by
          rw [show (e.goOn (.start run.id)).turn = e.turn from rfl, hfree]
          simp)
        rcases hwait with hm | hm
        · rw [show (e.goOn (.start run.id)).queue = e.queue from rfl, empty] at hm
          cases hm
        · exact placed_of_start hq (List.mem_cons_of_mem _ (back other hother hid hm))
  · next holder hholder =>
    refine ⟨h.ids, h.known, h.holder, ?_, ?_, ?_, ?_, once, h.rings, ?_, h.finished, h.outcomes⟩
    · intro ht
      rw [show _ = e.turn from rfl, hholder] at ht
      cases ht
    · refine List.nodup_append.2 ⟨h.line, List.nodup_singleton _, ?_⟩
      intro id hid id' hid' heq
      obtain rfl := List.mem_singleton.1 hid'
      exact hqueue (heq ▸ hid)
    · intro id hid
      rcases List.mem_append.1 hid with hid | hid
      · exact h.queued id hid
      · obtain rfl := List.mem_singleton.1 hid
        exact ⟨hturn, run, hrun, rfl, hstage⟩
    · intro id hid
      obtain ⟨hne, hm⟩ := begins id hid
      obtain ⟨ht, hq, hr⟩ := h.begins id hm
      refine ⟨ht, ?_, hr⟩
      intro hm'
      rcases List.mem_append.1 hm' with hm' | hm'
      · exact hq hm'
      · exact hne (List.mem_singleton.1 hm')
    · intro other hother
      by_cases hid : other.id = run.id
      · rw [h.unique hother hrun hid]
        exact placed_of_queue hstage (List.mem_append_right _ List.mem_cons_self)
      · have hp : (e.goOn (.start run.id)).Placed other := h.placed other hother
        exact hp.mono id (List.mem_append_left _) (back other hother hid) (resume _)
          (fun time hw => hw.mono rfl (resume _) fun _ => id) rfl

/-- A cycle begins at once. -/
theorem newRun_takeTurn (h : InTurn e) (ofLoop : Bool) :
    InTurn ((e.newRun ofLoop).2.takeTurn e.started) := (h.newRun ofLoop).takeTurn

/-- A cycle will begin as a job of its own. -/
theorem spawn (h : InTurn e) : InTurn e.spawn.2 := by
  have fresh : .start e.started ∉ e.ready := fun hm => by
    obtain ⟨-, -, run, hr, hid, -⟩ := h.begins _ hm
    exact absurd hid (Nat.ne_of_lt (h.known run hr))
  have woken : e.spawn.2 =
      { (e.newRun false).2 with ready := e.ready ++ [.start e.started] } := by
    show (e.newRun false).2.wake (.start e.started) = _
    unfold Engine.wake
    rw [if_neg]
    · rfl
    · simpa [Engine.newRun] using fresh
  have perm : (e.ready ++ [Job.start e.started]).Perm (.start e.started :: e.ready) :=
    List.perm_append_singleton _ _
  rw [woken]
  exact (h.newRun false).others rfl rfl rfl rfl rfl rfl rfl (fun id => perm.count_eq _)
    (fun id hm => perm.mem_iff.2 hm) (fun _ => id) h.rings

/-! ## A cycle goes on -/

/-- A cycle with the turn goes on to another stage, where it is placed. -/
theorem setStage (h : InTurn (e.goOn (.resume run.id))) (hrun : run ∈ e.runs)
    (turn : e.turn = some run.id) (stage : Stage) (runs : e'.runs = (e.setStage run.id stage).runs)
    (turn' : e'.turn = e.turn) (queue : e'.queue = e.queue) (started : e'.started = e.started)
    (results : e'.results = e.results) (now : e'.now = e.now)
    (cancelled : e'.isCancelled = e.isCancelled)
    (starts : ∀ id, e'.ready.count (.start id) = e.ready.count (.start id))
    (resumes : ∀ id, .resume id ∈ e.ready → .resume id ∈ e'.ready)
    (alarms : ∀ a ∈ e.alarms, a ∈ e'.alarms) (rings : ∀ a ∈ e'.alarms, ∀ id, a.job ≠ .start id)
    (placed : e'.Placed { run with stage }) : InTurn e' := by
  have count : ∀ id, (e.goOn (.resume run.id)).ready.count (.start id) = e.ready.count (.start id) :=
    fun id => List.count_cons_of_ne (by simp)
  have begins : ∀ id, .start id ∈ e'.ready ↔ .start id ∈ (e.goOn (.resume run.id)).ready :=
    fun id => by rw [mem_start_iff, mem_start_iff, count, starts]
  -- the other cycles stay as they are
  have mem : ∀ r ∈ e'.runs, (r = { run with stage }) ∨ (r ∈ e.runs ∧ r.id ≠ run.id) := by
    intro r hr
    rw [runs] at hr
    obtain ⟨old, hold, rfl⟩ := List.mem_map.1 hr
    split
    · next hid => exact .inl (by rw [h.unique hold hrun hid])
    · next hid => exact .inr ⟨hold, hid⟩
  have keep : ∀ r ∈ e.runs, r.id ≠ run.id → r ∈ e'.runs := fun r hr hid => by
    rw [runs]
    exact List.mem_map.2 ⟨r, hr, if_neg hid⟩
  have ids : e'.runs.map (·.id) = e.runs.map (·.id) := by
    rw [runs, Engine.setStage, List.map_map]
    refine List.map_congr_left fun r _ => ?_
    show (if r.id = run.id then { r with stage } else r).id = r.id
    split <;> rfl
  have known : ∀ id, (∃ r ∈ e.runs, r.id = id) → ∃ r ∈ e'.runs, r.id = id := by
    rintro id ⟨r, hr, hid⟩
    have hm : id ∈ e'.runs.map (·.id) := by
      rw [ids]
      exact List.mem_map.2 ⟨r, hr, hid⟩
    obtain ⟨r', hr', hid'⟩ := List.mem_map.1 hm
    exact ⟨r', hr', hid'⟩
  refine ⟨ids ▸ h.ids, ?_, ?_, ?_, queue ▸ h.line, ?_, ?_, ?_, rings, ?_, ?_, results ▸ h.outcomes⟩
  · intro r hr
    rw [started]
    rcases mem r hr with rfl | ⟨hr, -⟩
    · exact h.known run hrun
    · exact h.known r hr
  · intro id ht
    rw [turn'] at ht
    exact known id (h.holder id ht)
  · rw [turn', queue]
    exact h.busy
  · intro id hid
    rw [queue] at hid
    obtain ⟨ht, r, hr, rfl, hq⟩ := h.queued id hid
    rw [turn']
    exact ⟨ht, r, keep r hr fun heq => ht (by rw [heq]; exact turn), rfl, hq⟩
  · intro id hid
    obtain ⟨ht, hq, r, hr, rfl, hs⟩ := h.begins id ((begins id).1 hid)
    rw [turn', queue]
    exact ⟨ht, hq, r, keep r hr fun heq => ht (by rw [heq]; exact turn), rfl, hs⟩
  · intro id
    rw [starts, ← count]
    exact h.once id
  · intro r hr
    rcases mem r hr with rfl | ⟨hr, hid⟩
    · exact placed
    · have resume : .resume r.id ∈ (e.goOn (.resume run.id)).ready → .resume r.id ∈ e'.ready :=
        fun hm => resumes _ ((List.mem_cons.1 hm).resolve_left fun heq => hid (Job.resume.inj heq))
      exact (h.placed r hr).mono (turn' ▸ id) (queue ▸ id) (begins r.id).2 resume
        (fun time hw => hw.mono now resume alarms) cancelled
  · intro x hx
    rw [results] at hx
    obtain ⟨hlt, hne⟩ := h.finished x hx
    rw [started]
    refine ⟨hlt, ?_⟩
    intro r hr
    rcases mem r hr with rfl | ⟨hr, -⟩
    · exact hne run hrun
    · exact hne r hr

/-- A cycle with the turn goes on to another stage and waits. -/
theorem setStage_goOnAt (h : InTurn (e.goOn (.resume run.id))) (hrun : run ∈ e.runs)
    (turn : e.turn = some run.id) (directory : Directory) (calls : List DirectoryCall) (ends : Nat)
    {stage : Stage} (placed : ∀ e' : Engine, e'.turn = some run.id → e'.isCancelled = e.isCancelled →
      e'.Awaits ends (.resume run.id) → e'.Placed { run with stage }) :
    InTurn ((Engine.setStage { e with directory, calls } run.id stage).goOnAt ends
      (.resume run.id)) := by
  have waits := awaits_goOnAt (Engine.setStage { e with directory, calls } run.id stage) ends
    (.resume run.id)
  obtain ⟨first, later, heq, new⟩ :=
    goOnAt_eq (Engine.setStage { e with directory, calls } run.id stage) ends (.resume run.id)
  rw [heq] at waits ⊢
  refine h.setStage hrun turn stage rfl rfl rfl rfl rfl rfl rfl ?_
    (fun id => List.mem_append_right _) (fun _ => List.mem_append_left _) ?_ (placed _ turn rfl waits)
  · intro id
    rcases new with ⟨rfl, -⟩ | ⟨rfl, -⟩
    · exact List.count_cons_of_ne (by simp)
    · rfl
  · intro a ha id
    rcases List.mem_append.1 ha with ha | ha
    · exact h.rings a ha id
    · rcases new with ⟨-, rfl⟩ | ⟨-, rfl⟩
      · cases ha
      · rw [List.mem_singleton.1 ha]
        simp

/-- A cycle asks the directory. -/
theorem attempt (h : InTurn (e.goOn (.resume run.id))) (hrun : run ∈ e.runs)
    (turn : e.turn = some run.id) (left : Nat) : InTurn (e.attempt run.id left) :=
  h.setStage_goOnAt hrun turn _ _ _ fun _ ht _ hw => ⟨ht, hw⟩

/-- A cycle pauses after a failure. -/
theorem pause (h : InTurn (e.goOn (.resume run.id))) (hrun : run ∈ e.runs)
    (turn : e.turn = some run.id) (left : Nat) {outcome : Except DiscoveryError (List Record)}
    {last : DiscoveryError} (failed : Retry.repeatable? outcome = some last) :
    InTurn (e.afterAttempt run left outcome) := by
  unfold Engine.afterAttempt
  rw [failed]
  dsimp only
  split
  · next hc =>
    have hc' : e.isCancelled = true := hc
    refine h.setStage hrun turn _ rfl rfl rfl rfl rfl rfl rfl
      (fun id => List.count_cons_of_ne (by simp)) (fun _ => List.mem_cons_of_mem _) (fun _ => id)
      h.rings ⟨turn, ?_⟩
    show if e.isCancelled then _ else _
    rw [if_pos hc']
    exact List.mem_cons_self
  · next hc =>
    have hc' : ¬ e.isCancelled = true := hc
    refine h.setStage_goOnAt hrun turn _ _ _ ?_
    intro e' ht hsame hw
    refine ⟨ht, ?_⟩
    rw [hsame, if_neg hc']
    exact hw

/-! ## A cycle is no longer in flight -/

/-- A cycle without the turn is dropped, together with its place in the queue. -/
theorem drop {job : Job} (h : InTurn (e.goOn job)) {id : Nat} (own : job = .resume id ∨ job = .start id)
    (other : e.turn ≠ some id) (nostart : .start id ∉ e.ready) :
    InTurn { e.dropRun id with queue := e.queue.filter (· != id) } := by
  have mem : ∀ r ∈ (e.dropRun id).runs, r ∈ e.runs ∧ r.id ≠ id := fun r hr => by
    simpa [dropRun] using hr
  have keep : ∀ r ∈ e.runs, r.id ≠ id → r ∈ (e.dropRun id).runs := fun r hr hid => by
    simpa [dropRun] using ⟨hr, hid⟩
  have back : ∀ r, r ≠ id → (∀ job', job' = .resume r ∨ job' = .start r → job' ∈ (e.goOn job).ready →
      job' ∈ e.ready) := by
    intro r hr job' hjob' hm
    refine (List.mem_cons.1 hm).resolve_left ?_
    rintro rfl
    rcases hjob' with rfl | rfl <;> rcases own with heq | heq <;> cases heq <;> exact hr rfl
  refine ⟨h.ids.sublist (List.filter_sublist.map _), fun r hr => h.known r (mem r hr).1, ?_, ?_,
    h.line.filter _, ?_, ?_, ?_, h.rings, ?_, ?_, h.outcomes⟩
  · intro r ht
    obtain ⟨run, hr, rfl⟩ := h.holder r ht
    exact ⟨run, keep run hr fun hid => other (hid ▸ ht), rfl⟩
  · intro ht
    show e.queue.filter (· != id) = []
    rw [show e.queue = [] from h.busy ht]
    rfl
  · intro r hr
    obtain ⟨hr, hne⟩ := List.mem_filter.1 hr
    obtain ⟨ht, run, hrun, rfl, hq⟩ := h.queued r hr
    exact ⟨ht, run, keep run hrun (by simpa using hne), rfl, hq⟩
  · intro r hr
    obtain ⟨ht, hq, run, hrun, rfl, hs⟩ := h.begins r (List.mem_cons_of_mem _ hr)
    refine ⟨ht, fun hm => hq (List.mem_filter.1 hm).1, run, keep run hrun ?_, rfl, hs⟩
    exact fun hid => nostart (hid ▸ hr)
  · intro r
    exact Nat.le_trans List.count_le_count_cons (h.once r)
  · intro r hr
    obtain ⟨hr, hid⟩ := mem r hr
    have resume := back r.id hid (.resume r.id) (.inl rfl)
    exact (h.placed r hr).mono (fun ht => ht) (fun hm => List.mem_filter.2 ⟨hm, by simpa using hid⟩)
      (back r.id hid (.start r.id) (.inr rfl)) resume
      (fun time hw => hw.mono rfl resume fun _ ha => ha) rfl
  · intro x hx
    obtain ⟨hlt, hne⟩ := h.finished x hx
    exact ⟨hlt, fun r hr => hne r (mem r hr).1⟩

/-- A cycle with the turn leaves it to the next in the queue. -/
theorem pass (h : InTurn (e.goOn (.resume run.id))) (turn : e.turn = some run.id) :
    InTurn (e.dropRun run.id).passTurn := by
  have mem : ∀ r ∈ (e.dropRun run.id).runs, r ∈ e.runs ∧ r.id ≠ run.id := fun r hr => by
    simpa [dropRun] using hr
  have keep : ∀ r ∈ e.runs, r.id ≠ run.id → r ∈ (e.dropRun run.id).runs := fun r hr hid => by
    simpa [dropRun] using ⟨hr, hid⟩
  have ids : ((e.dropRun run.id).runs.map (·.id)).Nodup := h.ids.sublist (List.filter_sublist.map _)
  have finished : ∀ x ∈ e.results, x.1 < e.started ∧ ∀ r ∈ (e.dropRun run.id).runs, r.id ≠ x.1 :=
    fun x hx => ⟨(h.finished x hx).1, fun r hr => (h.finished x hx).2 r (mem r hr).1⟩
  have once : ∀ id, e.ready.count (.start id) ≤ 1 := fun id =>
    Nat.le_trans List.count_le_count_cons (h.once id)
  -- those that have no turn are queued, or about to begin
  have waits : ∀ r ∈ (e.dropRun run.id).runs,
      r.stage = .queued ∧ (r.id ∈ e.queue ∨ .start r.id ∈ e.ready) := fun r hr => by
    obtain ⟨hr, hid⟩ := mem r hr
    have hp : (e.goOn (.resume run.id)).Placed r := h.placed r hr
    obtain ⟨hq, hwait⟩ := hp.waits (by
      rw [show (e.goOn (.resume run.id)).turn = e.turn from rfl, turn]
      exact fun heq => hid (Option.some.inj heq).symm)
    exact ⟨hq, hwait.imp_right fun hm => (List.mem_cons.1 hm).resolve_left fun heq => by cases heq⟩
  have begins : ∀ id, .start id ∈ e.ready → id ∉ e.queue ∧
      ∃ r ∈ (e.dropRun run.id).runs, r.id = id ∧ r.stage = .queued := fun id hid => by
    obtain ⟨ht, hq, r, hr, rfl, hs⟩ := h.begins id (List.mem_cons_of_mem _ hid)
    exact ⟨hq, r, keep r hr fun heq => ht (by rw [heq]; exact turn), rfl, hs⟩
  have queued : ∀ id ∈ e.queue, ∃ r ∈ (e.dropRun run.id).runs, r.id = id ∧ r.stage = .queued :=
    fun id hid => by
      obtain ⟨ht, r, hr, rfl, hq⟩ := h.queued id hid
      exact ⟨r, keep r hr fun heq => ht (by rw [heq]; exact turn), rfl, hq⟩
  unfold passTurn
  split
  · next hempty =>
    have empty : e.queue = [] := hempty
    refine ⟨ids, fun r hr => h.known r (mem r hr).1, ?_, fun _ => hempty, h.line, ?_, ?_, once,
      h.rings, ?_, finished, h.outcomes⟩
    · intro id ht
      cases ht
    · intro id hid
      have hid' : id ∈ e.queue := hid
      rw [empty] at hid'
      cases hid'
    · intro id hid
      exact ⟨by simp, (begins id hid).1, (begins id hid).2⟩
    · intro r hr
      obtain ⟨hq, hwait⟩ := waits r hr
      rw [empty] at hwait
      exact placed_of_start hq (hwait.resolve_left (by simp))
  · next next rest hqueue =>
    have line : e.queue = next :: rest := hqueue
    have nodup : (next :: rest).Nodup := line ▸ h.line
    obtain ⟨woken, heq, sub, mem'⟩ :=
      wake_eq { e.dropRun run.id with turn := some next, queue := rest } (.resume next)
    have starts : ∀ id, .start id ∈ e.ready ++ woken → .start id ∈ e.ready := fun id hid =>
      (List.mem_append.1 hid).resolve_right fun hm => by cases List.mem_singleton.1 (sub.subset hm)
    rw [heq]
    refine ⟨ids, fun r hr => h.known r (mem r hr).1, ?_, ?_, (List.nodup_cons.1 nodup).2, ?_, ?_, ?_,
      h.rings, ?_, finished, h.outcomes⟩
    · intro id ht
      obtain rfl := Option.some.inj ht
      obtain ⟨r, hr, hid, -⟩ := queued next (by rw [line]; exact List.mem_cons_self)
      exact ⟨r, hr, hid⟩
    · intro ht
      cases ht
    · intro id hid
      refine ⟨?_, queued id (by rw [line]; exact List.mem_cons_of_mem _ hid)⟩
      intro ht
      obtain rfl := Option.some.inj ht
      exact (List.nodup_cons.1 nodup).1 hid
    · intro id hid
      obtain ⟨hq, hr⟩ := begins id (starts id hid)
      rw [line] at hq
      refine ⟨?_, fun hm => hq (List.mem_cons_of_mem _ hm), hr⟩
      intro ht
      obtain rfl := Option.some.inj ht
      exact hq List.mem_cons_self
    · intro id
      exact Nat.le_trans (Nat.le_of_eq (count_woken sub (by simp) _)) (once id)
    · intro r hr
      obtain ⟨hq, hwait⟩ := waits r hr
      rw [line] at hwait
      rcases hwait with hm | hm
      · rcases List.mem_cons.1 hm with hid | hm
        · exact placed_of_turn hq (by rw [hid]) (by rw [hid]; exact mem')
        · exact placed_of_queue hq hm
      · exact placed_of_start hq (List.mem_append_left _ hm)

/-! ## The end -/

/-- Somebody asks the cycles to stop. -/
theorem closeChannel (h : InTurn e) : InTurn e.closeChannel := by
  obtain ⟨woken, heq, only, all⟩ := closeChannel_eq e
  rw [heq]
  refine h.congr rfl rfl rfl rfl rfl ?_ h.rings ?_
  · intro id
    refine count_woken (List.Sublist.refl woken) (fun hm => ?_) _
    obtain ⟨_, hj⟩ := only _ hm
    cases hj
  · intro run hr hp
    unfold Placed at hp ⊢
    split
    · next hs =>
      rw [hs] at hp
      exact hp.imp (.imp_right (List.mem_append_left _)) (.imp_right (List.mem_append_left _))
    · next hs =>
      rw [hs] at hp
      exact hp.imp_right fun hw => hw.mono rfl (List.mem_append_left _) fun _ ha => ha
    · next left ends last hs =>
      rw [hs] at hp
      exact ⟨hp.1, all run hr left ends last hs⟩

theorem abortLoop (h : InTurn e) : InTurn e.abortLoop := by
  obtain ⟨aborted, woken, heq, -, only, -⟩ := abortLoop_eq e
  rw [heq]
  refine h.others rfl rfl rfl rfl rfl rfl rfl ?_ (fun _ => List.mem_append_left _) (fun _ => id)
    h.rings
  intro id
  exact count_woken (List.Sublist.refl woken) (fun hm => e.loop.job?_ne_start id (only _ hm)) _

theorem silence (h : InTurn e) : InTurn e.silence := by
  have off : InTurn { e with running := false } :=
    h.others rfl rfl rfl rfl rfl rfl rfl (fun _ => rfl) (fun _ => id) (fun _ => id) h.rings
  have told := off.closeChannel.abortLoop
  exact told.others rfl rfl rfl rfl rfl rfl rfl (fun _ => rfl) (fun _ => id) (fun _ => id) told.rings

theorem settleRelease (h : InTurn e) : InTurn e.settleRelease := by
  unfold Engine.settleRelease
  split
  · exact h.silence
  · exact h

/-! ## The poll loop -/

theorem afterCycle (h : InTurn e) (result : CycleResult) : InTurn (e.afterCycle result) := by
  have finished : ∀ loop, InTurn { e with loop } := fun loop =>
    h.others rfl rfl rfl rfl rfl rfl rfl (fun _ => rfl) (fun _ => id) (fun _ => id) h.rings
  unfold Engine.afterCycle
  split
  · exact (finished _).goOnAt (by simp)
  · split
    · exact finished _
    · exact (finished _).goOnAt (by simp)
  · exact h

theorem serveTick (h : InTurn e) (due : Nat) : InTurn (e.serveTick due) := by
  have finished : InTurn { e with
      loop := .cycling e.started (nextTick e.config.queryInterval due e.now) } :=
    h.others rfl rfl rfl rfl rfl rfl rfl (fun _ => rfl) (fun _ => id) (fun _ => id) h.rings
  exact finished.newRun_takeTurn true

theorem resumeLoop (h : InTurn e) : InTurn e.resumeLoop := by
  have finished : ∀ loop, InTurn { e with loop } := fun loop =>
    h.others rfl rfl rfl rfl rfl rfl rfl (fun _ => rfl) (fun _ => id) (fun _ => id) h.rings
  unfold Engine.resumeLoop
  split
  · exact finished _
  · split
    · split
      · exact h.serveTick _
      · exact (finished _).goOnAt (by simp)
    · split
      · exact h.serveTick _
      · exact h
    · split
      · exact h.serveTick _
      · exact h
    · exact h

/-! ## Time -/

theorem jump (h : InTurn e) {time : Nat} (later : e.now ≤ time) : InTurn (e.jump time) := by
  have waits : ∀ run ∈ e.runs, ∀ t, e.Awaits t (.resume run.id) →
      (e.jump time).Awaits t (.resume run.id) := fun _ _ _ hw => hw.jump later
  obtain ⟨woken, heq, sub, -⟩ := jump_eq e time
  rw [heq] at waits ⊢
  refine h.congr rfl rfl rfl rfl rfl ?_ (fun a ha => h.rings a (List.mem_filter.1 ha).1) ?_
  · intro id
    refine count_woken sub (fun hm => ?_) _
    obtain ⟨a, ha, hj⟩ := List.mem_map.1 hm
    exact h.rings a (List.mem_filter.1 ha).1 id hj
  · intro run hr hp
    exact hp.mono (fun ht => ht) (fun hm => hm) (List.mem_append_left _) (List.mem_append_left _)
      (waits run hr) rfl

/-! ## Jobs -/

/-- A cycle comes to its end. -/
theorem finish (h : InTurn (e.goOn (.resume run.id))) (hrun : run ∈ e.runs)
    (turn : e.turn = some run.id) (result : CycleResult) : InTurn (e.finish run result) := by
  have passed := h.pass turn
  have finished : InTurn { (e.dropRun run.id).passTurn with
      results := (run.id, result) :: (e.dropRun run.id).passTurn.results } := by
    obtain ⟨turn, queue, woken, heq, -⟩ := passTurn_eq (e.dropRun run.id)
    rw [heq] at passed ⊢
    refine passed.record (h.known run hrun) ?_ (fun x hx => ((h.finished x hx).2 run hrun).symm) result
    intro r hr
    simpa using (List.mem_filter.1 hr).2
  unfold Engine.finish
  dsimp only
  split
  · exact finished.afterCycle result
  · exact finished.settleRelease

/-- The poll loop's cycle is given up. -/
theorem abandon (h : InTurn (e.goOn (.resume run.id))) (begun : .start run.id ∉ e.ready) :
    InTurn (e.abandon run) := by
  have finished : InTurn (Engine.goOn { e with loop := .ended } (.resume run.id)) :=
    h.others rfl rfl rfl rfl rfl rfl rfl (fun _ => rfl) (fun _ => id) (fun _ => id) h.rings
  unfold Engine.abandon
  dsimp only
  split
  · next turn =>
    have turn' : e.turn = some run.id := turn
    have elsewhere : e.queue.filter (· != run.id) = e.queue := by
      refine List.filter_eq_self.2 fun id hid => ?_
      have hne := (h.queued id hid).1
      rw [show (e.goOn (.resume run.id)).turn = some run.id from turn'] at hne
      simpa using fun heq => hne (congrArg some heq.symm)
    have passed := finished.pass turn'
    rw [elsewhere]
    exact passed
  · next other => exact finished.drop (.inl rfl) other begun

/-- **A cycle that goes on** leaves the others where they are. -/
theorem goes (h : InTurn (e.goOn (.resume run.id))) (hrun : run ∈ e.runs)
    (begun : run.ofLoop = true → .start run.id ∉ e.ready) (g : Goes e run e') : InTurn e' := by
  have asking : run.stage ≠ .queued → e.turn = some run.id := (h.placed run hrun).turn
  cases g with
  | waits kept early =>
    refine h.pop (by simp) ?_
    intro r hr hid hp
    obtain rfl := h.unique hr hrun (Job.resume.inj hid).symm
    unfold Placed at hp ⊢
    have alarmed : ∀ {ends}, e.now < ends → (e.goOn (.resume r.id)).Awaits ends (.resume r.id) →
        e.Awaits ends (.resume r.id) := fun hlt hw =>
      .inr (hw.resolve_left fun hdue => Nat.not_le.2 hlt hdue.1)
    split
    · next hs =>
      rw [hs] at hp early
      exact .inr ((hp.resolve_left fun ht => early ht.1).imp_right fun hm =>
        (List.mem_cons.1 hm).resolve_left fun heq => by cases heq)
    · next hs =>
      rw [hs] at hp early
      exact hp.imp_right (alarmed early)
    · next hs =>
      rw [hs] at hp early
      obtain ⟨hlt, listening⟩ := early
      have listening' : (e.goOn (.resume r.id)).isCancelled = false := listening
      rw [listening'] at hp
      rw [listening]
      exact hp.imp_right (alarmed hlt)
  | asks kept turn listening left stage => exact h.attempt hrun turn left
  | @pauses kept left ends outcome last stage finished failed =>
    exact h.pause hrun (asking (by rw [stage]; simp)) left failed
  | ends kept turn elsewhere result noop cause =>
    have h₁ := h.elsewhere elsewhere.goOn
    cases elsewhere with
    | mk members fresh later now closed jobs alarms finished => exact h₁.finish hrun turn result
  | abandoned ofLoop aborted => exact h.abandon (begun ofLoop)

/-- Somebody's cycle starts, or is over before that. -/
theorem startRun {id : Nat} (h : InTurn (e.goOn (.start id))) : InTurn (e.startRun id) := by
  obtain ⟨other, elsewhere, run, hrun, rfl, -⟩ := h.begins id List.mem_cons_self
  unfold Engine.startRun
  split
  · exact h.takeTurn
  · have last : .start run.id ∉ e.ready := by
      have hone : (Job.start run.id :: e.ready).count (.start run.id) ≤ 1 := h.once run.id
      rw [List.count_cons_self] at hone
      exact List.count_eq_zero.1 (by omega)
    have dropped := h.drop (.inr rfl) other last
    have same : e.queue.filter (· != run.id) = e.queue := by
      refine List.filter_eq_self.2 fun id hid => ?_
      have hne : id ≠ run.id := fun heq => elsewhere (heq ▸ hid)
      simpa using hne
    rw [same] at dropped
    refine InTurn.settleRelease (dropped.record (h.known run hrun) ?_
      (fun x hx => ((h.finished x hx).2 run hrun).symm) _)
    intro r hr
    simpa using (List.mem_filter.1 hr).2

end InTurn

/-- What a job does once it is taken from the others. -/
inductive Taken (e : Engine) : Job → Engine → Prop where
  | timer {job : Job} {e' : Engine} (concerns : job.timer?.isSome = true)
      (elsewhere : Elsewhere e e') : Taken e job e'
  | start (id : Nat) : Taken e (.start id) (e.startRun id)
  | loop : Taken e .loop e.resumeLoop
  | resume {run : Run} {e' : Engine} (inFlight : run ∈ e.runs) (goes : Goes e run e') :
      Taken e (.resume run.id) e'
  /-- The cycle is not in flight any more. -/
  | stale {id : Nat} (gone : ∀ run ∈ e.runs, run.id ≠ id) : Taken e (.resume id) e

theorem InTurn.taken (h : InTurn e) (ordered : Orderly config e) {job : Job} {heeds : Bool}
    (allowed : job ∈ e.ready) :
    Taken { e with ready := e.ready.erase job } job (e.act (.turn job heeds)) := by
  cases hjob : job.timer? with
  | some timer => exact .timer (by rw [hjob]; rfl) (ordered.timer_elsewhere hjob allowed)
  | none =>
    have ordered₀ := ordered.aside (erase_aside hjob)
    cases job with
    | arm timer => cases hjob
    | fire timer => cases hjob
    | start id => exact .start id
    | loop => exact .loop
    | resume id =>
      unfold act Engine.step
      dsimp only
      split
      · next run hrun =>
        have hmem : run ∈ e.runs := List.mem_of_find?_eq_some hrun
        have hid : run.id = id := by simpa using List.find?_some hrun
        subst hid
        exact .resume hmem (ordered₀.resumeRun_goes (h.placed run hmem).turn heeds)
      · next hnone =>
        exact .stale fun run hr => by simpa using List.find?_eq_none.1 hnone run hr

end Engine

end Roster
