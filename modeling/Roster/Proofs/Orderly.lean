import Roster.Proofs.Works

/-!
# Proofs.Orderly — every timer is on its way, and none is late

* `Orderly`: the members are sound and under the rules of the settings. Each timer has a job that
  can go on or an alarm that lies ahead.
* `Orderly.steps`, `Orderly.aside`: an operation on the members, and a change that concerns no timer.
* `Orderly.conclusion`, `Orderly.fireTimer`, `Orderly.armTimer`, `Orderly.wait`: what a deed may do
  besides.
* `wake_eq`, `foldl_wake_eq`, `jump_eq`: jobs that are woken, and the clock that moves on.
-/

namespace Roster

open Members Relation

namespace Engine

/-- The members are sound, and every timer is on its way. -/
structure Orderly (config : Config) (e : Engine) : Prop where
  settings : e.config = config
  sound : Sound ⟨[], e.members⟩
  polite : e.members.Polite
  policy : e.members.policy = config.policy
  delay : e.members.initialDelay = config.initialReconnectDelay
  closed : e.members.closed = !e.running
  ticks : e.now % Clock.tick = 0
  /-- No timer is late. -/
  due : ∀ t ∈ e.members.timers, e.now ≤ t.due ∧ t.due % Clock.tick = 0
  /-- Each timer has a job or an alarm. -/
  set : ∀ t ∈ e.members.timers, .arm t.id ∈ e.ready ∨ .fire t.id ∈ e.ready ∨
    ⟨t.due, .fire t.id⟩ ∈ e.alarms
  /-- A timer that goes off is due. -/
  fires : ∀ t ∈ e.members.timers, .fire t.id ∈ e.ready → t.due = e.now
  rings : ∀ t ∈ e.members.timers, ∀ a ∈ e.alarms, a.job = .fire t.id → a.due = t.due
  jobs : ∀ job ∈ e.ready, ∀ id, job.timer? = some id → id < e.members.armed
  alarms : ∀ a ∈ e.alarms, ∀ id, a.job.timer? = some id → id < e.members.armed
  ahead : ∀ a ∈ e.alarms, e.now ≤ a.due ∧ a.due % Clock.tick = 0

namespace Orderly

variable {config : Config} {e e' : Engine}

theorem open_of_running (h : Orderly config e) (running : e.running = true) :
    e.members.closed = false := by
  rw [h.closed, running]
  rfl

theorem closed_of_stopped (h : Orderly config e) (stopped : e.running = false) :
    e.members.closed = true := by
  rw [h.closed, stopped]
  rfl

/-- An operation on the members. The jobs of the timers that are left stay, and each fresh timer
gets its own. -/
theorem steps (h : Orderly config e) (st : Steps ⟨[], e.members⟩ ⟨[], e'.members⟩)
    (hconfig : e'.config = e.config) (hrunning : e'.running = e.running)
    (halarms : e'.alarms = e.alarms)
    (kept : ∀ t ∈ e'.members.timers, ∀ job ∈ e.ready, job.timer? = some t.id → job ∈ e'.ready)
    (new : ∀ job ∈ e'.ready, job ∈ e.ready ∨
      ∃ id, job = .arm id ∧ e.members.armed ≤ id ∧ id < e'.members.armed)
    (fresh : ∀ id, e.members.armed ≤ id → id < e'.members.armed → .arm id ∈ e'.ready) :
    Orderly config e' := by
  have sound := h.sound.steps st
  obtain ⟨hpolicy, hdelay, hnow, hclosed⟩ := st.fixed
  obtain ⟨harmed, htimers⟩ := st.timers
  have hnow' : e'.now = e.now := hnow
  refine ⟨hconfig.trans h.settings, sound, st.polite h.polite, hpolicy.trans h.policy,
    hdelay.trans h.delay, ?_, hnow' ▸ h.ticks, ?_, ?_, ?_, ?_, ?_, ?_, ?_⟩
  · rw [hrunning]
    exact hclosed.trans h.closed
  · intro t ht
    rw [hnow']
    rcases htimers t ht with ht | ⟨-, hdue⟩
    · exact h.due t ht
    · exact hdue
  · intro t ht
    rcases htimers t ht with hold | ⟨hid, -⟩
    · rw [halarms]
      rcases h.set t hold with hj | hj | hj
      · exact .inl (kept t ht _ hj rfl)
      · exact .inr (.inl (kept t ht _ hj rfl))
      · exact .inr (.inr hj)
    · exact .inl (fresh t.id hid (sound.fresh t ht))
  · intro t ht hf
    rw [hnow']
    have hold : .fire t.id ∈ e.ready := by
      rcases new _ hf with hf | ⟨id, hj, -⟩
      · exact hf
      · cases hj
    rcases htimers t ht with ht | ⟨hid, -⟩
    · exact h.fires t ht hold
    · exact absurd (h.jobs _ hold _ rfl) (Nat.not_lt.2 hid)
  · intro t ht a ha hj
    rw [halarms] at ha
    rcases htimers t ht with ht | ⟨hid, -⟩
    · exact h.rings t ht a ha hj
    · exact absurd (h.alarms a ha t.id (by rw [hj]; rfl)) (Nat.not_lt.2 hid)
  · intro job hjob id hid
    rcases new job hjob with hjob | ⟨id', rfl, -, hlt⟩
    · exact Nat.lt_of_lt_of_le (h.jobs job hjob id hid) harmed
    · obtain rfl := Option.some.inj hid
      exact hlt
  · intro a ha id hid
    rw [halarms] at ha
    exact Nat.lt_of_lt_of_le (h.alarms a ha id hid) harmed
  · intro a ha
    rw [halarms] at ha
    rw [hnow']
    exact h.ahead a ha

/-- An operation on the members, between jobs. -/
theorem onMembers {α : Type} {f : Members → α × Members} (h : Orderly config e)
    (st : Steps ⟨[], e.members⟩ ⟨[], (f e.members).2⟩) : Orderly config (e.onMembers f).2 := by
  refine h.steps st rfl rfl rfl (fun _ _ job hjob _ => List.mem_append_left _ hjob) ?_ ?_
  · intro job hjob
    rcases List.mem_append.1 hjob with hjob | hjob
    · exact .inl hjob
    · obtain ⟨i, hi, rfl⟩ := List.mem_map.1 hjob
      rw [List.mem_range] at hi
      exact .inr ⟨_, rfl, Nat.le_add_right _ _, by
        show _ < (f e.members).2.armed
        omega⟩
  · intro id hid hlt
    refine List.mem_append_right _ (List.mem_map.2 ⟨id - e.members.armed, List.mem_range.2 ?_, ?_⟩)
    · have hlt' : id < (f e.members).2.armed := hlt
      omega
    · rw [Nat.add_sub_cancel' hid]

theorem write (h : Orderly config e) (remark : Remark) : Orderly config (e.write remark) := by
  refine h.steps (steps_write _ _ _) rfl rfl rfl (fun _ _ _ hjob _ => hjob) (fun _ => .inl) ?_
  intro id hid hlt
  exact absurd hlt (Nat.not_lt.2 hid)

theorem count {f : Tally → Tally} (h : Orderly config e) (hf : OfCycle f) :
    Orderly config (e.count f) := by
  refine h.steps (.single (.count hf)) rfl rfl rfl (fun _ _ _ hjob _ => hjob) (fun _ => .inl) ?_
  intro id hid hlt
  exact absurd hlt (Nat.not_lt.2 hid)

theorem mem_timerJobs {job : Job} {id : Nat} (hid : job.timer? = some id) :
    job ∈ e.timerJobs ↔ job ∈ e.ready := by
  simp [timerJobs, hid]

theorem aside (h : Orderly config e) (a : Aside e e') : Orderly config e' := by
  obtain ⟨later, halarms, hlater⟩ := a.alarms
  have hm := a.members
  have hnow : e'.now = e.now := congrArg Members.now hm
  have hready : ∀ job id, job.timer? = some id → (job ∈ e'.ready ↔ job ∈ e.ready) :=
    fun job id hid => by rw [← mem_timerJobs hid, ← mem_timerJobs hid, a.jobs]
  refine ⟨a.config.trans h.settings, hm ▸ h.sound, hm ▸ h.polite, hm ▸ h.policy, hm ▸ h.delay, ?_,
    hnow ▸ h.ticks, ?_, ?_, ?_, ?_, ?_, ?_, ?_⟩
  · rw [hm, a.running, h.closed]
  · intro t ht
    rw [hm] at ht
    rw [hnow]
    exact h.due t ht
  · intro t ht
    rw [hm] at ht
    rw [hready _ t.id rfl, hready _ t.id rfl, halarms]
    rcases h.set t ht with hj | hj | hj
    · exact .inl hj
    · exact .inr (.inl hj)
    · exact .inr (.inr (List.mem_append_left _ hj))
  · intro t ht hf
    rw [hm] at ht
    rw [hnow]
    exact h.fires t ht ((hready _ t.id rfl).1 hf)
  · intro t ht b hb hj
    rw [hm] at ht
    rw [halarms] at hb
    rcases List.mem_append.1 hb with hb | hb
    · exact h.rings t ht b hb hj
    · have hnone := (hlater b hb).1
      rw [hj] at hnone
      cases hnone
  · intro job hjob id hid
    rw [hm]
    exact h.jobs job ((hready job id hid).1 hjob) id hid
  · intro b hb id hid
    rw [hm]
    rw [halarms] at hb
    rcases List.mem_append.1 hb with hb | hb
    · exact h.alarms b hb id hid
    · have both := (hlater b hb).1.symm.trans hid
      cases both
  · intro b hb
    rw [halarms] at hb
    rw [hnow]
    rcases List.mem_append.1 hb with hb | hb
    · exact h.ahead b hb
    · exact (hlater b hb).2

theorem close (h : Orderly config e) :
    Orderly config { e with running := false, members := e.members.close } := by
  have fewer : ∀ t ∈ e.members.close.timers, t ∈ e.members.timers := fun t ht =>
    (List.mem_filter.1 ht).1
  exact ⟨h.settings, h.sound.close, h.polite, h.policy, h.delay, rfl, h.ticks,
    fun t ht => h.due t (fewer t ht), fun t ht => h.set t (fewer t ht),
    fun t ht => h.fires t (fewer t ht), fun t ht => h.rings t (fewer t ht), h.jobs, h.alarms, h.ahead⟩

/-- The outcomes of cycles concern nobody. -/
theorem push (h : Orderly config e) (results : List (Nat × CycleResult)) :
    Orderly config { e with results } :=
  ⟨h.settings, h.sound, h.polite, h.policy, h.delay, h.closed, h.ticks, h.due, h.set, h.fires,
    h.rings, h.jobs, h.alarms, h.ahead⟩

theorem quiet (h : Orderly config e) (q : Quiet e e') : Orderly config e' := by
  cases q with
  | aside a => exact h.aside a
  | write remark => exact h.write remark
  | count hf => exact h.count hf
  | fruitless id result hr => exact h.push _
  | close => exact h.close

theorem quietly (h : Orderly config e) (q : Quietly e e') : Orderly config e' := by
  induction q with
  | refl => exact h
  | tail _ q ih => exact ih.quiet q

end Orderly

/-! ## Cycles -/

section Cycle

variable {config : Config} {e e' : Engine}

/-- The candidates of an answer are listed under their own keys, and none is excluded. -/
theorem found_own (e : Engine) (answer : List Record) : ∀ entry ∈ (e.found answer).1.entries,
    entry.2.key = entry.1 ∧ e.members.isExcluded entry.1 = false := by
  intro entry he
  have hmem := KeyMap.mem_of_mem_ofList he
  simp only [List.mem_filter, List.mem_map] at hmem
  obtain ⟨⟨r, -, rfl⟩, hx⟩ := hmem
  exact ⟨rfl, by simpa using hx⟩

theorem foldl_write_eq (remarks : List Remark) :
    ∃ journal, remarks.foldl write e = { e with members := { e.members with journal } } := by
  induction remarks generalizing e with
  | nil => exact ⟨_, rfl⟩
  | cons remark rest ih =>
    obtain ⟨journal, h⟩ := @ih (e.write remark)
    exact ⟨journal, h⟩

theorem briefed_eq (e : Engine) (answer : List Record) :
    ∃ journal, e.briefed answer = { e with members := { e.members with journal } } :=
  foldl_write_eq _

theorem briefed_own (e : Engine) (answer : List Record) :
    ∀ entry ∈ (e.found answer).1.entries,
      entry.2.key = entry.1 ∧ (e.briefed answer).members.isExcluded entry.1 = false := by
  obtain ⟨journal, hb⟩ := briefed_eq e answer
  rw [hb]
  exact found_own e answer

theorem Orderly.briefed (h : Orderly config e) (answer : List Record) :
    Orderly config (e.briefed answer) := h.quietly (foldl_write_quietly _)

theorem Orderly.reconcile_briefed (h : Orderly config e) (answer : List Record) :
    Steps ⟨[], (e.briefed answer).members⟩
      ⟨[], (reconcile Members.tell (e.found answer).1 (e.briefed answer).members).2⟩ :=
  reconcile_steps tell_tells (h.briefed answer).sound (h.briefed answer).polite (briefed_own e answer)

theorem Orderly.conclusion (h : Orderly config e) (id : Nat) (answer : List Record) :
    Orderly config (e.conclusion id answer) := by
  have counted := ((h.briefed answer).onMembers (h.reconcile_briefed answer)).count .cycle
  exact (counted.count (.resolved _)).push _

end Cycle

/-! ## Timers -/

section Timer

variable {config : Config} {e : Engine}

/-- A timer that is due goes off, whichever of its jobs said so. -/
theorem Orderly.fireTimer (h : Orderly config e) {job : Job} {timer : Nat}
    (hjob : job.timer? = some timer) (due : ∀ t ∈ e.members.timers, t.id = timer → t.due = e.now) :
    Steps ⟨[], e.members⟩ ⟨[], (Engine.fireTimer { e with ready := e.ready.erase job } timer).members⟩ ∧
      Orderly config (Engine.fireTimer { e with ready := e.ready.erase job } timer) := by
  obtain ⟨st, spent⟩ := fire_steps tell_tells h.sound h.polite due
  refine ⟨st, h.steps st rfl rfl rfl ?_ ?_ ?_⟩
  · intro t ht other hother hid
    have hne : other ≠ job := fun heq => spent t ht (by
      rw [heq, hjob] at hid
      exact (Option.some.inj hid).symm)
    exact List.mem_append_left _ ((List.mem_erase_of_ne hne).2 hother)
  · intro other hother
    rcases List.mem_append.1 hother with hother | hother
    · exact .inl (List.mem_of_mem_erase hother)
    · obtain ⟨i, hi, rfl⟩ := List.mem_map.1 hother
      have hi' : i < (e.members.fire Members.tell timer).2.armed - e.members.armed :=
        List.mem_range.1 hi
      refine .inr ⟨_, rfl, Nat.le_add_right _ _, ?_⟩
      show _ < (e.members.fire Members.tell timer).2.armed
      exact Nat.add_lt_of_lt_sub' hi'
  · intro id hid hlt
    have hlt' : id < (e.members.fire Members.tell timer).2.armed := hlt
    refine List.mem_append_right _ (List.mem_map.2 ⟨id - e.members.armed, List.mem_range.2 ?_, ?_⟩)
    · show id - e.members.armed < (e.members.fire Members.tell timer).2.armed - e.members.armed
      omega
    · exact congrArg Job.arm (Nat.add_sub_cancel' hid)

/-- A timer starts to wait, or goes off at once. -/
theorem Orderly.armTimer (h : Orderly config e) (timer : Nat) :
    Steps ⟨[], e.members⟩
      ⟨[], (Engine.armTimer { e with ready := e.ready.erase (.arm timer) } timer).members⟩ ∧
      Orderly config (Engine.armTimer { e with ready := e.ready.erase (.arm timer) } timer) := by
  have erased : ∀ t : Timer, t.id ≠ timer → ∀ job ∈ e.ready, job.timer? = some t.id →
      job ∈ e.ready.erase (.arm timer) := fun t hne job hjob hid => by
    refine (List.mem_erase_of_ne fun heq => hne ?_).2 hjob
    rw [heq] at hid
    exact (Option.some.inj hid).symm
  unfold Engine.armTimer
  split
  · next hnone =>
    refine ⟨.refl, h.steps .refl rfl rfl rfl ?_ (fun job hjob => .inl (List.mem_of_mem_erase hjob))
      fun id hid hlt => absurd hlt (Nat.not_lt.2 hid)⟩
    intro t ht job hjob hid
    exact erased t (by simpa using List.find?_eq_none.1 hnone t ht) job hjob hid
  · next t htimer =>
    have hmem : t ∈ e.members.timers := List.mem_of_find?_eq_some htimer
    have hid : t.id = timer := by simpa using List.find?_some htimer
    have unique : ∀ u ∈ e.members.timers, u.id = timer → u = t := fun u hu hid' =>
      List.inj_on_of_nodup_map h.sound.ids hu hmem (hid'.trans hid.symm)
    split
    · next hdue =>
      refine h.fireTimer rfl ?_
      intro u hu hid'
      rw [unique u hu hid']
      exact Nat.le_antisymm hdue (h.due t hmem).1
    · refine ⟨.refl, h.settings, h.sound, h.polite, h.policy, h.delay, h.closed, h.ticks, h.due, ?_,
        fun u hu hf => h.fires u hu (List.mem_of_mem_erase hf), ?_, fun job hjob => h.jobs job
        (List.mem_of_mem_erase hjob), ?_, ?_⟩
      · intro u hu
        by_cases hne : u.id = timer
        · rw [unique u hu hne, hid]
          exact .inr (.inr (List.mem_append_right _ List.mem_cons_self))
        · rcases h.set u hu with hj | hj | hj
          · exact .inl (erased u hne _ hj rfl)
          · exact .inr (.inl (erased u hne _ hj rfl))
          · exact .inr (.inr (List.mem_append_left _ hj))
      · intro u hu a ha hj
        rcases List.mem_append.1 ha with ha | ha
        · exact h.rings u hu a ha hj
        · obtain rfl := List.mem_singleton.1 ha
          rw [unique u hu (Job.fire.inj hj).symm]
      · intro a ha id hid'
        rcases List.mem_append.1 ha with ha | ha
        · exact h.alarms a ha id hid'
        · obtain rfl := List.mem_singleton.1 ha
          obtain rfl := Option.some.inj hid'
          exact hid ▸ h.sound.fresh t hmem
      · intro a ha
        rcases List.mem_append.1 ha with ha | ha
        · exact h.ahead a ha
        · obtain rfl := List.mem_singleton.1 ha
          exact h.due t hmem

end Timer

/-! ## Time -/

section Time

variable {config : Config} {e : Engine}

/-- A job that is woken joins the others, unless it is among them. -/
theorem wake_eq (e : Engine) (job : Job) : ∃ woken,
    e.wake job = { e with ready := e.ready ++ woken } ∧ woken.Sublist [job] ∧
      job ∈ e.ready ++ woken := by
  unfold wake
  split
  · next hc =>
    exact ⟨[], by simp, List.nil_sublist _, by simpa using List.contains_iff_mem.1 hc⟩
  · exact ⟨[job], rfl, List.Sublist.refl _, List.mem_append_right _ List.mem_cons_self⟩

theorem foldl_wake_eq {α : Type} (job : α → Job) (l : List α) (e : Engine) : ∃ woken,
    l.foldl (fun e a => e.wake (job a)) e = { e with ready := e.ready ++ woken } ∧
      woken.Sublist (l.map job) ∧ ∀ a ∈ l, job a ∈ e.ready ++ woken := by
  induction l generalizing e with
  | nil => exact ⟨[], by simp, List.nil_sublist _, by simp⟩
  | cons a rest ih =>
    obtain ⟨first, hfirst, hsub, hmem⟩ := wake_eq e (job a)
    obtain ⟨woken, heq, sub, all⟩ := ih { e with ready := e.ready ++ first }
    refine ⟨first ++ woken, ?_, ?_, ?_⟩
    · rw [List.foldl_cons, hfirst, heq]
      simp [List.append_assoc]
    · exact hsub.append sub
    · intro b hb
      rw [← List.append_assoc]
      rcases List.mem_cons.1 hb with rfl | hb
      · exact List.mem_append_left _ hmem
      · exact all b hb

/-- The clock moves on, and alarms that are due let their jobs go on. -/
theorem jump_eq (e : Engine) (time : Nat) : ∃ woken,
    e.jump time = { e with
      alarms := e.alarms.filter fun a => !decide (a.due ≤ time)
      members := { e.members with now := time }
      ready := e.ready ++ woken } ∧
    woken.Sublist ((e.alarms.filter fun a => decide (a.due ≤ time)).map (·.job)) ∧
    ∀ a ∈ e.alarms, a.due ≤ time → a.job ∈ e.ready ++ woken := by
  obtain ⟨woken, heq, sub, all⟩ := foldl_wake_eq (fun a : Alarm => a.job)
    (e.alarms.filter fun a => decide (a.due ≤ time)) { e with
      alarms := e.alarms.filter fun a => !decide (a.due ≤ time)
      members := { e.members with now := time } }
  refine ⟨woken, ?_, sub, fun a ha hdue => all a (List.mem_filter.2 ⟨ha, by simpa using hdue⟩)⟩
  rw [← heq, jump, List.partition_eq_filter_filter]
  rfl

theorem Orderly.wait (h : Orderly config e) {time : Nat} (allowed : e.Allows (.wait time)) :
    Move e.members (e.jump time).members ∧ Orderly config (e.jump time) := by
  obtain ⟨idle, later, hticks, early⟩ := allowed
  obtain ⟨woken, hjump, sub, all⟩ := jump_eq e time
  rw [idle, List.nil_append] at hjump all
  have rung : ∀ job ∈ woken, ∃ a ∈ e.alarms, a.due ≤ time ∧ a.job = job := fun job hjob => by
    obtain ⟨a, ha, hj⟩ := List.mem_map.1 (sub.subset hjob)
    obtain ⟨ha, hdue⟩ := List.mem_filter.1 ha
    exact ⟨a, ha, of_decide_eq_true hdue, hj⟩
  -- no job can go on, so each timer has an alarm
  have alarmed : ∀ t ∈ e.members.timers, ⟨t.due, .fire t.id⟩ ∈ e.alarms := fun t ht => by
    rcases h.set t ht with hj | hj | hj
    · rw [idle] at hj
      cases hj
    · rw [idle] at hj
      cases hj
    · exact hj
  have move : Move e.members { e.members with now := time } :=
    .pass time later (fun t ht => early _ (alarmed t ht)) hticks
  rw [hjump]
  refine ⟨move, h.settings, h.sound.move move, h.polite, h.policy, h.delay, h.closed, hticks, fun t
    ht => ⟨early _ (alarmed t ht), (h.due t ht).2⟩, ?_, ?_, fun t ht a ha hj => h.rings t ht a
    (List.mem_filter.1 ha).1 hj, ?_, fun a ha => h.alarms a (List.mem_filter.1 ha).1, ?_⟩
  · intro t ht
    by_cases hdue : t.due ≤ time
    · exact .inr (.inl (all _ (alarmed t ht) hdue))
    · exact .inr (.inr (List.mem_filter.2 ⟨alarmed t ht, by simpa using hdue⟩))
  · intro t ht hf
    obtain ⟨a, ha, hdue, hj⟩ := rung _ hf
    rw [← h.rings t ht a ha hj]
    exact Nat.le_antisymm hdue (early a ha)
  · intro job hjob id hid
    obtain ⟨a, ha, -, rfl⟩ := rung job hjob
    exact h.alarms a ha id hid
  · intro a ha
    obtain ⟨ha, hlater⟩ := List.mem_filter.1 ha
    exact ⟨early a ha, (h.ahead a ha).2⟩

end Time

end Engine

end Roster
