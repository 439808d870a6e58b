import Roster.Proofs.Sound

/-!
# Proofs.Moves — the operations are made of steps

* `Members.Polite`: a listener that answers notices by reporting peers failed and by nothing else.
* `Tells`: what the operations may rely on when they pass a notice on. `tell_tells`: the listener
  with its reactions meets it, however deep its reports go.
* `fail_steps`, `fire_steps`, `reconcile_steps`: the operations.
* `Members.Gone`, `Moves.of_gone`: no peer and no timer is left, and this never changes.
-/

namespace Roster

open Members Relation

/-- The listener reports peers failed and does nothing else. -/
def Members.Polite (m : Members) : Prop := ∀ r ∈ m.reactions, r.OnlyReports

theorem polite_of_plain {m : Members} (plain : m.reactions = []) : m.Polite := by
  intro r hr
  rw [plain] at hr
  cases hr

/-- A notice reaches the listener, and what follows is made of steps. -/
def Tells (tell : Tell) : Prop :=
  ∀ fs notice m, m.Polite → Steps ⟨fs, record notice m⟩ ⟨fs, tell notice m⟩

/-! ## What steps leave alone -/

/-- What follows a failure leaves the rules, the clock and the listener alone. -/
theorem afterFailure_fixed (m : Members) (key : PeerKey) (peer : Tracked) (delay : Duration) :
    let m' := (m.afterFailure key peer delay).2
    m'.policy = m.policy ∧ m'.initialDelay = m.initialDelay ∧ m'.now = m.now ∧
      m'.closed = m.closed ∧ m'.told = m.told ∧ m'.reactions = m.reactions := by
  unfold afterFailure exclude Members.discard arm
  split
  · dsimp only [count, note, write, dropTimer]
    repeat' split
    all_goals exact ⟨rfl, rfl, rfl, rfl, rfl, rfl⟩
  · split <;> exact ⟨rfl, rfl, rfl, rfl, rfl, rfl⟩

theorem Step.reactions {s s' : Situation} (st : Step s s') :
    ∀ r ∈ s'.members.reactions, r ∈ s.members.reactions := by
  cases st with
  | aside journal reactions used => exact used
  | @settle fs m key slot delay =>
    intro r hr
    rwa [(afterFailure_fixed (m.count Tally.removed) key slot.peer delay).2.2.2.2.2] at hr
  | _ => exact fun _ hr => hr

theorem Steps.reactions {s s' : Situation} (st : Steps s s') :
    ∀ r ∈ s'.members.reactions, r ∈ s.members.reactions := by
  induction st with
  | refl => exact fun _ hr => hr
  | tail _ st ih => exact fun r hr => ih r (st.reactions r hr)

theorem Steps.polite {s s' : Situation} (st : Steps s s') (h : s.members.Polite) :
    s'.members.Polite := fun r hr => h r (st.reactions r hr)

/-- A listener that answers nothing never does. -/
theorem Steps.plain {s s' : Situation} (st : Steps s s') (h : s.members.reactions = []) :
    s'.members.reactions = [] :=
  List.eq_nil_iff_forall_not_mem.2 fun r hr => by simpa [h] using st.reactions r hr

theorem Step.fixed {s s' : Situation} (st : Step s s') :
    s'.members.policy = s.members.policy ∧ s'.members.initialDelay = s.members.initialDelay ∧
      s'.members.now = s.members.now ∧ s'.members.closed = s.members.closed := by
  cases st with
  | @settle fs m key slot delay =>
    obtain ⟨h1, h2, h3, h4, -⟩ := afterFailure_fixed (m.count Tally.removed) key slot.peer delay
    exact ⟨h1, h2, h3, h4⟩
  | _ => exact ⟨rfl, rfl, rfl, rfl⟩

theorem Steps.fixed {s s' : Situation} (st : Steps s s') :
    s'.members.policy = s.members.policy ∧ s'.members.initialDelay = s.members.initialDelay ∧
      s'.members.now = s.members.now ∧ s'.members.closed = s.members.closed := by
  induction st with
  | refl => exact ⟨rfl, rfl, rfl, rfl⟩
  | tail _ st ih =>
    obtain ⟨h1, h2, h3, h4⟩ := st.fixed
    exact ⟨h1.trans ih.1, h2.trans ih.2.1, h3.trans ih.2.2.1, h4.trans ih.2.2.2⟩

/-- A timer that is armed after a step was armed before, or its id is new and it is due on a tick to
come. -/
theorem Step.timers {s s' : Situation} (st : Step s s') :
    s.members.armed ≤ s'.members.armed ∧ ∀ t ∈ s'.members.timers,
      t ∈ s.members.timers ∨
        (s.members.armed ≤ t.id ∧ s.members.now ≤ t.due ∧ t.due % Clock.tick = 0) := by
  have fewer : ∀ (m : Members) (id : Option Nat), ∀ t ∈ (m.dropTimer id).timers, t ∈ m.timers :=
    fun m id t ht => (List.mem_filter.1 ht).1
  cases st with
  | @settle fs m key slot delay =>
    unfold afterFailure exclude Members.discard
    split
    · dsimp only [count, note, write]
      repeat' split
      all_goals exact ⟨Nat.le_refl _, fun t ht => .inl (by
        first | exact ht | exact fewer _ _ t ht)⟩
    · dsimp only [count, note]
      split
      · next slot' _ =>
        refine ⟨Nat.le_succ _, ?_⟩
        intro t ht
        rcases List.mem_append.1 ht with ht | ht
        · exact .inl (fewer m slot'.timer t ht)
        · obtain rfl := List.mem_singleton.1 ht
          exact .inr ⟨Nat.le_refl _, Clock.le_after _ _, Clock.after_mod _ _⟩
      · exact ⟨Nat.le_refl _, fun t ht => .inl ht⟩
  | reconnect t armed due tracked failed => exact ⟨Nat.le_refl _, fun u hu => .inl (fewer _ _ u hu)⟩
  | withdraw tracked healthy unlisted => exact ⟨Nat.le_refl _, fun t ht => .inl (fewer _ _ t ht)⟩
  | drop tracked failed unlisted => exact ⟨Nat.le_refl _, fun t ht => .inl (fewer _ _ t ht)⟩
  | restore tracked failed listed => exact ⟨Nat.le_refl _, fun t ht => .inl (fewer _ _ t ht)⟩
  | _ => exact ⟨Nat.le_refl _, fun t ht => .inl ht⟩

theorem Steps.timers {s s' : Situation} (st : Steps s s') :
    s.members.armed ≤ s'.members.armed ∧ ∀ t ∈ s'.members.timers,
      t ∈ s.members.timers ∨
        (s.members.armed ≤ t.id ∧ s.members.now ≤ t.due ∧ t.due % Clock.tick = 0) := by
  induction st with
  | refl => exact ⟨Nat.le_refl _, fun t ht => .inl ht⟩
  | tail before st ih =>
    obtain ⟨h1, h2⟩ := st.timers
    refine ⟨Nat.le_trans ih.1 h1, ?_⟩
    intro t ht
    rcases h2 t ht with ht | ⟨hid, hdue, hticks⟩
    · exact ih.2 t ht
    · rw [Steps.fixed before |>.2.2.1] at hdue
      exact .inr ⟨Nat.le_trans ih.1 hid, hdue, hticks⟩

/-- A step puts at most one happening on record, at the present time. -/
theorem Step.history {s s' : Situation} (st : Step s s') (sound : Sound s) :
    s'.members.history = s.members.history ∨
      ∃ what, s'.members.history = ⟨s.members.now, what⟩ :: s.members.history := by
  cases st with
  | settle => exact .inr ⟨_, sound.settle_history⟩
  | reconnect t armed due tracked failed => exact .inr ⟨_, rfl⟩
  | enter candidates own => exact .inr ⟨_, rfl⟩
  | leave => exact .inr ⟨_, rfl⟩
  | withdraw tracked healthy unlisted => exact .inr ⟨_, rfl⟩
  | drop tracked failed unlisted => exact .inr ⟨_, rfl⟩
  | restore tracked failed listed => exact .inr ⟨_, rfl⟩
  | reset tracked healthy listed sustained => exact .inr ⟨_, rfl⟩
  | enlist running admitted untracked listed => exact .inr ⟨_, rfl⟩
  | _ => exact .inl rfl

/-- What is on record stays there. -/
theorem Steps.history {s s' : Situation} (st : Steps s s') (sound : Sound s) :
    ∃ extra, s'.members.history = extra ++ s.members.history := by
  induction st with
  | refl => exact ⟨[], rfl⟩
  | tail before st ih =>
    obtain ⟨extra, he⟩ := ih
    rcases st.history (sound.steps before) with same | ⟨what, more⟩
    · exact ⟨extra, same.trans he⟩
    · exact ⟨_ :: extra, by rw [more, he, List.cons_append]⟩

/-- What the listener was told stays told. -/
theorem Step.told {s s' : Situation} (st : Step s s') :
    s'.members.told = s.members.told ∨ ∃ x, s'.members.told = x :: s.members.told := by
  cases st with
  | reply reply => exact .inr ⟨_, rfl⟩
  | fail tracked healthy => exact .inr ⟨_, rfl⟩
  | @settle fs m key slot delay =>
    exact .inl (afterFailure_fixed (m.count Tally.removed) key slot.peer delay).2.2.2.2.1
  | reconnect t armed due tracked failed => exact .inr ⟨_, rfl⟩
  | withdraw tracked healthy unlisted => exact .inr ⟨_, rfl⟩
  | restore tracked failed listed => exact .inr ⟨_, rfl⟩
  | enlist running admitted untracked listed => exact .inr ⟨_, rfl⟩
  | _ => exact .inl rfl

theorem Steps.told {s s' : Situation} (st : Steps s s') :
    ∃ more, s'.members.told = more ++ s.members.told := by
  induction st with
  | refl => exact ⟨[], rfl⟩
  | tail before st ih =>
    obtain ⟨more, hm⟩ := ih
    rcases st.told with same | ⟨x, hx⟩
    · exact ⟨more, same.trans hm⟩
    · exact ⟨x :: more, by rw [hx, hm, List.cons_append]⟩

theorem Moves.history {m m' : Members} (mv : Moves m m') (sound : Sound ⟨[], m⟩) :
    ∃ extra, m'.history = extra ++ m.history := by
  induction mv with
  | refl => exact ⟨[], rfl⟩
  | tail before mv ih =>
    obtain ⟨extra, he⟩ := ih
    cases mv with
    | work st =>
      obtain ⟨more, hm⟩ := st.history (sound.moves before)
      exact ⟨more ++ extra, by rw [List.append_assoc, ← he]; exact hm⟩
    | pass time later due ticks => exact ⟨extra, he⟩
    | pardon key => exact ⟨_ :: extra, congrArg (List.cons _) he⟩
    | close => exact ⟨_ :: extra, congrArg (List.cons _) he⟩

/-! ## Once everything is over -/

/-- The notice in an entry of the listener's record, with its time. -/
def Told.notice? : Told → Option (Nat × Notice)
  | .notice time n => some (time, n)
  | .reply _ => none

/-- The notices so far, latest first. -/
def Members.notices (m : Members) : List (Nat × Notice) := m.told.filterMap Told.notice?

/-- No peer and no timer is left, and none is accepted any more. -/
structure Members.Gone (m : Members) : Prop where
  closed : m.closed = true
  nobody : ∀ key, m.slots.find? key = none
  timers : m.timers = []

theorem Sound.gone {m : Members} (h : Sound ⟨[], m⟩) (closed : m.closed = true) : m.Gone := by
  refine ⟨closed, h.closed closed, List.eq_nil_iff_forall_not_mem.2 fun t ht => ?_⟩
  obtain ⟨slot, w⟩ := h.held ht
  have none := h.closed closed t.key
  rw [w.tracked] at none
  cases none

/-- Once everything is over, nothing becomes of any peer: nobody is told anything, no timer is
armed. -/
theorem Step.of_gone {s s' : Situation} (sound : Sound s) (h : s.members.Gone) (st : Step s s') :
    s'.members.Gone ∧ s'.members.armed = s.members.armed ∧
      s'.members.notices = s.members.notices := by
  have nobody : ∀ {key slot}, s.members.slots.find? key ≠ some slot := fun {key slot} hs => by
    rw [h.nobody key] at hs
    cases hs
  cases st with
  | fail tracked healthy => exact absurd tracked nobody
  | @settle fs m key slot delay =>
    exact absurd (sound.failing key slot delay List.mem_cons_self).1 nobody
  | reconnect t armed due tracked failed => exact absurd tracked nobody
  | withdraw tracked healthy unlisted => exact absurd tracked nobody
  | drop tracked failed unlisted => exact absurd tracked nobody
  | restore tracked failed listed => exact absurd tracked nobody
  | reset tracked healthy listed sustained => exact absurd tracked nobody
  | refresh tracked listed => exact absurd tracked nobody
  | enlist running admitted untracked listed =>
    exact absurd (running.symm.trans h.closed) (by decide)
  | _ => exact ⟨⟨h.closed, h.nobody, h.timers⟩, rfl, rfl⟩

theorem Steps.of_gone {s s' : Situation} (sound : Sound s) (h : s.members.Gone)
    (st : Steps s s') : s'.members.Gone ∧ s'.members.armed = s.members.armed ∧
      s'.members.notices = s.members.notices := by
  induction st with
  | refl => exact ⟨h, rfl, rfl⟩
  | tail before st ih =>
    obtain ⟨gone, armed, notices⟩ := st.of_gone (sound.steps before) ih.1
    exact ⟨gone, armed.trans ih.2.1, notices.trans ih.2.2⟩

theorem Moves.of_gone {m m' : Members} (sound : Sound ⟨[], m⟩) (h : m.Gone) (mv : Moves m m') :
    m'.Gone ∧ m'.armed = m.armed ∧ m'.notices = m.notices := by
  induction mv with
  | refl => exact ⟨h, rfl, rfl⟩
  | tail before mv ih =>
    obtain ⟨gone, armed, notices⟩ := ih
    cases mv with
    | work st =>
      obtain ⟨gone', armed', notices'⟩ := st.of_gone (sound.moves before) gone
      exact ⟨gone', armed'.trans armed, notices'.trans notices⟩
    | pass time later due ticks => exact ⟨⟨gone.closed, gone.nobody, gone.timers⟩, armed, notices⟩
    | pardon key => exact ⟨⟨gone.closed, gone.nobody, gone.timers⟩, armed, notices⟩
    | close => exact ⟨⟨rfl, fun _ => rfl, List.filter_eq_nil_iff.2 (by simp [gone.timers])⟩, armed, notices⟩

/-! ## Small facts about the operations -/

theorem slot?_eq_some_iff {m : Members} {key : PeerKey} {slot : Slot} :
    m.slot? key = some slot ↔ m.slots.find? key = some slot ∧ slot.evicted = false := by
  unfold slot?
  split
  · next s hs =>
    rw [hs]
    by_cases he : s.evicted = true
    · rw [if_pos he]
      refine ⟨fun h => (by cases h), ?_⟩
      rintro ⟨h1, h2⟩
      rw [← Option.some.inj h1, he] at h2
      cases h2
    · rw [if_neg he]
      exact ⟨fun h => ⟨h, Option.some.inj h ▸ Bool.eq_false_iff.2 he⟩, fun h => h.1⟩
  · next hs => simp [hs]

/-- A copy of every tracked peer, if no slot is evicted. -/
theorem snapshot_of_live {m : Members} (live : ∀ e ∈ m.slots.entries, e.2.evicted = false) :
    m.snapshot = m.slots.entries.map (·.2.peer) := by
  rw [snapshot, ← List.filterMap_eq_map]
  refine List.filterMap_congr fun e he => ?_
  rw [live e he]
  rfl

/-- Peers under their own keys are listed by the keys of the map. -/
theorem snapshot_keys_of_own {m : Members}
    (own : ∀ e ∈ m.slots.entries, e.2.evicted = false ∧ e.2.peer.key = e.1) :
    m.snapshot.map (·.key) = m.slots.keys := by
  rw [snapshot_of_live fun e he => (own e he).1, List.map_map]
  exact List.map_congr_left fun e he => (own e he).2

/-- Every tracked peer can be found. -/
theorem Sound.find?_eq {s : Situation} (h : Sound s) (key : PeerKey) :
    s.members.find? key = (s.members.slots.find? key).map (·.peer) := by
  unfold Members.find?
  cases hs : s.members.slots.find? key with
  | none => simp [slot?, hs]
  | some slot => rw [slot?_eq_some_iff.2 ⟨hs, (h.own key slot hs).1⟩]

theorem Sound.find?_eq_some_iff {s : Situation} (h : Sound s) {key : PeerKey} {peer : Tracked} :
    s.members.find? key = some peer ↔
      ∃ slot, s.members.slots.find? key = some slot ∧ slot.peer = peer := by
  rw [h.find?_eq, Option.map_eq_some_iff]

/-- A line in the log is a step. -/
theorem steps_write (fs : List Frame) (m : Members) (remark : Remark) :
    Steps ⟨fs, m⟩ ⟨fs, m.write remark⟩ :=
  .single (.aside (remark :: m.journal) m.reactions fun _ hr => hr)

/-! ## The listener -/

section Fail

variable {tell : Tell}

theorem fail_steps (ht : Tells tell) (fs : List Frame) {m : Members} (hp : m.Polite)
    (key : PeerKey) : Steps ⟨fs, m⟩ ⟨fs, (m.fail tell key).2⟩ := by
  unfold Members.fail
  split
  · exact .refl
  · next slot hslot =>
    obtain ⟨hs, -⟩ := slot?_eq_some_iff.1 hslot
    split
    · exact .refl
    · next hh =>
      have st : Steps ⟨fs, m⟩ _ := .single (.fail hs (Bool.eq_false_iff.2 hh))
      exact (st.trans (ht _ _ _ hp)).tail .settle

theorem react_steps (ht : Tells tell) (fs : List Frame) {m : Members} (hp : m.Polite)
    (key : PeerKey) : Steps ⟨fs, m⟩ ⟨fs, react tell m (.fail key)⟩ :=
  (fail_steps ht fs hp key).tail (.reply _)

theorem foldl_react_steps (ht : Tells tell) (fs : List Frame) {requests : List Request}
    (hr : ∀ request ∈ requests, ∃ key, request = .fail key) {m : Members} (hp : m.Polite) :
    Steps ⟨fs, m⟩ ⟨fs, requests.foldl (react tell) m⟩ := by
  induction requests generalizing m with
  | nil => exact .refl
  | cons request rest ih =>
    obtain ⟨key, rfl⟩ := hr request List.mem_cons_self
    have st := react_steps ht fs hp key
    exact st.trans (ih (fun q hq => hr q (List.mem_cons_of_mem _ hq)) (st.polite hp))

end Fail

theorem mem_of_takeReaction {notice : Notice} {reactions : List Reaction} {r : Reaction}
    {others : List Reaction} (h : takeReaction notice reactions = some (r, others)) :
    r ∈ reactions ∧ ∀ q ∈ others, q ∈ reactions := by
  induction reactions generalizing others with
  | nil => cases h
  | cons a rest ih =>
    rw [takeReaction] at h
    split at h
    · obtain ⟨rfl, rfl⟩ := Prod.ext_iff.1 (Option.some.inj h)
      exact ⟨List.mem_cons_self, fun q hq => List.mem_cons_of_mem _ hq⟩
    · obtain ⟨⟨r', others'⟩, h', e⟩ := Option.map_eq_some_iff.1 h
      obtain ⟨rfl, rfl⟩ := Prod.ext_iff.1 e
      obtain ⟨h1, h2⟩ := ih h'
      refine ⟨List.mem_cons_of_mem _ h1, ?_⟩
      intro q hq
      rcases List.mem_cons.1 hq with rfl | hq
      · exact List.mem_cons_self
      · exact List.mem_cons_of_mem _ (h2 q hq)

/-- A reaction is used up, and its reports are carried out with notices one level less deep. -/
theorem tellWithin_tells : ∀ depth, Tells (tellWithin depth)
  | 0 => fun _ _ _ _ => .refl
  | depth + 1 => fun fs notice m hp => by
    rw [tellWithin]
    dsimp only
    split
    · exact .refl
    · next r others hr =>
      obtain ⟨h1, h2⟩ := mem_of_takeReaction hr
      have st : Steps ⟨fs, record notice m⟩ _ := .single (.aside m.journal others h2)
      exact st.trans (foldl_react_steps (tellWithin_tells depth) fs (hp r h1)
        fun q hq => hp q (h2 q hq))

theorem tell_tells : Tells Members.tell := fun fs notice m hp =>
  tellWithin_tells m.reactions.length fs notice m hp

/-! ## Timers -/

/-- The slot of a peer that waits accepts its timer. -/
theorem Waiting.claim? {s : Situation} {key : PeerKey} {slot : Slot} {t : Timer}
    (w : Waiting s key slot t) (he : slot.evicted = false) :
    slot.claim? t.epoch = some { slot with timer := none, peer := { slot.peer with pending := false } } := by
  simp [Slot.claim?, he, w.epoch, w.pending]

/-- A timer that is due brings its peer back, and is spent. -/
theorem fire_steps {tell : Tell} (ht : Tells tell) {m : Members} (h : Sound ⟨[], m⟩)
    (hp : m.Polite) {timer : Nat} (due : ∀ t ∈ m.timers, t.id = timer → t.due = m.now) :
    Steps ⟨[], m⟩ ⟨[], (m.fire tell timer).2⟩ ∧ ∀ t ∈ (m.fire tell timer).2.timers, t.id ≠ timer := by
  unfold fire
  split
  · next htimer =>
    exact ⟨.refl, fun t ht => by simpa using List.find?_eq_none.1 htimer t ht⟩
  · next t htimer =>
    have hmem : t ∈ m.timers := List.mem_of_find?_eq_some htimer
    have hid : t.id = timer := by simpa using List.find?_some htimer
    obtain ⟨slot, w⟩ := h.held hmem
    have he : slot.evicted = false := (h.own _ _ w.tracked).1
    have hslot : (m.dropTimer (some timer)).slot? t.key = some slot :=
      slot?_eq_some_iff.2 ⟨w.tracked, he⟩
    subst hid
    simp only [Members.reconnect, hslot, Option.bind_some, w.claim? he, w.failed, Bool.not_true,
      Bool.false_eq_true, if_false]
    have log := steps_write [] m (.reconnecting t.key (m.policy.nextDelay slot.peer.delay))
    have back : Step ⟨[], m.write (.reconnecting t.key (m.policy.nextDelay slot.peer.delay))⟩ _ :=
      .reconnect t hmem (due t hmem rfl) w.tracked w.failed
    have rest : ∀ m' : Members, m'.Polite → Steps ⟨[.reconnecting], record (.added slot.peer.record) m'⟩
        ⟨[], (tell (.added slot.peer.record) m').count Tally.reconnect⟩ :=
      fun m' hp' => (ht _ _ m' hp').tail .reconnected
    refine ⟨(log.tail back).trans (rest _ hp), ?_⟩
    intro u hu
    rcases (rest _ (by exact hp)).timers.2 u hu with hu | ⟨hid, -⟩
    · simpa using (List.mem_filter.1 hu).2
    · exact Nat.ne_of_gt (Nat.lt_of_lt_of_le (h.fresh t hmem) hid)

/-! ## Cycles -/

section Cycle

variable {tell : Tell} {candidates : KeyMap Record}

theorem withdraw_steps (ht : Tells tell) {m : Members} (h : Sound ⟨[.cycling candidates], m⟩)
    (hp : m.Polite) {key : PeerKey} (hk : candidates.find? key = none) :
    Steps ⟨[.cycling candidates], m⟩ ⟨[.cycling candidates], (withdraw tell key m).2⟩ := by
  unfold withdraw Members.remove
  cases hs : m.slots.find? key with
  | none => exact .refl
  | some slot =>
    simp only [(h.own _ _ hs).1, Bool.false_eq_true, if_false]
    by_cases hf : slot.peer.failed = true
    · have hf' : slot.evict.peer.failed = true := hf
      simp only [hf', if_true]
      exact (ReflTransGen.single (.drop hs hf hk)).trans (steps_write _ _ _)
    · have hf' : ¬ slot.evict.peer.failed = true := hf
      simp only [hf']
      have st := Step.withdraw hs (Bool.eq_false_iff.2 hf) hk
      exact (((ReflTransGen.single st).trans (ht _ _ _ hp)).tail .withdrawn).trans
        (steps_write _ _ _)

/-- A failed peer that is still listed. -/
theorem present_of_failed {m : Members} {r : Record} {slot : Slot} (hs : m.slot? r.key = some slot)
    (hf : slot.peer.failed = true) :
    m.present tell r = (.restored slot.peer.sustained,
      (tell (.added r) (((m.dropTimer slot.timer).setSlot r.key
        { slot.cancel with peer := m.restoredPeer slot r }).note
          (.restored r.key slot.peer.sustained))).count Tally.added) := by
  cases hsus : slot.peer.sustained <;>
    simp [present, hs, hf, restoredPeer, Slot.cancel, hsus, resetCounters, dropTimer]

/-- A healthy peer that is still listed. -/
theorem present_of_healthy {m : Members} {r : Record} {slot : Slot}
    (hs : m.slot? r.key = some slot) (hf : slot.peer.failed = false) :
    m.present tell r =
      if m.policy.isSustained (m.connectedFor slot.peer) &&
          (0 < slot.peer.failures || slot.peer.delay != m.policy.initialDelay) then
        (.reset, (m.setSlot r.key
          { slot with peer := m.resetCounters { slot.peer with record := r } }).note (.reset r.key))
      else (.steady, m.setSlot r.key { slot with peer := { slot.peer with record := r } }) := by
  simp only [present, hs, hf, Bool.false_eq_true, if_false]
  rfl

theorem present_steps (ht : Tells tell) {m : Members} (hp : m.Polite) {r : Record}
    (hr : candidates.find? r.key = some r) :
    Steps ⟨[.cycling candidates], m⟩ ⟨[.cycling candidates], (m.present tell r).2⟩ := by
  cases hslot : m.slot? r.key with
  | none =>
    simp only [present, hslot]
    exact .refl
  | some slot =>
    obtain ⟨hs, -⟩ := slot?_eq_some_iff.1 hslot
    by_cases hf : slot.peer.failed = true
    · rw [present_of_failed hslot hf]
      have st := Step.restore hs hf hr
      exact ((ReflTransGen.single st).trans (ht _ _ _ hp)).tail .announced
    · rw [present_of_healthy hslot (Bool.eq_false_iff.2 hf)]
      split
      · next hc =>
        exact .single (.reset hs (Bool.eq_false_iff.2 hf) hr (Bool.and_eq_true_iff.1 hc).1)
      · exact .single (.refresh hs hr)

theorem keep_steps (ht : Tells tell) {m : Members} (hp : m.Polite) {e : PeerKey × Record}
    (hr : candidates.find? e.2.key = some e.2) :
    Steps ⟨[.cycling candidates], m⟩ ⟨[.cycling candidates], (keep tell e m).2⟩ := by
  have st := present_steps ht hp hr
  unfold keep
  split
  · next reset m' he => exact (show _ = m' from congrArg Prod.snd he) ▸ st.trans (steps_write _ _ _)
  · next outcome m' _ he => exact (show _ = m' from congrArg Prod.snd he) ▸ st

/-- A record that is not tracked yet. -/
theorem upsert_of_untracked {m : Members} {r : Record} (hc : m.closed = false)
    (hx : m.isExcluded r.key = false) (hs : m.slots.find? r.key = none) :
    m.upsert r = (.inserted (.fresh r m.initialDelay m.now),
      (m.setSlot r.key (.fresh (.fresh r m.initialDelay m.now))).note (.tracked r.key)) := by
  simp [upsert, hc, hx, hs]

/-- A record that is tracked. -/
theorem upsert_of_tracked {m : Members} {r : Record} {slot : Slot} (hc : m.closed = false)
    (hx : m.isExcluded r.key = false) (hs : m.slots.find? r.key = some slot)
    (he : slot.evicted = false) :
    m.upsert r = (.updated { slot.peer with record := r },
      m.setSlot r.key { slot with peer := { slot.peer with record := r } }) := by
  simp [upsert, hc, hx, hs, he]

/-- A newly tracked peer is announced. -/
theorem announce_fresh {m : Members} {r : Record} :
    ((m.setSlot r.key (.fresh (.fresh r m.initialDelay m.now))).note (.tracked r.key)).announce tell
      r.key = (true, ((tell (.added r) ((m.setSlot r.key (.fresh (.fresh r m.initialDelay m.now))).note
        (.tracked r.key))).count Tally.added).write (.added r.key)) := by
  have hslot : ((m.setSlot r.key (.fresh (.fresh r m.initialDelay m.now))).note
      (.tracked r.key)).slot? r.key = some (.fresh (.fresh r m.initialDelay m.now)) :=
    slot?_eq_some_iff.2 ⟨(KeyMap.find?_insert _ _ _ _).trans (if_pos rfl), rfl⟩
  unfold announce
  rw [hslot]
  rfl

theorem enrol_steps (ht : Tells tell) {m : Members} (hp : m.Polite) {e : PeerKey × Record}
    (hk : e.2.key = e.1) (hr : candidates.find? e.2.key = some e.2) :
    Steps ⟨[.cycling candidates], m⟩ ⟨[.cycling candidates], (enrol tell e m).2⟩ := by
  unfold enrol
  rw [← hk]
  by_cases hc : m.closed = true
  · rw [show m.upsert e.2 = (.closed, m) by simp [upsert, hc]]
  · by_cases hx : m.isExcluded e.2.key = true
    · rw [show m.upsert e.2 = (.excluded, m) by simp [upsert, hc, hx]]
    · replace hc := Bool.eq_false_iff.2 hc
      replace hx := Bool.eq_false_iff.2 hx
      cases hs : m.slots.find? e.2.key with
      | none =>
        rw [upsert_of_untracked hc hx hs]
        dsimp only
        rw [announce_fresh]
        have st := Step.enlist hc hx hs hr
        exact (((ReflTransGen.single st).trans (ht _ _ _ hp)).tail .announced).trans
          (steps_write _ _ _)
      | some slot =>
        by_cases he : slot.evicted = true
        · rw [show m.upsert e.2 = (.closed, m) by simp [upsert, hc, hx, hs, he]]
        · rw [upsert_of_tracked hc hx hs (Bool.eq_false_iff.2 he)]
          exact .single (.refresh hs hr)

/-- Elements that each take steps, one after the other. -/
theorem sweep_steps {α : Type} {fs : List Frame} {f : α → Members → Bool × Members} {l : List α}
    (step : ∀ a ∈ l, ∀ m, Sound ⟨fs, m⟩ → m.Polite → Steps ⟨fs, m⟩ ⟨fs, (f a m).2⟩) {m : Members}
    (h : Sound ⟨fs, m⟩) (hp : m.Polite) : Steps ⟨fs, m⟩ ⟨fs, (sweep f l m).2⟩ := by
  induction l generalizing m with
  | nil => exact .refl
  | cons a rest ih =>
    have st := step a List.mem_cons_self m h hp
    exact st.trans (ih (fun b hb => step b (List.mem_cons_of_mem _ hb)) (h.steps st) (st.polite hp))

/-- What a reconciliation does once it has set out. -/
theorem reconcile_steps_from (ht : Tells tell) {m : Members} (h : Sound ⟨[], m⟩) (hp : m.Polite)
    (own : ∀ e ∈ candidates.entries, e.2.key = e.1 ∧ m.isExcluded e.1 = false) :
    Steps ⟨[.cycling candidates], m.note (.resolved candidates)⟩
      ⟨[], (reconcile tell candidates m).2⟩ := by
  have hfind : ∀ e ∈ candidates.entries, candidates.find? e.2.key = some e.2 := fun e he => by
    rw [(own e he).1]
    exact KeyMap.find?_eq_some_iff.2 he
  have h₀ := h.step (.enter candidates own)
  have withdrawn := sweep_steps (f := withdraw tell)
    (l := (m.snapshot.map (·.key)).filter fun k => !candidates.contains k)
    (fun key hk m' h' hp' => withdraw_steps ht h' hp'
      (by simpa [KeyMap.contains] using (List.mem_filter.1 hk).2)) h₀ hp
  have kept := sweep_steps (f := keep tell)
    (l := candidates.entries.filter fun e => (m.snapshot.map (·.key)).contains e.1)
    (fun e he m' h' hp' => keep_steps ht hp' (hfind e (List.mem_filter.1 he).1))
    (h₀.steps withdrawn) (withdrawn.polite hp)
  have enrolled := sweep_steps (f := enrol tell)
    (l := candidates.entries.filter fun e => !(m.snapshot.map (·.key)).contains e.1)
    (fun e he m' h' hp' => enrol_steps ht hp' (own e (List.mem_filter.1 he).1).1
      (hfind e (List.mem_filter.1 he).1))
    ((h₀.steps withdrawn).steps kept) (kept.polite (withdrawn.polite hp))
  exact ((withdrawn.trans kept).trans enrolled).tail .leave

theorem reconcile_steps (ht : Tells tell) {m : Members} (h : Sound ⟨[], m⟩) (hp : m.Polite)
    (own : ∀ e ∈ candidates.entries, e.2.key = e.1 ∧ m.isExcluded e.1 = false) :
    Steps ⟨[], m⟩ ⟨[], (reconcile tell candidates m).2⟩ :=
  .head (.enter candidates own) (reconcile_steps_from ht h hp own)

/-- A reconciliation is on record. -/
theorem reconcile_history (ht : Tells tell) {m : Members} (h : Sound ⟨[], m⟩) (hp : m.Polite)
    (own : ∀ e ∈ candidates.entries, e.2.key = e.1 ∧ m.isExcluded e.1 = false) :
    ∃ extra, (reconcile tell candidates m).2.history =
      extra ++ ⟨m.now, .resolved candidates⟩ :: m.history :=
  (reconcile_steps_from ht h hp own).history (h.step (.enter candidates own))

end Cycle

end Roster
