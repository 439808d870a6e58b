import Roster.Proofs.Edits

/-!
# Proofs.Epochs — a timer that is no longer heard is never heard again

* `Members.heeds`: whether the timer of an epoch is the one to be heard.
* `Follows`: slots go on from where they were, unless the peer was tracked anew, and timers that are
  off the list stay off it. `Edit.follows`: what one small change leaves behind.
* `Members.Past`: the peer has no slot, or one that has left an epoch behind. `Past.follows`: it never
  comes back to it. `Outdates`: the ways in which a timer comes to be heard no more.
* `stale_timers_do_nothing`: within one tracking of a peer, and for timers that are off the list.
* `epoch_heard_again`: a peer that is tracked anew starts with the same epochs.
-/

namespace Roster

open Members Relation

/-! ## What is heard -/

/-- The happening is that this peer is tracked from now on. -/
def Happening.tracks (key : PeerKey) : Happening → Bool
  | .tracked k => k == key
  | _ => false

namespace Members

/-- How often the peer came to be tracked. -/
def trackings (m : Members) (key : PeerKey) : Nat := m.history.countP (·.what.tracks key)

/-- The timer of this epoch is the one that the peer waits for. -/
def heeds (m : Members) (key : PeerKey) (epoch : Nat) : Bool :=
  ((m.slot? key).bind (·.claim? epoch)).isSome

theorem heeds_iff {m : Members} {key : PeerKey} {epoch : Nat} :
    m.heeds key epoch = true ↔
      ∃ s, m.slot? key = some s ∧ s.epoch = epoch ∧ s.peer.pending = true := by
  unfold heeds
  cases hs : m.slot? key with
  | none => simp
  | some s =>
    have live : s.evicted = false := (slot?_eq_some_iff.1 hs).2
    by_cases he : s.epoch = epoch <;> cases hp : s.peer.pending <;>
      simp [Slot.claim?, live, he, hp]

/-- A timer that is not to be heard changes nothing and tells nobody. -/
theorem reconnect_of_not_heeds {m : Members} {tell : Tell} {key : PeerKey} {epoch : Nat}
    (h : m.heeds key epoch = false) : m.reconnect tell key epoch = (false, m) := by
  unfold Members.reconnect
  rw [Option.isSome_eq_false_iff.1 h |> Option.isNone_iff_eq_none.1]

theorem slot?_setSlot (m : Members) (key : PeerKey) (s : Slot) (k : PeerKey) :
    (m.setSlot key s).slot? k =
      if k = key then (if s.evicted then none else some s) else m.slot? k := by
  unfold slot? setSlot
  dsimp only
  rw [KeyMap.find?_insert]
  by_cases hk : k = key
  · rw [if_pos hk, if_pos hk]
  · rw [if_neg hk, if_neg hk]

theorem slot?_erase (m : Members) (key k : PeerKey) :
    Members.slot? { m with slots := m.slots.erase key } k = if k = key then none else m.slot? k := by
  unfold slot?
  dsimp only
  rw [KeyMap.find?_erase]
  by_cases hk : k = key
  · rw [if_pos hk, if_pos hk]
  · rw [if_neg hk, if_neg hk]

end Members

/-! ## What goes on -/

/-- Slots go on from where they were, unless the peer was tracked anew. Timers that are off the list
stay off it. -/
structure Follows (m m' : Members) : Prop where
  trackings : ∀ key, m.trackings key ≤ m'.trackings key
  slot : ∀ key, m'.trackings key = m.trackings key → ∀ s', m'.slot? key = some s' →
    ∃ s, m.slot? key = some s ∧ s.level ≤ s'.level
  armed : m.armed ≤ m'.armed
  timers : ∀ t ∈ m'.timers, t ∈ m.timers ∨ m.armed ≤ t.id

namespace Follows

variable {m m' m'' : Members}

theorem refl (m : Members) : Follows m m :=
  ⟨fun _ => Nat.le_refl _, fun _ _ s' hs => ⟨s', hs, Nat.le_refl _⟩, Nat.le_refl _, fun _ ht => .inl ht⟩

theorem trans (h : Follows m m') (h' : Follows m' m'') : Follows m m'' := by
  refine ⟨fun key => Nat.le_trans (h.trackings key) (h'.trackings key), ?_,
    Nat.le_trans h.armed h'.armed, ?_⟩
  · intro key same s'' hs''
    have le := h.trackings key
    have le' := h'.trackings key
    obtain ⟨s', hs', up'⟩ := h'.slot key (by omega) s'' hs''
    obtain ⟨s, hs, up⟩ := h.slot key (by omega) s' hs'
    exact ⟨s, hs, Nat.le_trans up up'⟩
  · intro t ht
    rcases h'.timers t ht with ht | new
    · exact h.timers t ht
    · exact .inr (Nat.le_trans h.armed new)

/-- The slot of one peer goes on or is gone, unless the peer is tracked anew. -/
theorem of_slot (key : PeerKey) (others : ∀ k, k ≠ key → m'.slot? k = m.slot? k)
    (own : m'.trackings key = m.trackings key → ∀ s', m'.slot? key = some s' →
      ∃ s, m.slot? key = some s ∧ s.level ≤ s'.level)
    (history : m.history <:+ m'.history) (armed : m.armed ≤ m'.armed)
    (timers : ∀ t ∈ m'.timers, t ∈ m.timers ∨ m.armed ≤ t.id) : Follows m m' := by
  refine ⟨fun _ => history.sublist.countP_le, fun k same s' hs => ?_, armed, timers⟩
  by_cases hk : k = key
  · subst hk
    exact own same s' hs
  · exact ⟨s', others k hk ▸ hs, Nat.le_refl _⟩

end Follows

/-- **One small change follows on what was before.** -/
theorem Edit.follows {m m' : Members} (h : Edit m m') : Follows m m' := by
  cases h with
  | aside slots excluded closed armed timers history =>
    have same : ∀ key, m'.slot? key = m.slot? key := fun key => by rw [slot?, slots]; rfl
    exact ⟨fun _ => history.sublist.countP_le, fun key _ s' hs => ⟨s', same key ▸ hs, Nat.le_refl _⟩,
      Nat.le_of_eq armed.symm, fun t ht => .inl (timers t ht)⟩
  | @goOn key s s' tracked goes =>
    refine .of_slot key (fun k hk => (slot?_setSlot _ _ _ _).trans (if_neg hk)) (fun _ t ht => ?_)
      List.suffix_rfl (Nat.le_refl _) fun _ => .inl
    rw [slot?_setSlot, if_pos rfl, if_neg (by rw [goes.live]; decide)] at ht
    obtain rfl := Option.some.inj ht
    exact ⟨s, tracked, goes.level⟩
  | @arm key s tracked delay =>
    refine .of_slot key (fun k hk => (slot?_setSlot _ _ _ _).trans (if_neg hk)) (fun _ t ht => ?_)
      List.suffix_rfl (Nat.le_succ _) fun t ht => ?_
    · rw [Members.arm, slot?_setSlot, if_pos rfl] at ht
      split at ht
      · cases ht
      · next live =>
        obtain rfl := Option.some.inj ht
        refine ⟨s, slot?_eq_some_iff.2 ⟨tracked, Bool.eq_false_iff.2 live⟩, ?_⟩
        have le := s.level_le
        show s.level ≤ 2 * (s.epoch + 1 + 1) + 0
        omega
    · rcases List.mem_append.1 ht with ht | ht
      · exact .inl (List.mem_filter.1 ht).1
      · obtain rfl := List.mem_singleton.1 ht
        exact .inr (Nat.le_refl _)
  | @track record running admitted untracked =>
    refine .of_slot record.key (fun k hk => (slot?_setSlot _ _ _ _).trans (if_neg hk)) (fun same => ?_)
      (List.suffix_cons _ _) (Nat.le_refl _) fun _ => .inl
    simp [Members.trackings, Members.note, Happening.tracks, Members.setSlot] at same
  | detach key =>
    refine .of_slot key (fun k hk => (slot?_erase _ _ _).trans (if_neg hk)) (fun _ t ht => ?_)
      List.suffix_rfl (Nat.le_refl _) fun _ => .inl
    rw [slot?_erase, if_pos rfl] at ht
    cases ht
  | giveUp key excluded slots closed armed timers history =>
    refine .of_slot key (fun k hk => ?_) (fun _ t ht => ?_) (history ▸ List.suffix_rfl)
      (Nat.le_of_eq armed.symm) fun t ht => .inl (timers t ht)
    · rw [slot?, slots k, if_neg hk]
      rfl
    · rw [slot?, slots key, if_pos rfl] at ht
      cases ht
  | pardon key =>
    exact ⟨fun _ => Nat.le_refl _, fun _ _ s' hs => ⟨s', hs, Nat.le_refl _⟩, Nat.le_refl _, fun _ => .inl⟩
  | close =>
    refine ⟨fun _ => (List.suffix_cons _ _).sublist.countP_le, fun _ _ s hs => ?_, Nat.le_refl _,
      fun t ht => .inl (List.mem_filter.1 ht).1⟩
    cases hs

theorem Edits.follows {m m' : Members} (h : Edits m m') : Follows m m' := by
  induction h with
  | refl => exact .refl m
  | tail _ st ih => exact ih.trans st.follows

theorem Operations.follows {m m' : Members} (h : Operations m m') : Follows m m' := h.edits.follows

/-! ## Timers that are not heard -/

/-- An armed slot waits for the new timer. -/
theorem arm_heeds {m : Members} {key : PeerKey} {s : Slot} (live : s.evicted = false)
    (delay : Duration) : (m.arm key s delay).heeds key (s.cancel.epoch + 1) = true := by
  have armed := slot?_setSlot (m.dropTimer s.timer) key { s.cancel with
    timer := some m.armed
    epoch := s.cancel.epoch + 1
    peer := { s.cancel.peer with pending := true } } key
  rw [if_pos rfl] at armed
  have live' : s.cancel.evicted = false := live
  rw [if_neg (by rw [live']; decide)] at armed
  exact heeds_iff.2 ⟨_, armed, rfl, rfl⟩

theorem afterFailure_hands_out {m : Members} {key : PeerKey} {peer : Tracked} {delay d : Duration}
    {counted : Bool} {failures : UInt32}
    (h : (m.afterFailure key peer delay).1 = .scheduled d counted failures)
    (tracked : ((m.afterFailure key peer delay).2.slot? key).isSome = true) :
    ∃ t ∈ (m.afterFailure key peer delay).2.timers, t.key = key ∧
      t.due = Clock.after (m.afterFailure key peer delay).2.now d ∧
      (m.afterFailure key peer delay).2.heeds key t.epoch = true := by
  unfold afterFailure at h tracked ⊢
  split at h
  · cases h
  · next spared =>
    cases h
    simp only [if_neg spared] at tracked ⊢
    cases hs : m.slots.find? key with
    | none =>
      have untracked : (m.note (.scheduled key delay peer.sustained)).slot? key = none := by
        show m.slot? key = none
        rw [slot?, hs]
      simp only [hs, untracked] at tracked
      cases tracked
    | some s =>
      simp only [hs] at tracked ⊢
      have live : s.evicted = false := by
        refine Bool.eq_false_iff.2 fun evicted => ?_
        have gone : ((m.arm key s delay).note (.scheduled key delay peer.sustained)).slot? key = none :=
          (slot?_setSlot _ _ _ _).trans ((if_pos rfl).trans (if_pos evicted))
        rw [gone] at tracked
        cases tracked
      exact ⟨⟨m.armed, key, s.cancel.epoch + 1, Clock.after m.now delay⟩,
        List.mem_append_right _ List.mem_cons_self, rfl, rfl, arm_heeds live delay⟩

/-- A failure hands out a timer, and the peer waits for it. -/
theorem fail_hands_out {m : Members} {tell : Tell} {key : PeerKey} {delay : Duration} {counted : Bool}
    {failures : UInt32} (h : (m.fail tell key).1 = .scheduled delay counted failures)
    (tracked : ((m.fail tell key).2.slot? key).isSome = true) :
    ∃ t ∈ (m.fail tell key).2.timers, t.key = key ∧
      t.due = Clock.after (m.fail tell key).2.now delay ∧
      (m.fail tell key).2.heeds key t.epoch = true := by
  cases hs : m.slot? key with
  | none =>
    simp only [Members.fail, hs] at h
    cases h
  | some slot =>
    cases hf : slot.peer.failed with
    | true =>
      simp only [Members.fail, hs, hf, if_true] at h
      cases h
    | false =>
      simp only [Members.fail, hs, hf, if_neg Bool.false_ne_true] at h tracked ⊢
      exact afterFailure_hands_out h tracked

/-! ### What has been left behind -/

/-- The peer has no slot, or one that has left the epoch behind. -/
def Members.Past (m : Members) (key : PeerKey) (epoch : Nat) : Prop :=
  ∀ s, m.slot? key = some s → 2 * epoch < s.level

section Past

variable {m m' : Members} {key : PeerKey} {epoch : Nat}

/-- An epoch that was left behind is not heard. -/
theorem Members.Past.unheard (h : m.Past key epoch) : m.heeds key epoch = false := by
  refine Bool.eq_false_iff.2 fun heard => ?_
  obtain ⟨s, hs, rfl, pending⟩ := heeds_iff.1 heard
  have level : s.level = 2 * s.epoch := by simp [Slot.level, pending]
  exact absurd (h s hs) (by omega)

/-- Nor does a slot come back to it, until the peer is tracked anew. -/
theorem Members.Past.follows (h : m.Past key epoch) (follows : Follows m m')
    (same : m'.trackings key = m.trackings key) : m'.Past key epoch := by
  intro s' hs'
  obtain ⟨s, hs, le⟩ := follows.slot key same s' hs'
  exact Nat.lt_of_lt_of_le (h s hs) le

theorem past_of_gone (gone : m.slot? key = none) : m.Past key epoch := by
  intro s hs
  rw [gone] at hs
  cases hs

theorem past_setSlot {s : Slot} (level : 2 * epoch < s.level) : (m.setSlot key s).Past key epoch := by
  intro s' hs'
  rw [slot?_setSlot, if_pos rfl] at hs'
  split at hs'
  · cases hs'
  · obtain rfl := Option.some.inj hs'
    exact level

/-- An epoch that was heard and is not heard any more was left behind. -/
theorem past_of_heeds (heard : m.heeds key epoch = true) (follows : Follows m m')
    (same : m'.trackings key = m.trackings key) (unheard : m'.heeds key epoch = false) :
    m'.Past key epoch := by
  intro s' hs'
  obtain ⟨s, hs, le⟩ := follows.slot key same s' hs'
  obtain ⟨s₁, hs₁, rfl, pending⟩ := heeds_iff.1 heard
  obtain rfl := Option.some.inj (hs₁.symm.trans hs)
  have level : s₁.level = 2 * s₁.epoch := by simp [Slot.level, pending]
  -- a slot that has stood still waits for the same timer
  refine Nat.lt_of_le_of_ne (level ▸ le) fun still => ?_
  refine absurd (heeds_iff.2 ⟨s', hs', ?_⟩) (by rw [unheard]; decide)
  unfold Slot.level at still
  split at still
  · next pending' => exact ⟨by omega, pending'⟩
  · omega

/-- A timer that has gone off is left behind. -/
theorem reconnect_past (same : (m.reconnect tell key epoch).2.trackings key = m.trackings key) :
    (m.reconnect tell key epoch).2.Past key epoch ∨ m.heeds key epoch = false := by
  cases hclaim : (m.slot? key).bind (·.claim? epoch) with
  | none => exact .inr (by rw [heeds, hclaim]; rfl)
  | some s' =>
    obtain ⟨s, -, heard⟩ := Option.bind_eq_some_iff.1 hclaim
    obtain ⟨level, up⟩ := Slot.claim?_eq_some heard
    -- the slot has left the epoch behind, and whatever the listener asks for only takes it further
    have claimed : ∀ peer, peer.pending = s'.peer.pending →
        Follows (m.setSlot key { s' with peer }) (m.reconnect tell key epoch).2 →
          (m.reconnect tell key epoch).2.Past key epoch := by
      intro peer pending follows
      have level' : Slot.level { s' with peer } = s'.level := by simp only [Slot.level, pending]
      have past : (m.setSlot key { s' with peer }).Past key epoch := past_setSlot (by omega)
      exact past.follows follows same
    left
    unfold Members.reconnect at claimed ⊢
    simp only [hclaim] at claimed ⊢
    split
    · next healthy =>
      rw [if_pos healthy] at claimed
      exact claimed _ rfl (.refl _)
    · next failed =>
      rw [if_neg failed] at claimed
      refine claimed { s'.peer with
        delay := m.policy.nextDelay s'.peer.delay, connectTime := m.now, failed := false } rfl ?_
      refine Edits.follows ?_
      exact (((Edits.note _ _).trans (Edits.write _ _)).trans (Edits.tell _ _)).trans
        (Edits.count _ _)

/-- A timer that has gone off is heard no more. -/
theorem reconnect_spends (same : (m.reconnect tell key epoch).2.trackings key = m.trackings key) :
    (m.reconnect tell key epoch).2.heeds key epoch = false := by
  rcases reconnect_past same with past | unheard
  · exact past.unheard
  · rwa [reconnect_of_not_heeds unheard]

theorem remove_past (m : Members) (key : PeerKey) (epoch : Nat) : (m.remove key).2.Past key epoch := by
  refine past_of_gone ?_
  unfold Members.remove
  split
  · next none => rw [slot?, none]
  · next s hs =>
    split
    · exact (slot?_erase _ _ _).trans (if_pos rfl)
    · exact (slot?_erase (m.dropTimer s.timer) _ _).trans (if_pos rfl)

/-- A peer that is excluded has no slot. -/
theorem giveUp_past (m : Members) (key : PeerKey) (f : Tally → Tally) (epoch : Nat) :
    (((m.exclude key).count f).discard key).Past key epoch := by
  refine past_of_gone ?_
  cases hs : m.slots.find? key with
  | none => simp [Members.discard, Members.exclude, Members.count, slot?, hs]
  | some s =>
    simp [Members.discard, Members.exclude, Members.count, slot?, hs, KeyMap.find?_insert,
      KeyMap.find?_erase, Slot.evict]

/-- A slot for which another timer is armed has left the epochs up to its own behind. -/
theorem arm_past {s : Slot} (delay : Duration) (le : epoch ≤ s.epoch) :
    (m.arm key s delay).Past key epoch := by
  refine past_setSlot (Nat.lt_of_lt_of_le ?_ (Slot.le_level _))
  show 2 * epoch < 2 * (s.epoch + 1 + 1)
  omega

/-- What follows a failure leaves behind what the slot has been waiting for. -/
theorem afterFailure_past {peer : Tracked} {delay : Duration}
    (le : ∀ s, m.slot? key = some s → 2 * epoch ≤ s.level) :
    (m.afterFailure key peer delay).2.Past key epoch := by
  unfold Members.afterFailure
  split
  · exact giveUp_past _ key _ epoch
  · dsimp only
    split
    · next s hs =>
      cases live : s.evicted with
      | true =>
        have gone : (m.arm key s delay).slot? key = none :=
          (slot?_setSlot _ _ _ _).trans ((if_pos rfl).trans (if_pos live))
        exact past_of_gone gone
      | false =>
        have most := s.level_le
        have least := le s (slot?_eq_some_iff.2 ⟨hs, live⟩)
        exact arm_past delay (by omega)
    · next untracked =>
      refine past_of_gone ?_
      show m.slot? key = none
      rw [slot?, untracked]

/-- A failure leaves behind what the slot has been waiting for, whatever the listener asks for when it
hears of it. -/
theorem fail_past {s : Slot} (hs : m.slot? key = some s) (healthy : s.peer.failed = false)
    (same : (m.fail tell key).2.trackings key = m.trackings key) :
    (m.fail tell key).2.Past key s.epoch := by
  simp only [Members.fail, hs, healthy, if_neg Bool.false_ne_true] at same ⊢
  have live := (slot?_eq_some_iff.1 hs).2
  have failed : Edits m (m.setSlot key { s with peer := (m.noteFailure s.peer).2 }) :=
    .single (.goOn hs ⟨live, rfl, .inl rfl, Nat.le_refl _⟩)
  have told : Follows m ((Members.tell (.removed key)
      (m.setSlot key { s with peer := (m.noteFailure s.peer).2 })).count Tally.removed) :=
    Edits.follows ((failed.trans (Edits.tell _ _)).trans (Edits.count _ _))
  generalize (Members.tell (.removed key)
    (m.setSlot key { s with peer := (m.noteFailure s.peer).2 })).count Tally.removed = m' at told same ⊢
  have later := (Edits.follows (Edits.afterFailure m' key (m.noteFailure s.peer).2
    (m.noteFailure s.peer).1)).trackings key
  refine afterFailure_past fun s₁ hs₁ => ?_
  obtain ⟨s₀, hs₀, le⟩ := told.slot key (Nat.le_antisymm (same ▸ later) (told.trackings key)) s₁ hs₁
  obtain rfl := Option.some.inj (hs.symm.trans hs₀)
  exact Nat.le_trans s.le_level le

end Past

/-- A change after which the timer of an epoch is not to be heard any more. -/
inductive Outdates (m : Members) (key : PeerKey) (epoch : Nat) : Members → Prop where
  /-- It has gone off. -/
  | fired : Outdates m key epoch (m.reconnect tell key epoch).2
  /-- The peer is listed again, and the timer is cancelled. -/
  | restored {record : Record} {reset : Bool} (own : record.key = key)
      (answer : (m.present tell record).1 = .restored reset) :
      Outdates m key epoch (m.present tell record).2
  /-- The peer fails: another timer takes the place of this one, or the peer is excluded. -/
  | failed (answer : (m.fail tell key).1 ≠ .untracked) (answer' : (m.fail tell key).1 ≠ .alreadyFailed) :
      Outdates m key epoch (m.fail tell key).2
  /-- The peer is not tracked any more. -/
  | removed : Outdates m key epoch (m.remove key).2
  /-- No peer is tracked any more. -/
  | closed : Outdates m key epoch m.close

/-- **What cancels, supersedes or uses up a timer leaves its epoch behind.** -/
theorem Outdates.past {m m' : Members} {key : PeerKey} {epoch : Nat} (h : Outdates m key epoch m')
    (heard : m.heeds key epoch = true) (same : m'.trackings key = m.trackings key) :
    m'.Past key epoch := by
  obtain ⟨s, hs, rfl, pending⟩ := heeds_iff.1 heard
  cases h with
  | fired => exact (reconnect_past same).resolve_right (by rw [heard]; decide)
  | @restored record reset own answer =>
    subst own
    cases hf : s.peer.failed with
    | true =>
      rw [present_of_failed hs hf] at same ⊢
      have back : ((m.dropTimer s.timer).setSlot record.key
          { s.cancel with peer := m.restoredPeer s record }).Past record.key s.epoch :=
        past_setSlot (Nat.lt_of_lt_of_le (by show _ < 2 * (s.epoch + 1); omega) (Slot.le_level _))
      refine back.follows (Edits.follows ?_) same
      exact ((Edits.note _ _).trans (Edits.tell _ _)).trans (Edits.count _ _)
    | false =>
      rw [present_of_healthy hs hf] at answer
      split at answer <;> cases answer
  | failed answer answer' =>
    cases hf : s.peer.failed with
    | true =>
      simp only [Members.fail, hs, hf, if_true] at answer'
      exact absurd rfl answer'
    | false => exact fail_past hs hf same
  | removed => exact remove_past m key s.epoch
  | closed => exact past_of_gone rfl

/-- **A timer that is no longer heard does nothing.** The timer that a failure hands out is heard until
it has gone off. Once it has gone off or was cancelled, another was armed in its place, or its peer was
removed or excluded or everything closed, its epoch is not heard, and whoever presents it gets nowhere.
Whatever is done to the members in between, and whatever the listener asks for: once a peer does not
wait for the timer of an epoch any more, that epoch is never heard again, until the peer is tracked
anew. A timer that is off the list never takes effect at all. Epochs are taken never to come round, as
`Slot.epoch` says. -/
theorem stale_timers_do_nothing {m₁ m₂ m₃ : Members} (before : Operations m₁ m₂)
    (after : Operations m₂ m₃) :
    (∀ key delay counted failures, (m₁.fail tell key).1 = .scheduled delay counted failures →
      ((m₁.fail tell key).2.slot? key).isSome = true →
        ∃ t ∈ (m₁.fail tell key).2.timers, t.key = key ∧
          t.due = Clock.after (m₁.fail tell key).2.now delay ∧
          (m₁.fail tell key).2.heeds key t.epoch = true) ∧
    (∀ key epoch, (m₁.reconnect tell key epoch).2.trackings key = m₁.trackings key →
      (m₁.reconnect tell key epoch).2.heeds key epoch = false) ∧
    (∀ key epoch m, m₁.heeds key epoch = true → Outdates m₁ key epoch m →
      m.trackings key = m₁.trackings key → m.heeds key epoch = false ∧
        ∀ m', Operations m m' → m'.trackings key = m.trackings key →
          m'.reconnect tell key epoch = (false, m')) ∧
    (∀ key epoch, m₁.heeds key epoch = true → m₂.heeds key epoch = false →
      m₃.trackings key = m₁.trackings key → m₃.reconnect tell key epoch = (false, m₃)) ∧
    ∀ timer, timer < m₂.armed → (∀ t ∈ m₂.timers, t.id ≠ timer) → m₃.fire tell timer = (false, m₃) := by
  have follows := before.follows
  have follows' := after.follows
  refine ⟨fun key delay counted failures => fail_hands_out, fun key epoch => reconnect_spends, ?_, ?_,
    ?_⟩
  · intro key epoch m heard outdates same
    have past := outdates.past heard same
    exact ⟨past.unheard, fun m' later same' =>
      reconnect_of_not_heeds (past.follows later.follows same').unheard⟩
  · intro key epoch heard unheard same
    have up := follows.trackings key
    have up' := follows'.trackings key
    have past := past_of_heeds heard follows (by omega) unheard
    exact reconnect_of_not_heeds (past.follows follows' (by omega)).unheard
  · intro timer known gone
    have none : m₃.timers.find? (·.id == timer) = none := List.find?_eq_none.2 fun t ht => by
      rcases follows'.timers t ht with ht | new
      · simpa using gone t ht
      · have hne : t.id ≠ timer := by omega
        simpa using hne
    rw [Members.fire, none]

/-- A failed peer is listed again, which cancels its timer, and fails once more: the first timer does
nothing. -/
theorem first_timer_does_nothing :
    let m₁ := (Members.initial .standard (.ofMillis 1000) []).carryOut
      [.upsert (.plain "a" 0), .fail ⟨"a"⟩]
    let m₂ := m₁.carryOut [.present (.plain "a" 0)]
    let m₃ := m₂.carryOut [.fail ⟨"a"⟩]
    (m₁.timers.map (fun t => (t.id, t.epoch)) = [(0, 2)] ∧ m₁.heeds ⟨"a"⟩ 2 = true) ∧
    (m₂.timers = [] ∧ m₂.heeds ⟨"a"⟩ 2 = false) ∧
    m₃.heeds ⟨"a"⟩ 5 = true ∧
    m₃.reconnect tell ⟨"a"⟩ 2 = (false, m₃) ∧ m₃.fire tell 0 = (false, m₃) := by
  intro m₁ m₂ m₃
  have stale := stale_timers_do_nothing (Operations.carryOut [.present (.plain "a" 0)] m₁)
    (Operations.carryOut [.fail ⟨"a"⟩] m₂)
  have timers : m₂.timers = [] := by decide +kernel
  refine ⟨by decide +kernel, ⟨timers, by decide +kernel⟩, by decide +kernel, ?_, ?_⟩
  · obtain ⟨-, stays⟩ := stale.2.2.1 ⟨"a"⟩ 2 m₂ (by decide +kernel)
      (.restored rfl (show (m₁.present tell (.plain "a" 0)).1 = .restored false by decide +kernel))
      (by decide +kernel)
    exact stays m₃ (Operations.carryOut [.fail ⟨"a"⟩] m₂) (by decide +kernel)
  · refine stale.2.2.2.2 0 (by decide +kernel) fun t ht => ?_
    rw [timers] at ht
    cases ht

/-- **A peer that is tracked anew starts with the same epochs.** The timer of a peer that was removed
does nothing, until the peer is tracked again and fails again: then the epoch of the old timer is that
of the new one, and whoever presents it is heard. -/
theorem epoch_heard_again :
    let m₁ := (Members.initial .standard (.ofMillis 1000) []).carryOut
      [.upsert (.plain "a" 0), .fail ⟨"a"⟩]
    let m₂ := m₁.carryOut [.remove ⟨"a"⟩]
    let m₃ := m₂.carryOut [.upsert (.plain "a" 0), .fail ⟨"a"⟩]
    (Operations m₁ m₂ ∧ Operations m₂ m₃) ∧
    (m₁.timers.map (fun t => (t.id, t.epoch)) = [(0, 2)] ∧ m₁.heeds ⟨"a"⟩ 2 = true) ∧
    (m₂.timers = [] ∧ m₂.reconnect tell ⟨"a"⟩ 2 = (false, m₂)) ∧
    m₃.timers.map (fun t => (t.id, t.epoch)) = [(1, 2)] ∧
    (m₃.reconnect tell ⟨"a"⟩ 2).1 = true ∧
    (m₃.reconnect tell ⟨"a"⟩ 2).2.told = .notice 0 (.added (.plain "a" 0)) :: m₃.told := by
  intro m₁ m₂ m₃
  refine ⟨⟨.carryOut _ _, .carryOut _ _⟩, by decide +kernel, ⟨by decide +kernel, ?_⟩, by decide +kernel,
    by decide +kernel, by decide +kernel⟩
  exact reconnect_of_not_heeds (by decide +kernel)

end Roster
