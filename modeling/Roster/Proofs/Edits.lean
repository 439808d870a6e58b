import Roster.Proofs.Moves

/-!
# Proofs.Edits — small changes, whatever the listener asks for

`Step` cuts operations at the points where a listener that keeps to reports comes in. A listener may also
ask for anything else, and anybody may carry out any operation at any time. `Edit` is what is left to say
then.

* `Slot.level`: how far the timers of a slot have come.
* `Edit`: one small change of the members. `Edits`: any number of them.
* `Edits.perform`, `Edits.reconcile`, `Edits.tell`: requests, cycles and the listener are made of edits.
* `Operates`: any operation, in any order. `Operates.edits`, `Operations.edits`: so are whole runs.
-/

namespace Roster

open Members Relation

/-! ## Small changes -/

/-- How far the timers of a slot have come. It grows when one is armed, takes effect or is cancelled. -/
def Slot.level (s : Slot) : Nat := 2 * s.epoch + if s.peer.pending then 0 else 1

/-- The timer that is to be heard takes effect once. -/
theorem Slot.claim?_eq_some {s s' : Slot} {epoch : Nat} (h : s.claim? epoch = some s') :
    s.level = 2 * epoch ∧ s.level < s'.level := by
  unfold claim? at h
  split at h
  · cases h
  · next hc =>
    obtain rfl := Option.some.inj h
    simp only [Bool.or_eq_true, Bool.not_eq_true', bne_iff_ne, ne_eq, not_or, Decidable.not_not,
      Bool.not_eq_false] at hc
    obtain ⟨⟨-, rfl⟩, pending⟩ := hc
    simp [level, pending]

theorem Slot.level_le (s : Slot) : s.level ≤ 2 * s.epoch + 1 := by
  unfold level
  split <;> omega

theorem Slot.le_level (s : Slot) : 2 * s.epoch ≤ s.level := Nat.le_add_right _ _

/-- A slot goes on as that of the same peer. Its record may be refreshed by one with the same key. -/
structure Slot.GoesOn (key : PeerKey) (s s' : Slot) : Prop where
  live : s'.evicted = false
  peer : s'.peer.key = s.peer.key
  record : s'.peer.record = s.peer.record ∨ s'.peer.record.key = key
  level : s.level ≤ s'.level

theorem Slot.goesOn_of_claim? {key : PeerKey} {s s' : Slot} {epoch : Nat} (live : s.evicted = false)
    (h : s.claim? epoch = some s') : s.GoesOn key s' := by
  have level := Nat.le_of_lt (claim?_eq_some h).2
  unfold claim? at h
  split at h
  · cases h
  · obtain rfl := Option.some.inj h
    exact ⟨live, rfl, .inl rfl, level⟩

/-- A failed peer that is listed again goes on, without its timer. -/
theorem Slot.goesOn_restored (m : Members) {s : Slot} (live : s.evicted = false) (record : Record) :
    s.GoesOn record.key { s.cancel with peer := m.restoredPeer s record } := by
  have peer : (m.restoredPeer s record).key = s.peer.key ∧ (m.restoredPeer s record).record = record := by
    unfold restoredPeer resetCounters
    dsimp only
    split <;> exact ⟨rfl, rfl⟩
  refine ⟨live, peer.1, .inr (congrArg Record.key peer.2), Nat.le_trans ?_ (le_level _)⟩
  have le := s.level_le
  show s.level ≤ 2 * (s.epoch + 1)
  omega

/-- One small change of the members, whatever it is part of. -/
inductive Edit (m : Members) : Members → Prop where
  /-- Something is told, counted, written or put on record, timers go off the list, time passes. -/
  | aside {m'} (slots : m'.slots = m.slots) (excluded : m'.excluded = m.excluded)
      (closed : m'.closed = m.closed) (armed : m'.armed = m.armed)
      (timers : ∀ t ∈ m'.timers, t ∈ m.timers) (history : m.history <:+ m'.history) : Edit m m'
  /-- A slot goes on. -/
  | goOn {key s s'} (tracked : m.slot? key = some s) (h : s.GoesOn key s') : Edit m (m.setSlot key s')
  /-- The timer of a slot is armed. -/
  | arm {key s} (tracked : m.slots.find? key = some s) (delay : Duration) : Edit m (m.arm key s delay)
  /-- A peer is tracked from now on. -/
  | track {record} (running : m.closed = false) (admitted : m.isExcluded record.key = false)
      (untracked : m.slots.find? record.key = none) :
      Edit m ((m.setSlot record.key (.fresh (.fresh record m.initialDelay m.now))).note
        (.tracked record.key))
  /-- The entry of a peer is detached. -/
  | detach (key : PeerKey) : Edit m { m with slots := m.slots.erase key }
  /-- A peer is given up: it joins the excluded ones, and its entry is gone. -/
  | giveUp {m'} (key : PeerKey) (excluded : m'.excluded = m.excluded.insert key ())
      (slots : ∀ k, m'.slots.find? k = if k = key then none else m.slots.find? k)
      (closed : m'.closed = m.closed) (armed : m'.armed = m.armed)
      (timers : ∀ t ∈ m'.timers, t ∈ m.timers) (history : m'.history = m.history) : Edit m m'
  /-- An exclusion is lifted. -/
  | pardon (key : PeerKey) : Edit m { m with excluded := m.excluded.erase key }
  /-- Everything is over. -/
  | close : Edit m m.close

abbrev Edits : Members → Members → Prop := ReflTransGen Edit

namespace Edits

variable {m m' : Members}

theorem note (m : Members) (what : Happening) : Edits m (m.note what) :=
  .single (.aside rfl rfl rfl rfl (fun _ => id) (List.suffix_cons _ _))

theorem write (m : Members) (remark : Remark) : Edits m (m.write remark) :=
  .single (.aside rfl rfl rfl rfl (fun _ => id) List.suffix_rfl)

theorem count (m : Members) (f : Tally → Tally) : Edits m (m.count f) :=
  .single (.aside rfl rfl rfl rfl (fun _ => id) List.suffix_rfl)

theorem dropTimer (m : Members) (id : Option Nat) : Edits m (m.dropTimer id) :=
  .single (.aside rfl rfl rfl rfl (fun _ ht => (List.mem_filter.1 ht).1) List.suffix_rfl)

/-- A listener heard or answered, and perhaps used up a reaction. -/
theorem heard (m : Members) (told : List Told) (reactions : List Reaction) :
    Edits m { m with told, reactions } :=
  .single (.aside rfl rfl rfl rfl (fun _ => id) List.suffix_rfl)

/-! ## Operations that tell nobody -/

theorem upsert (m : Members) (record : Record) : Edits m (m.upsert record).2 := by
  unfold Members.upsert
  dsimp only
  split
  · exact .refl
  · next running =>
    split
    · exact .refl
    · next admitted =>
      split
      · next untracked =>
        exact .single (.track (Bool.eq_false_iff.2 running) (Bool.eq_false_iff.2 admitted) untracked)
      · next s hs =>
        split
        · exact .refl
        · next live =>
          have live := Bool.eq_false_iff.2 live
          exact .single (.goOn (slot?_eq_some_iff.2 ⟨hs, live⟩) ⟨live, rfl, .inr rfl, Nat.le_refl _⟩)

theorem remove (m : Members) (key : PeerKey) : Edits m (m.remove key).2 := by
  unfold Members.remove
  split
  · exact .refl
  · next s hs =>
    split
    · exact .single (.detach key)
    · exact ((dropTimer m s.timer).tail (.detach key)).trans (note _ _)

theorem pardon (m : Members) (key : PeerKey) : Edits m (m.pardon key).2 :=
  .trans (.single (.pardon key)) (note _ _)

/-- A peer joins the excluded ones, and then its entry is detached. -/
theorem giveUp (m : Members) (key : PeerKey) (f : Tally → Tally) :
    Edits m (((m.exclude key).count f).discard key) := by
  cases hs : m.slots.find? key with
  | none =>
    have gone : ((m.exclude key).count f).discard key =
        Members.count { m with excluded := m.excluded.insert key () } f := by
      simp [Members.discard, Members.exclude, Members.count, hs]
    rw [gone]
    refine .single (.giveUp key rfl (fun k => ?_) rfl rfl (fun _ => id) rfl)
    split
    · next same => rw [same]; exact hs
    · rfl
  | some s =>
    have gone : ((m.exclude key).count f).discard key = Members.count { m.dropTimer s.timer with
        excluded := m.excluded.insert key ()
        slots := (m.slots.insert key s.evict).erase key } f := by
      simp only [Members.discard, Members.exclude, Members.count, hs, KeyMap.find?_insert]
      rfl
    rw [gone]
    refine .single (.giveUp key rfl (fun k => ?_) rfl rfl (fun _ ht => (List.mem_filter.1 ht).1) rfl)
    refine (KeyMap.find?_erase _ _ _).trans ?_
    split
    · rfl
    · next other => rw [KeyMap.find?_insert, if_neg other]

theorem afterFailure (m : Members) (key : PeerKey) (peer : Tracked) (delay : Duration) :
    Edits m (m.afterFailure key peer delay).2 := by
  unfold Members.afterFailure
  split
  · exact ((write m _).trans (giveUp _ key _)).trans (note _ _)
  · dsimp only
    split
    · next s hs => exact .trans (.single (.arm hs delay)) (note _ _)
    · exact note m _

/-! ## Operations that tell the listener -/

section Tell

variable {tell : Tell} (ht : ∀ notice m, Edits m (tell notice m))
include ht

theorem fail (m : Members) (key : PeerKey) : Edits m (m.fail tell key).2 := by
  unfold Members.fail
  split
  · exact .refl
  · next s hs =>
    split
    · exact .refl
    · have live := (slot?_eq_some_iff.1 hs).2
      have failed : Edits m (m.setSlot key { s with peer := (m.noteFailure s.peer).2 }) :=
        .single (.goOn hs ⟨live, rfl, .inl rfl, Nat.le_refl _⟩)
      exact ((failed.trans (ht _ _)).trans (count _ _)).trans (afterFailure _ key _ _)

theorem reconnect (m : Members) (key : PeerKey) (epoch : Nat) :
    Edits m (m.reconnect tell key epoch).2 := by
  unfold Members.reconnect
  split
  · exact .refl
  · next s' hclaim =>
    obtain ⟨s, hs, heard⟩ := Option.bind_eq_some_iff.1 hclaim
    have goes : s.GoesOn key s' := Slot.goesOn_of_claim? (slot?_eq_some_iff.1 hs).2 heard
    split
    · exact .single (.goOn hs goes)
    · have healthy : Edits m (m.setSlot key { s' with peer := { s'.peer with
          delay := m.policy.nextDelay s'.peer.delay, connectTime := m.now, failed := false } }) :=
        .single (.goOn hs ⟨goes.live, goes.peer, goes.record, goes.level⟩)
      exact healthy.trans ((((note _ _).trans (write _ _)).trans (ht _ _)).trans (count _ _))

theorem fire (m : Members) (timer : Nat) : Edits m (m.fire tell timer).2 := by
  unfold Members.fire
  split
  · exact .refl
  · exact (dropTimer m _).trans (reconnect ht _ _ _)

theorem present (m : Members) (record : Record) : Edits m (m.present tell record).2 := by
  cases hs : m.slot? record.key with
  | none =>
    simp only [Members.present, hs]
    exact .refl
  | some s =>
    have live := (slot?_eq_some_iff.1 hs).2
    by_cases hf : s.peer.failed = true
    · rw [present_of_failed hs hf]
      have back : Edits (m.dropTimer s.timer) ((m.dropTimer s.timer).setSlot record.key
          { s.cancel with peer := m.restoredPeer s record }) :=
        .single (.goOn hs (Slot.goesOn_restored m live record))
      exact ((((dropTimer m _).trans back).trans (note _ _)).trans (ht _ _)).trans (count _ _)
    · rw [present_of_healthy hs (Bool.eq_false_iff.2 hf)]
      split
      · have reset : Edits m (m.setSlot record.key
            { s with peer := m.resetCounters { s.peer with record } }) :=
          .single (.goOn hs ⟨live, rfl, .inr rfl, Nat.le_refl _⟩)
        exact reset.trans (note _ _)
      · exact .single (.goOn hs ⟨live, rfl, .inr rfl, Nat.le_refl _⟩)

theorem perform (m : Members) (request : Request) : Edits m (m.perform tell request).2 := by
  cases request with
  | upsert record => exact upsert m record
  | remove key => exact remove m key
  | fail key => exact fail ht m key
  | present record => exact present ht m record
  | pardon key => exact pardon m key
  | close => exact .single .close
  | _ => exact .refl

theorem react (m : Members) (request : Request) : Edits m (Members.react tell m request) :=
  (perform ht m request).trans (heard _ _ _)

theorem foldl_react (m : Members) (requests : List Request) :
    Edits m (requests.foldl (Members.react tell) m) := by
  induction requests generalizing m with
  | nil => exact .refl
  | cons request rest ih => exact (react ht m request).trans (ih _)

/-! ### Cycles -/

theorem withdraw (m : Members) (key : PeerKey) : Edits m (m.withdraw tell key).2 := by
  have removed := remove m key
  unfold Members.withdraw
  split
  · next heq => rwa [heq] at removed
  · next peer m' heq =>
    rw [heq] at removed
    refine removed.trans (ReflTransGen.trans ?_ (write _ _))
    split
    · exact .refl
    · exact (ht _ _).trans (count _ _)

theorem keep (m : Members) (entry : PeerKey × Record) : Edits m (Members.keep tell entry m).2 := by
  have kept := present ht m entry.2
  unfold Members.keep
  split
  · next heq =>
    rw [heq] at kept
    exact kept.trans (write _ _)
  · next heq => rwa [heq] at kept

theorem announce (m : Members) (key : PeerKey) : Edits m (m.announce tell key).2 := by
  unfold Members.announce
  split
  · exact .refl
  · split
    · exact .refl
    · exact ((ht _ _).trans (count _ _)).trans (write _ _)

theorem enrol (m : Members) (entry : PeerKey × Record) : Edits m (Members.enrol tell entry m).2 := by
  have tracked := upsert m entry.2
  unfold Members.enrol
  split
  · next heq =>
    rw [heq] at tracked
    exact tracked.trans (announce ht _ _)
  · next heq => rwa [heq] at tracked

omit ht in
theorem sweep {α : Type} {step : α → Members → Bool × Members} (h : ∀ a m, Edits m (step a m).2)
    (l : List α) (m : Members) : Edits m (Members.sweep step l m).2 := by
  induction l generalizing m with
  | nil => exact .refl
  | cons a rest ih => exact (h a m).trans (ih _)

theorem reconcile (m : Members) (candidates : KeyMap Record) :
    Edits m (Members.reconcile tell candidates m).2 := by
  have withdrawn := fun l m => sweep (fun key m => withdraw ht m key) l m
  have kept := fun l m => sweep (fun entry m => keep ht m entry) l m
  have enrolled := fun l m => sweep (fun entry m => enrol ht m entry) l m
  exact ((((note m _).trans (withdrawn _ _)).trans (kept _ _)).trans (enrolled _ _)).trans (note _ _)

end Tell

/-! ## The listener -/

theorem tellWithin : ∀ depth notice m, Edits m (Members.tellWithin depth notice m)
  | 0, _, m => heard m _ _
  | depth + 1, notice, m => by
    rw [Members.tellWithin]
    dsimp only
    split
    · exact heard m _ _
    · next reaction others _ => exact (heard m _ others).trans (foldl_react (tellWithin depth) _ _)

theorem tell (notice : Notice) (m : Members) : Edits m (Members.tell notice m) :=
  tellWithin m.reactions.length notice m

end Edits

/-! ## Runs -/

/-- An operation on the members, or time that passes. -/
inductive Operates (m : Members) : Members → Prop where
  /-- A request, from whoever. -/
  | request (request : Request) : Operates m (m.perform tell request).2
  /-- Somebody claims to be the timer of an epoch. -/
  | reconnect (key : PeerKey) (epoch : Nat) : Operates m (m.reconnect tell key epoch).2
  /-- A timer goes off. -/
  | fire (timer : Nat) : Operates m (m.fire tell timer).2
  /-- A cycle makes the candidates the tracked peers. -/
  | reconcile (candidates : KeyMap Record) : Operates m (reconcile tell candidates m).2
  /-- Time passes. -/
  | pass (time : Nat) : Operates m { m with now := time }

abbrev Operations : Members → Members → Prop := ReflTransGen Operates

/-- **Operations are made of small changes.** -/
theorem Operates.edits {m m' : Members} (h : Operates m m') : Edits m m' := by
  cases h with
  | request request => exact .perform Edits.tell m request
  | reconnect key epoch => exact .reconnect Edits.tell m key epoch
  | fire timer => exact .fire Edits.tell m timer
  | reconcile candidates => exact .reconcile Edits.tell m candidates
  | pass time => exact .single (.aside rfl rfl rfl rfl (fun _ => id) List.suffix_rfl)

theorem Operations.edits {m m' : Members} (h : Operations m m') : Edits m m' := by
  induction h with
  | refl => exact .refl
  | tail _ st ih => exact ih.trans st.edits

/-- Requests are carried out one by one. -/
def Members.carryOut (requests : List Request) (m : Members) : Members :=
  requests.foldl (fun m request => (m.perform tell request).2) m

theorem Operations.carryOut (requests : List Request) (m : Members) :
    Operations m (m.carryOut requests) := by
  induction requests generalizing m with
  | nil => exact .refl
  | cons request rest ih => exact .head (.request request) (ih _)

end Roster
