import Roster.Proofs.Moves

/-!
# Proofs.Outline — of a record only its key decides anything

* `Record.outline`: a record of which only the key is left. `Members.outline`: the members with every
  record so reduced, also in what was told, what is on record and what the listener will ask.
* `KeyMap.map`: the same keys with other values. `KeyMap.ext_find?`: a map is what it finds.
* `Impartial`: a listener that goes by the keys alone. `tell_impartial`: the listener with its reactions
  is one.
* `outline_fail`, `outline_present`, `outline_reconcile`: each operation does to the outline what it does
  to the members, and answers the same.
-/

namespace Roster

open Members

/-! ## Maps -/

namespace KeyMap

variable {α β : Type}

/-- A map is what it finds. -/
theorem ext_find? {m m' : KeyMap α} (h : ∀ k, m.find? k = m'.find? k) : m = m' := by
  have nodup : ∀ m : KeyMap α, m.entries.Nodup := fun m => List.Nodup.of_map _ m.keys_nodup
  have perm : m.entries.Perm m'.entries :=
    (List.perm_ext_iff_of_nodup (nodup m) (nodup m')).2 fun e => by
      rw [← find?_eq_some_iff, ← find?_eq_some_iff, h]
  have same : m.entries = m'.entries := perm.eq_of_pairwise
    (fun a b _ _ hab hba => absurd (PeerKey.lt_trans hab hba) (PeerKey.lt_irrefl a.1))
    m.ascending m'.ascending
  cases m
  cases m'
  cases same
  rfl

/-- The same keys with other values. -/
def map (f : α → β) (m : KeyMap α) : KeyMap β :=
  ⟨m.entries.map fun e => (e.1, f e.2), by
    rw [Ascending, List.pairwise_map]
    exact m.ascending⟩

theorem find?_map (f : α → β) (m : KeyMap α) (k : PeerKey) : (m.map f).find? k = (m.find? k).map f := by
  obtain ⟨l, hl⟩ := m
  simp only [map, find?]
  induction l with
  | nil => rfl
  | cons e rest ih =>
    rw [List.map_cons, lookup, lookup]
    split
    · rfl
    · exact ih (List.pairwise_cons.1 hl).2

theorem contains_map (f : α → β) (m : KeyMap α) (k : PeerKey) :
    (m.map f).contains k = m.contains k := by
  rw [contains, find?_map, Option.isSome_map, contains]

theorem map_insert (f : α → β) (m : KeyMap α) (k : PeerKey) (v : α) :
    (m.insert k v).map f = (m.map f).insert k (f v) := by
  refine ext_find? fun k' => ?_
  rw [find?_map, find?_insert, find?_insert, find?_map]
  split <;> rfl

theorem map_erase (f : α → β) (m : KeyMap α) (k : PeerKey) :
    (m.erase k).map f = (m.map f).erase k := by
  refine ext_find? fun k' => ?_
  rw [find?_map, find?_erase, find?_erase, find?_map]
  split <;> rfl

end KeyMap

/-! ## Outlines -/

/-- What is left of a record when only its key counts. -/
def Record.outline (r : Record) : Record := .plain r.key.text 0

@[simp] theorem Record.key_outline (r : Record) : r.outline.key = r.key := rfl

def Tracked.outline (peer : Tracked) : Tracked := { peer with record := peer.record.outline }

def Slot.outline (slot : Slot) : Slot := { slot with peer := slot.peer.outline }

def Notice.outline : Notice → Notice
  | added record => .added record.outline
  | removed key => .removed key

def Upsert.outline : Upsert → Upsert
  | inserted peer => .inserted peer.outline
  | updated peer => .updated peer.outline
  | excluded => .excluded
  | closed => .closed

def Request.outline : Request → Request
  | upsert record => .upsert record.outline
  | present record => .present record.outline
  | request => request

def Reply.outline : Reply → Reply
  | upsert outcome => .upsert outcome.outline
  | peer found => .peer (found.map Tracked.outline)
  | reply => reply

def Reaction.outline (r : Reaction) : Reaction := { r with requests := r.requests.map Request.outline }

def Told.outline : Told → Told
  | notice time n => .notice time n.outline
  | reply r => .reply r.outline

def Happening.outline : Happening → Happening
  | tracked key => .tracked key
  | scheduled key delay counted => .scheduled key delay counted
  | excluded key => .excluded key
  | reconnected key => .reconnected key
  | restored key sustained => .restored key sustained
  | reset key => .reset key
  | dropped key => .dropped key
  | pardoned key => .pardoned key
  | resolved candidates => .resolved (candidates.map Record.outline)
  | reconciled => .reconciled
  | closed => .closed

def Entry.outline (e : Entry) : Entry := ⟨e.time, e.what.outline⟩

/-- The members with every record reduced to its key. -/
def Members.outline (m : Members) : Members :=
  { m with
    slots := m.slots.map Slot.outline
    told := m.told.map Told.outline
    history := m.history.map Entry.outline
    reactions := m.reactions.map Reaction.outline }

namespace Members

variable (m : Members)

/-! ### What is read -/

theorem slots_outline (key : PeerKey) :
    m.outline.slots.find? key = (m.slots.find? key).map Slot.outline :=
  KeyMap.find?_map _ _ _

theorem slot?_outline (key : PeerKey) : m.outline.slot? key = (m.slot? key).map Slot.outline := by
  unfold slot?
  rw [slots_outline]
  cases m.slots.find? key with
  | none => rfl
  | some slot =>
    show (if slot.evicted then none else some slot.outline) = _
    dsimp only
    split <;> rfl

theorem find?_outline (key : PeerKey) : m.outline.find? key = (m.find? key).map Tracked.outline := by
  rw [Members.find?, slot?_outline, Members.find?, Option.map_map, Option.map_map]
  rfl

theorem keys_outline : m.outline.slots.keys = m.slots.keys := List.map_map

theorem size_outline : m.outline.size = m.size := List.length_map _

theorem notices_outline : m.outline.notices = m.notices.map fun n => (n.1, n.2.outline) := by
  unfold notices
  show (m.told.map Told.outline).filterMap _ = _
  rw [List.filterMap_map, List.map_filterMap]
  refine List.filterMap_congr fun x _ => ?_
  cases x <;> rfl

theorem snapshot_outline : m.outline.snapshot = m.snapshot.map Tracked.outline := by
  unfold snapshot
  show (m.slots.entries.map fun e => (e.1, e.2.outline)).filterMap _ = _
  rw [List.filterMap_map, List.map_filterMap]
  refine List.filterMap_congr fun e _ => ?_
  show (if e.2.evicted then none else some e.2.peer.outline) = _
  split <;> rfl

/-! ### What is written -/

theorem outline_write (remark : Remark) : (m.write remark).outline = m.outline.write remark := rfl

theorem outline_note (what : Happening) : (m.note what).outline = m.outline.note what.outline := rfl

theorem outline_count (f : Tally → Tally) : (m.count f).outline = m.outline.count f := rfl

theorem outline_setSlot (key : PeerKey) (slot : Slot) :
    (m.setSlot key slot).outline = m.outline.setSlot key slot.outline := by
  unfold Members.outline setSlot
  rw [KeyMap.map_insert]

theorem outline_erase (key : PeerKey) :
    { m with slots := m.slots.erase key }.outline =
      { m.outline with slots := m.outline.slots.erase key } := by
  unfold Members.outline
  rw [KeyMap.map_erase]

theorem outline_detach (key : PeerKey) (slot : Slot) :
    (m.detach key slot).outline = m.outline.detach key slot.outline :=
  outline_erase (m.dropTimer slot.timer) key

theorem outline_arm (key : PeerKey) (slot : Slot) (delay : Duration) :
    (m.arm key slot delay).outline = m.outline.arm key slot.outline delay := by
  unfold arm
  rw [outline_setSlot]
  rfl

/-! ### Operations that tell nobody -/

theorem outline_exclude (key : PeerKey) : (m.exclude key).outline = m.outline.exclude key := by
  unfold exclude
  rw [slots_outline]
  cases m.slots.find? key with
  | none => rfl
  | some slot =>
    unfold Members.outline
    dsimp only [Option.map_some]
    rw [KeyMap.map_insert]
    rfl

theorem outline_discard (key : PeerKey) : (m.discard key).outline = m.outline.discard key := by
  unfold Members.discard
  rw [slots_outline]
  cases m.slots.find? key with
  | none => rfl
  | some slot =>
    dsimp only [Option.map_some]
    show _ = if slot.evicted then _ else _
    split
    · exact m.outline_erase key
    · rfl

theorem outline_upsert (r : Record) :
    m.outline.upsert r.outline = Prod.map Upsert.outline outline (m.upsert r) := by
  unfold upsert
  dsimp only
  rw [Record.key_outline, slots_outline]
  show (if m.closed then _ else if m.isExcluded r.key then _ else _) = _
  split
  · rfl
  · split
    · rfl
    · cases m.slots.find? r.key with
      | none =>
        dsimp only [Option.map_none, Prod.map]
        rw [outline_note, outline_setSlot]
        rfl
      | some slot =>
        dsimp only [Option.map_some]
        show (if slot.evicted then _ else _) = _
        split
        · rfl
        · dsimp only [Prod.map]
          rw [outline_setSlot]
          rfl

theorem outline_remove (key : PeerKey) :
    m.outline.remove key = Prod.map (Option.map Tracked.outline) outline (m.remove key) := by
  unfold remove
  rw [slots_outline]
  cases m.slots.find? key with
  | none => rfl
  | some slot =>
    dsimp only [Option.map_some]
    show (if slot.evicted then _ else _) = _
    split
    · dsimp only [Prod.map]
      rw [outline_erase]
      rfl
    · dsimp only [Prod.map]
      rw [outline_note, outline_detach]
      rfl

theorem outline_close : m.close.outline = m.outline.close := by
  have held : ∀ id, (m.outline.slots.values.any fun s => s.timer == some id) =
      m.slots.values.any fun s => s.timer == some id := fun id => by
    show ((m.slots.entries.map fun e => (e.1, e.2.outline)).map (·.2)).any _ = _
    rw [List.map_map, List.any_map, KeyMap.values, List.any_map]
    rfl
  unfold close
  simp only [held]
  rfl

theorem outline_afterFailure (key : PeerKey) (peer : Tracked) (delay : Duration) :
    m.outline.afterFailure key peer.outline delay = Prod.map id outline (m.afterFailure key peer delay) := by
  unfold afterFailure
  show (if m.policy.isExhausted peer.failures then _ else _) = _
  split
  · dsimp only [Prod.map]
    rw [outline_note, outline_discard, outline_count, outline_exclude, outline_write]
    rfl
  · dsimp only [Prod.map]
    rw [outline_note, slots_outline]
    cases m.slots.find? key with
    | none => rfl
    | some slot =>
      dsimp only [Option.map_some]
      rw [outline_arm]
      rfl

end Members

/-! ## Operations -/

/-- The listener goes by the keys alone. -/
def Impartial (tell : Tell) : Prop := ∀ n m, (tell n m).outline = tell n.outline m.outline

section Tell

variable {tell : Tell} (impartial : Impartial tell) (m : Members)
include impartial

theorem outline_fail (key : PeerKey) :
    m.outline.fail tell key = Prod.map id outline (m.fail tell key) := by
  unfold Members.fail
  rw [slot?_outline]
  cases m.slot? key with
  | none => rfl
  | some slot =>
    dsimp only [Option.map_some]
    show (if slot.peer.failed then _ else _) = _
    split
    · rfl
    · have noted : m.outline.noteFailure slot.outline.peer =
          ((m.noteFailure slot.peer).1, (m.noteFailure slot.peer).2.outline) := rfl
      rw [noted, ← outline_afterFailure, outline_count, impartial, outline_setSlot]
      rfl

theorem outline_present (r : Record) :
    m.outline.present tell r.outline = Prod.map id outline (m.present tell r) := by
  have found := m.slot?_outline r.key
  cases hs : m.slot? r.key with
  | none =>
    rw [hs] at found
    simp only [Members.present, Record.key_outline, found, hs]
    rfl
  | some slot =>
    rw [hs] at found
    cases hf : slot.peer.failed with
    | true =>
      have restored : m.outline.restoredPeer slot.outline r.outline =
          (m.restoredPeer slot r).outline := by
        unfold restoredPeer Slot.outline Tracked.outline
        dsimp only [Slot.cancel]
        split <;> rfl
      rw [present_of_failed hs hf, present_of_failed (r := r.outline) found hf, restored]
      dsimp only [Prod.map]
      rw [outline_count, impartial, outline_note, outline_setSlot]
      rfl
    | false =>
      rw [present_of_healthy hs hf, present_of_healthy (r := r.outline) found hf]
      show (if m.policy.isSustained (m.connectedFor slot.peer) &&
        (0 < slot.peer.failures || slot.peer.delay != m.policy.initialDelay) then _ else _) = _
      split
      · dsimp only [Prod.map]
        rw [outline_note, outline_setSlot]
        rfl
      · dsimp only [Prod.map]
        rw [outline_setSlot]
        rfl

theorem outline_withdraw (key : PeerKey) :
    m.outline.withdraw tell key = Prod.map id outline (m.withdraw tell key) := by
  unfold Members.withdraw
  rw [outline_remove]
  obtain ⟨found, left⟩ := m.remove key
  cases found with
  | none => rfl
  | some peer =>
    dsimp only [Prod.map, Option.map_some]
    show (true, (if peer.failed then _ else _ : Members).write _) = _
    split
    · rfl
    · rw [outline_write, outline_count, impartial]
      rfl

theorem outline_keep (e : PeerKey × Record) :
    keep tell (e.1, e.2.outline) m.outline = Prod.map id outline (keep tell e m) := by
  unfold keep
  dsimp only
  rw [outline_present impartial]
  obtain ⟨found, left⟩ := m.present tell e.2
  cases found <;> rfl

theorem outline_announce (key : PeerKey) :
    m.outline.announce tell key = Prod.map id outline (m.announce tell key) := by
  unfold Members.announce
  rw [slot?_outline]
  cases m.slot? key with
  | none => rfl
  | some slot =>
    dsimp only [Option.map_some]
    show (if slot.peer.failed then _ else _) = _
    split
    · rfl
    · dsimp only [Prod.map]
      rw [outline_write, outline_count, impartial]
      rfl

theorem outline_enrol (e : PeerKey × Record) :
    enrol tell (e.1, e.2.outline) m.outline = Prod.map id outline (enrol tell e m) := by
  unfold enrol
  dsimp only
  rw [outline_upsert]
  obtain ⟨found, left⟩ := m.upsert e.2
  cases found with
  | inserted peer => exact outline_announce impartial left e.1
  | _ => rfl

omit impartial in
theorem outline_sweep {α β : Type} {f : α → β} {step : α → Members → Bool × Members}
    {step' : β → Members → Bool × Members}
    (same : ∀ a m, step' (f a) m.outline = Prod.map id outline (step a m)) (l : List α) :
    sweep step' (l.map f) m.outline = Prod.map (List.map f) outline (sweep step l m) := by
  induction l generalizing m with
  | nil => rfl
  | cons a rest ih =>
    rw [List.map_cons, sweep, sweep]
    dsimp only
    rw [same]
    dsimp only [Prod.map]
    rw [ih]
    dsimp only [Prod.map, id]
    split <;> rfl

theorem outline_reconcile (candidates : KeyMap Record) :
    m.outline.reconcile tell (candidates.map Record.outline) =
      Prod.map id outline (m.reconcile tell candidates) := by
  have tracked : m.outline.snapshot.map (·.key) = m.snapshot.map (·.key) := by
    rw [snapshot_outline, List.map_map]
    rfl
  have listed : ∀ p : PeerKey → Bool,
      (candidates.map Record.outline).entries.filter (fun e => p e.1) =
        (candidates.entries.filter fun e => p e.1).map fun e => (e.1, e.2.outline) := fun p =>
    List.filter_map
  have keys : ∀ l : List (PeerKey × Record), (l.map fun e => (e.1, e.2.outline)).map (·.1) =
      l.map (·.1) := fun l => List.map_map
  have withdrawn := fun m l => outline_sweep m (f := id) (fun key m => outline_withdraw impartial m key) l
  have kept := fun m l => outline_sweep m (fun e m => outline_keep impartial m e) l
  have enrolled := fun m l => outline_sweep m (fun e m => outline_enrol impartial m e) l
  unfold Members.reconcile
  dsimp only
  rw [tracked, listed fun k => (m.snapshot.map (·.key)).contains k,
    listed fun k => !(m.snapshot.map (·.key)).contains k]
  simp only [KeyMap.contains_map, List.map_id] at withdrawn ⊢
  have begun : m.outline.note (.resolved (candidates.map Record.outline)) =
      (m.note (.resolved candidates)).outline := rfl
  rw [begun, withdrawn]
  dsimp only [Prod.map]
  rw [kept]
  dsimp only [Prod.map]
  rw [enrolled]
  dsimp only [Prod.map]
  rw [keys, keys, List.map_id]
  rfl

/-! ## The listener -/

theorem outline_perform (request : Request) : m.outline.perform tell request.outline =
    Prod.map Reply.outline outline (m.perform tell request) := by
  cases request with
  | upsert r =>
    show ((Reply.upsert (m.outline.upsert r.outline).1, (m.outline.upsert r.outline).2)) = _
    rw [outline_upsert]
    rfl
  | remove key =>
    show (Reply.peer (m.outline.remove key).1, (m.outline.remove key).2) = _
    rw [outline_remove]
    rfl
  | fail key =>
    show (Reply.failed (m.outline.fail tell key).1, (m.outline.fail tell key).2) = _
    rw [outline_fail impartial]
    rfl
  | present r =>
    show (Reply.presence (m.outline.present tell r.outline).1,
      (m.outline.present tell r.outline).2) = _
    rw [outline_present impartial]
    rfl
  | close =>
    show (Reply.flag m.outline.close.closed, m.outline.close) = _
    rw [← outline_close]
    rfl
  | find key =>
    show (Reply.peer (m.outline.find? key), m.outline) = _
    rw [find?_outline]
    rfl
  | contains key =>
    show (Reply.flag (m.outline.slots.contains key), m.outline) = _
    rw [show m.outline.slots = m.slots.map Slot.outline from rfl, KeyMap.contains_map]
    rfl
  | count =>
    show (Reply.count m.outline.size, m.outline) = _
    rw [size_outline]
    rfl
  | _ => rfl

theorem outline_react (request : Request) :
    (react tell m request).outline = react tell m.outline request.outline := by
  unfold react
  rw [outline_perform impartial]
  rfl

theorem outline_foldl_react (requests : List Request) : (requests.foldl (react tell) m).outline =
    (requests.map Request.outline).foldl (react tell) m.outline := by
  induction requests generalizing m with
  | nil => rfl
  | cons request rest ih =>
    rw [List.foldl_cons, ih, outline_react impartial]
    rfl

end Tell

theorem answers_outline (r : Reaction) (n : Notice) : r.outline.answers n.outline = r.answers n := by
  cases n <;> rfl

theorem takeReaction_outline (n : Notice) (reactions : List Reaction) :
    takeReaction n.outline (reactions.map Reaction.outline) =
      (takeReaction n reactions).map (Prod.map Reaction.outline (List.map Reaction.outline)) := by
  induction reactions with
  | nil => rfl
  | cons r rest ih =>
    rw [List.map_cons, takeReaction, takeReaction, answers_outline, ih]
    split
    · rfl
    · cases takeReaction n rest <;> rfl

theorem outline_record (n : Notice) (m : Members) :
    (record n m).outline = record n.outline m.outline := rfl

theorem tellWithin_impartial : ∀ depth, Impartial (tellWithin depth)
  | 0 => outline_record
  | depth + 1 => fun n m => by
    rw [tellWithin]
    dsimp only
    rw [← outline_record]
    have taken : takeReaction n.outline (record n m).outline.reactions = _ :=
      takeReaction_outline n (record n m).reactions
    rw [taken]
    cases takeReaction n (record n m).reactions with
    | none => rfl
    | some found => exact outline_foldl_react (tellWithin_impartial depth) _ found.1.requests

/-- **The listener with its reactions is impartial**, whatever they ask for. -/
theorem tell_impartial : Impartial Members.tell := fun n m => by
  have length : m.outline.reactions.length = m.reactions.length := List.length_map _
  rw [Members.tell, Members.tell, length]
  exact tellWithin_impartial _ n m

end Roster
