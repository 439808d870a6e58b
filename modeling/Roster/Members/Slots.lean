import Roster.Members.State

/-!
# Members.Slots — operations that tell nobody

* `upsert`, `remove`, `pardon`, `close`: the map of peers and the exclusions.
* `Slot.cancel`, `arm`, `Slot.claim?`: the reconnect timer of a slot. Every timer that is armed or
  cancelled moves the slot to a new epoch, so that a timer from an earlier epoch finds itself
  unheard.
* `exclude`, `discard`: a peer is given up in two steps, its slot evicted and its entry detached.
-/

namespace Roster

namespace Slot

/-- Forgets the armed timer and moves on to the next epoch. -/
def cancel (s : Slot) : Slot :=
  { s with timer := none, epoch := s.epoch + 1, peer := { s.peer with pending := false } }

/-- The slot can no longer change. -/
def evict (s : Slot) : Slot := { s.cancel with evicted := true }

/-- The slot once a timer of this epoch takes effect; none if that timer was cancelled or
superseded. -/
def claim? (s : Slot) (epoch : Nat) : Option Slot :=
  if s.evicted || s.epoch != epoch || !s.peer.pending then none
  else some { s with timer := none, peer := { s.peer with pending := false } }

end Slot

namespace Members

/-- Takes an armed timer off the list. -/
def dropTimer (m : Members) (timer : Option Nat) : Members :=
  { m with timers := m.timers.filter fun t => some t.id != timer }

/-- Arms a timer for a slot: the timer before it is cancelled, and the slot moves to the timer's
epoch. -/
def arm (m : Members) (key : PeerKey) (slot : Slot) (delay : Duration) : Members :=
  let m := m.dropTimer slot.timer
  let slot := slot.cancel
  let epoch := slot.epoch + 1
  let timer : Timer := { id := m.armed, key, epoch, due := Clock.after m.now delay }
  { m with timers := m.timers ++ [timer], armed := m.armed + 1 }.setSlot key
    { slot with timer := some timer.id, epoch, peer := { slot.peer with pending := true } }

/-- Tracks a record, or refreshes the record of a tracked peer and nothing else. -/
def upsert (m : Members) (record : Record) : Upsert × Members :=
  let key := record.key
  if m.closed then (.closed, m)
  else if m.isExcluded key then (.excluded, m)
  else
    match m.slots.find? key with
    | none =>
      let peer := Tracked.fresh record m.initialDelay m.now
      (.inserted peer, (m.setSlot key (.fresh peer)).note (.tracked key))
    | some slot =>
      if slot.evicted then (.closed, m)
      else
        let peer := { slot.peer with record }
        (.updated peer, m.setSlot key { slot with peer })

/-- Detaches the entry of a peer and cancels its timer. -/
def detach (m : Members) (key : PeerKey) (slot : Slot) : Members :=
  { m.dropTimer slot.timer with slots := m.slots.erase key }

/-- Stops tracking a peer. The answer is its final state. -/
def remove (m : Members) (key : PeerKey) : Option Tracked × Members :=
  match m.slots.find? key with
  | none => (none, m)
  | some slot =>
    if slot.evicted then (none, { m with slots := m.slots.erase key })
    else (some slot.evict.peer, (m.detach key slot).note (.dropped key))

/-- Gives a peer up for good: it joins the excluded ones and its slot is evicted. -/
def exclude (m : Members) (key : PeerKey) : Members :=
  match m.slots.find? key with
  | none => { m with excluded := m.excluded.insert key () }
  | some slot =>
    { m.dropTimer slot.timer with
      excluded := m.excluded.insert key ()
      slots := m.slots.insert key slot.evict }

/-- Detaches the entry of an evicted slot. -/
def discard (m : Members) (key : PeerKey) : Members :=
  match m.slots.find? key with
  | some slot => if slot.evicted then { m with slots := m.slots.erase key } else m
  | none => m

/-- Lifts an exclusion. The answer says whether there was one. -/
def pardon (m : Members) (key : PeerKey) : Bool × Members :=
  (m.isExcluded key, { m with excluded := m.excluded.erase key }.note (.pardoned key))

/-- Evicts every peer, cancels every timer and accepts no peer from now on. -/
def close (m : Members) : Members :=
  { m with
    closed := true
    slots := .empty
    timers := m.timers.filter fun t => !(m.slots.values.any fun s => s.timer == some t.id) }.note
      .closed

end Members

end Roster
