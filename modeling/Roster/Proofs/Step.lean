import Mathlib.Logic.Relation
import Roster.Members.Listener
import Roster.Members.Reconcile

/-!
# Proofs.Step — what can become of the members, one thing at a time

A request to the members is not one change: the listener is told something in the middle of it and
may answer with requests of its own. `Step` cuts every operation at these points.

* `Frame`, `Situation`: the operations that have begun and are not over, innermost first, and the
  members as they are meanwhile.
* `Step`: one small change within operations. `Steps`: any number of them.
* `Move`: a whole operation, or something that happens only between operations. `Moves`: any number
  of them.

An invariant is one case analysis of `Step` and one of `Move`; `Proofs.Moves` shows once and for all
that the operations are made of steps.
-/

namespace Roster

open Members

/-- Something that has begun and is not over. -/
inductive Frame where
  /-- A failure that the listener is being told of. The slot is as the failure left it; its timer
  comes afterwards. -/
  | failing (key : PeerKey) (slot : Slot) (delay : Duration)
  /-- The listener is being told that a peer is no longer listed. -/
  | withdrawing
  /-- The listener is being told of a peer that a cycle found. -/
  | announcing
  /-- The listener is being told of a peer that its timer brought back. -/
  | reconnecting
  /-- A cycle makes the candidates the tracked peers. -/
  | cycling (candidates : KeyMap Record)

/-- The members in the middle of operations, the innermost first. -/
structure Situation where
  frames : List Frame
  members : Members

/-- A function on the counters that only concerns cycles. -/
inductive OfCycle : (Tally → Tally) → Prop where
  | cycle : OfCycle Tally.cycle
  | failure : OfCycle Tally.resolutionFailure
  | resolved (tracked : Nat) : OfCycle (·.resolved tracked)

namespace Members

/-- The slot of a healthy peer once its failure is noted. -/
def failedSlot (m : Members) (slot : Slot) : Slot :=
  { slot with peer := (m.noteFailure slot.peer).2 }

/-- A failed peer as the directory brings it back. -/
def restoredPeer (m : Members) (slot : Slot) (record : Record) : Tracked :=
  let peer := { slot.cancel.peer with record }
  { if peer.sustained then m.resetCounters peer else peer with
    failed := false, connectTime := m.now }

/-- A failed peer as its timer brings it back. -/
def reconnectedPeer (m : Members) (slot : Slot) : Tracked :=
  { slot.peer with
    pending := false, delay := m.policy.nextDelay slot.peer.delay, connectTime := m.now
    failed := false }

end Members

namespace Members

/-- A failure that exhausts a peer: it joins the excluded ones, and its entry goes. -/
theorem afterFailure_of_exhausted {m : Members} {key : PeerKey} {slot : Slot} {peer : Tracked}
    (delay : Duration) (hs : m.slots.find? key = some slot)
    (h : m.policy.isExhausted peer.failures = true) :
    m.afterFailure key peer delay = (.excluded peer.failures, { m.dropTimer slot.timer with
      journal := .excluding key peer.failures :: m.journal
      excluded := m.excluded.insert key ()
      slots := (m.slots.insert key slot.evict).erase key
      tally := m.tally.exclusion
      history := ⟨m.now, .excluded key⟩ :: m.history }) := by
  have hw : (m.write (.excluding key peer.failures)).slots.find? key = some slot := hs
  simp only [afterFailure, h, if_true, exclude, hw, count, discard, KeyMap.find?_insert]
  rfl

/-- A failure that spares a peer: its timer is armed. -/
theorem afterFailure_of_spared {m : Members} {key : PeerKey} {slot : Slot} {peer : Tracked}
    (delay : Duration) (hs : m.slots.find? key = some slot)
    (h : m.policy.isExhausted peer.failures = false) :
    m.afterFailure key peer delay = (.scheduled delay peer.sustained peer.failures,
      (m.arm key slot delay).note (.scheduled key delay peer.sustained)) := by
  simp only [afterFailure, h, hs]
  rfl

/-- A slot without a timer gets one. -/
theorem arm_of_quiet {m : Members} (key : PeerKey) {slot : Slot} (delay : Duration)
    (h : slot.timer = none) :
    m.arm key slot delay = { m with
      timers := m.timers ++ [⟨m.armed, key, slot.epoch + 2, Clock.after m.now delay⟩]
      armed := m.armed + 1
      slots := m.slots.insert key { slot with
        timer := some m.armed, epoch := slot.epoch + 2, peer := { slot.peer with pending := true } } } := by
  simp [arm, dropTimer, h, setSlot, Slot.cancel]

end Members

/-- One small change of the members. -/
inductive Step : Situation → Situation → Prop where
  /-- A line is written, a reaction used up. -/
  | aside {fs m} (journal : List Remark) (reactions : List Reaction)
      (used : ∀ r ∈ reactions, r ∈ m.reactions) :
      Step ⟨fs, m⟩ ⟨fs, { m with journal, reactions }⟩
  /-- A request of the listener is answered. -/
  | reply {fs m} (reply : Reply) : Step ⟨fs, m⟩ ⟨fs, { m with told := .reply reply :: m.told }⟩
  /-- A cycle is counted. -/
  | count {fs m f} (hf : OfCycle f) : Step ⟨fs, m⟩ ⟨fs, m.count f⟩
  /-- A healthy peer fails. -/
  | fail {fs m key slot} (tracked : m.slots.find? key = some slot)
      (healthy : slot.peer.failed = false) :
      Step ⟨fs, m⟩ ⟨.failing key (m.failedSlot slot) (m.noteFailure slot.peer).1 :: fs,
        record (.removed key) (m.setSlot key (m.failedSlot slot))⟩
  /-- The listener has heard of a failure: the peer is excluded, or its timer armed. -/
  | settle {fs m key slot delay} :
      Step ⟨.failing key slot delay :: fs, m⟩
        ⟨fs, ((m.count Tally.removed).afterFailure key slot.peer delay).2⟩
  /-- A timer goes off when it is due. -/
  | reconnect {m slot} (t : Timer) (armed : t ∈ m.timers) (due : t.due = m.now)
      (tracked : m.slots.find? t.key = some slot) (failed : slot.peer.failed = true) :
      Step ⟨[], m⟩ ⟨[.reconnecting], record (.added slot.peer.record) (((m.dropTimer (some t.id)).setSlot
        t.key { slot with timer := none, peer := m.reconnectedPeer slot }).note (.reconnected t.key))⟩
  /-- The listener has heard of a reconnect. -/
  | reconnected {fs m} : Step ⟨.reconnecting :: fs, m⟩ ⟨fs, m.count Tally.reconnect⟩
  /-- A cycle sets out. Its candidates are listed under their own keys, and none is excluded. -/
  | enter {m} (candidates : KeyMap Record)
      (own : ∀ e ∈ candidates.entries, e.2.key = e.1 ∧ m.isExcluded e.1 = false) :
      Step ⟨[], m⟩ ⟨[.cycling candidates], m.note (.resolved candidates)⟩
  /-- A cycle has come to its end. -/
  | leave {m candidates} : Step ⟨[.cycling candidates], m⟩ ⟨[], m.note .reconciled⟩
  /-- A healthy peer is no longer listed. -/
  | withdraw {m candidates key slot} (tracked : m.slots.find? key = some slot)
      (healthy : slot.peer.failed = false) (unlisted : candidates.find? key = none) :
      Step ⟨[.cycling candidates], m⟩ ⟨[.withdrawing, .cycling candidates],
        record (.removed key) ((m.detach key slot).note (.dropped key))⟩
  /-- The listener has heard of a peer that is no longer listed. -/
  | withdrawn {fs m} : Step ⟨.withdrawing :: fs, m⟩ ⟨fs, m.count Tally.removed⟩
  /-- A failed peer is no longer listed. -/
  | drop {m candidates key slot} (tracked : m.slots.find? key = some slot)
      (failed : slot.peer.failed = true) (unlisted : candidates.find? key = none) :
      Step ⟨[.cycling candidates], m⟩
        ⟨[.cycling candidates], (m.detach key slot).note (.dropped key)⟩
  /-- A failed peer is still listed. -/
  | restore {m candidates slot record} (tracked : m.slots.find? record.key = some slot)
      (failed : slot.peer.failed = true) (listed : candidates.find? record.key = some record) :
      Step ⟨[.cycling candidates], m⟩ ⟨[.announcing, .cycling candidates],
        Members.record (.added record) (((m.dropTimer slot.timer).setSlot record.key
          { slot.cancel with peer := m.restoredPeer slot record }).note
            (.restored record.key slot.peer.sustained))⟩
  /-- A healthy peer is still listed, and its connection has lasted. -/
  | reset {m candidates slot record} (tracked : m.slots.find? record.key = some slot)
      (healthy : slot.peer.failed = false) (listed : candidates.find? record.key = some record)
      (sustained : m.policy.isSustained (m.connectedFor slot.peer) = true) :
      Step ⟨[.cycling candidates], m⟩ ⟨[.cycling candidates],
        (m.setSlot record.key { slot with peer := m.resetCounters { slot.peer with record } }).note
          (.reset record.key)⟩
  /-- The record of a peer changes and nothing else. -/
  | refresh {m candidates slot record} (tracked : m.slots.find? record.key = some slot)
      (listed : candidates.find? record.key = some record) :
      Step ⟨[.cycling candidates], m⟩ ⟨[.cycling candidates],
        m.setSlot record.key { slot with peer := { slot.peer with record } }⟩
  /-- A peer is tracked from now on. -/
  | enlist {m candidates record} (running : m.closed = false)
      (admitted : m.isExcluded record.key = false) (untracked : m.slots.find? record.key = none)
      (listed : candidates.find? record.key = some record) :
      Step ⟨[.cycling candidates], m⟩ ⟨[.announcing, .cycling candidates],
        Members.record (.added record) ((m.setSlot record.key
          (.fresh (.fresh record m.initialDelay m.now))).note (.tracked record.key))⟩
  /-- The listener has heard of a peer that a cycle found. -/
  | announced {fs m} : Step ⟨.announcing :: fs, m⟩ ⟨fs, m.count Tally.added⟩

abbrev Steps : Situation → Situation → Prop := Relation.ReflTransGen Step

/-- One move, from outside of operations to outside of operations. -/
inductive Move : Members → Members → Prop where
  /-- An operation is carried out. -/
  | work {m m'} (steps : Steps ⟨[], m⟩ ⟨[], m'⟩) : Move m m'
  /-- Time passes, up to the next timer. The clock stands at whole ticks. -/
  | pass {m} (time : Nat) (later : m.now ≤ time) (due : ∀ t ∈ m.timers, time ≤ t.due)
      (ticks : time % Clock.tick = 0) : Move m { m with now := time }
  /-- An exclusion is lifted. -/
  | pardon {m} (key : PeerKey) : Move m (m.pardon key).2
  /-- Everything is over. -/
  | close {m} : Move m m.close

abbrev Moves : Members → Members → Prop := Relation.ReflTransGen Move

end Roster
