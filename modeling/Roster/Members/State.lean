import Roster.Clock
import Roster.Journal
import Roster.KeyMap
import Roster.Policy
import Roster.Stats

/-!
# Members.State — the tracked peers, their timers and what was told about them

* `Tracked`: what is known about one peer. `Slot`: the same with the bookkeeping of its reconnect
  timer.
* `Timer`: an armed reconnect timer. It carries the epoch its slot had when it was armed.
* `Notice`: what a listener is told. `Request`, `Reply`: what a listener may ask in return.
* `Happening`, `Entry`: what became of the peers, for the record. No operation reads it.
* `Members`: everything together, at one point in time.
-/

namespace Roster

/-- What is known about one tracked peer. -/
structure Tracked where
  key : PeerKey
  /-- The latest directory record. -/
  record : Record
  /-- The peer is out of the active view. -/
  failed : Bool
  /-- Failures counted towards exclusion. -/
  failures : UInt32
  /-- The delay of the next counted failure. -/
  delay : Duration
  /-- When the peer was last announced. -/
  connectTime : Nat
  /-- The connection that ended with the last failure had been sustained. -/
  sustained : Bool
  /-- A reconnect timer is armed. -/
  pending : Bool
deriving DecidableEq

/-- A peer that is tracked from `now` on. -/
def Tracked.fresh (record : Record) (delay : Duration) (now : Nat) : Tracked :=
  { key := record.key, record, failed := false, failures := 0, delay, connectTime := now,
    sustained := false, pending := false }

/-- The live state of one peer and the bookkeeping of its timer. -/
structure Slot where
  peer : Tracked
  /-- The armed timer. -/
  timer : Option Nat
  /-- The number a timer must carry to be heard. It grows with every timer that is armed or
  cancelled. It has no bound here: a word of 64 bits comes round only after `2^64` of them. -/
  epoch : Nat
  /-- The peer is no longer tracked, and nothing may change it. -/
  evicted : Bool
deriving DecidableEq

/-- The slot of a newly tracked peer. -/
def Slot.fresh (peer : Tracked) : Slot := { peer, timer := none, epoch := 0, evicted := false }

/-- An armed reconnect timer. -/
structure Timer where
  id : Nat
  key : PeerKey
  /-- The epoch of the slot it was armed for. -/
  epoch : Nat
  /-- When it fires. -/
  due : Nat
deriving DecidableEq

/-- What a listener is told. -/
inductive Notice where
  /-- The peer entered the active view. -/
  | added (record : Record)
  /-- The peer left the active view. -/
  | removed (key : PeerKey)
deriving DecidableEq

/-- The peer a notice is about. -/
def Notice.key : Notice → PeerKey
  | added record => record.key
  | removed key => key

/-- The outcome of tracking a record. -/
inductive Upsert where
  | inserted (peer : Tracked)
  | updated (peer : Tracked)
  | excluded
  | closed
deriving DecidableEq

/-- The outcome of reporting a peer failed. -/
inductive FailOutcome where
  | untracked
  | alreadyFailed
  /-- The peer is announced again after `delay`. -/
  | scheduled (delay : Duration) (counted : Bool) (failures : UInt32)
  | excluded (failures : UInt32)
deriving DecidableEq

/-- The outcome of listing a peer again. -/
inductive Presence where
  | untracked
  /-- Nothing changed but the record. -/
  | steady
  /-- The counters of a healthy peer were reset. -/
  | reset
  /-- A failed peer was announced ahead of its timer. -/
  | restored (reset : Bool)
deriving DecidableEq

/-- An operation on the membership. -/
inductive Request where
  | upsert (record : Record)
  | find (key : PeerKey)
  | contains (key : PeerKey)
  | remove (key : PeerKey)
  | fail (key : PeerKey)
  | present (record : Record)
  | count
  | isExcluded (key : PeerKey)
  | pardon (key : PeerKey)
  | close
  | isClosed
deriving DecidableEq

/-- The answer to a request. -/
inductive Reply where
  | upsert (outcome : Upsert)
  | peer (found : Option Tracked)
  | failed (outcome : FailOutcome)
  | presence (outcome : Presence)
  | count (peers : Nat)
  | flag (value : Bool)
deriving DecidableEq

/-- What a listener does when it is told something: the first notice of this kind about this peer
makes it issue the requests. -/
structure Reaction where
  /-- The notice is about a peer that entered the view. -/
  onAdded : Bool
  about : PeerKey
  requests : List Request
deriving DecidableEq

/-- Whether the reaction answers to a notice. -/
def Reaction.answers (r : Reaction) : Notice → Bool
  | .added record => r.onAdded && record.key == r.about
  | .removed key => !r.onAdded && key == r.about

/-- An entry of the listener's record. -/
inductive Told where
  /-- The listener was told something. -/
  | notice (time : Nat) (notice : Notice)
  /-- A request that it issued was answered. -/
  | reply (reply : Reply)
deriving DecidableEq

/-- Something that became of a peer, or of all of them. -/
inductive Happening where
  /-- The peer is tracked from now on. -/
  | tracked (key : PeerKey)
  /-- The peer failed and is announced again after `delay`. -/
  | scheduled (key : PeerKey) (delay : Duration) (counted : Bool)
  /-- The peer failed once too often. -/
  | excluded (key : PeerKey)
  /-- The peer was announced again by its timer. -/
  | reconnected (key : PeerKey)
  /-- The failed peer was announced because it is still listed. -/
  | restored (key : PeerKey) (reset : Bool)
  /-- The counters of the healthy peer were reset. -/
  | reset (key : PeerKey)
  /-- The peer is no longer tracked. -/
  | dropped (key : PeerKey)
  /-- The peer is not excluded any more. -/
  | pardoned (key : PeerKey)
  /-- A cycle set out to make the candidates the tracked peers. -/
  | resolved (candidates : KeyMap Record)
  /-- The cycle has made the candidates the tracked peers. -/
  | reconciled
  /-- No peer is tracked any more. -/
  | closed

/-- A happening and its time. -/
structure Entry where
  time : Nat
  what : Happening

/-- The tracked peers at one point in time, with everything that was told and written so far. -/
structure Members where
  policy : Policy
  /-- The delay given to newly tracked peers. -/
  initialDelay : Duration
  now : Nat
  slots : KeyMap Slot
  /-- Peers that are excluded for good. -/
  excluded : KeySet
  /-- No peer is accepted any more. -/
  closed : Bool
  /-- The armed timers, in the order they were armed. -/
  timers : List Timer
  /-- The number of timers armed so far. -/
  armed : Nat
  tally : Tally
  /-- The log, latest line first. -/
  journal : List Remark
  /-- What the listener was told, latest first. -/
  told : List Told
  /-- What became of the peers, latest first. -/
  history : List Entry
  /-- What the listener will do in answer to notices. -/
  reactions : List Reaction

namespace Members

/-- No peer yet, under a policy. -/
def initial (policy : Policy) (initialDelay : Duration) (reactions : List Reaction) : Members :=
  { policy, initialDelay, now := 0, slots := .empty, excluded := .empty, closed := false,
    timers := [], armed := 0, tally := .zero, journal := [], told := [], history := [], reactions }

/-- The slot of a tracked peer, unless it was evicted. -/
def slot? (m : Members) (key : PeerKey) : Option Slot :=
  match m.slots.find? key with
  | some slot => if slot.evicted then none else some slot
  | none => none

/-- What is known about a tracked peer. -/
def find? (m : Members) (key : PeerKey) : Option Tracked := (m.slot? key).map (·.peer)

/-- Whether the peer is tracked. -/
def contains (m : Members) (key : PeerKey) : Bool := m.slots.contains key

/-- A copy of every tracked peer, in the order of the keys. -/
def snapshot (m : Members) : List Tracked :=
  m.slots.entries.filterMap fun e => if e.2.evicted then none else some e.2.peer

/-- The number of tracked peers. -/
def size (m : Members) : Nat := m.slots.size

/-- Whether the peer is excluded for good. -/
def isExcluded (m : Members) (key : PeerKey) : Bool := m.excluded.contains key

/-- Writes a line into the log. -/
def write (m : Members) (remark : Remark) : Members :=
  { m with journal := remark :: m.journal }

/-- Puts a happening on record. -/
def note (m : Members) (what : Happening) : Members :=
  { m with history := ⟨m.now, what⟩ :: m.history }

/-- Counts something. -/
def count (m : Members) (f : Tally → Tally) : Members := { m with tally := f m.tally }

/-- Puts a slot into the map. -/
def setSlot (m : Members) (key : PeerKey) (slot : Slot) : Members :=
  { m with slots := m.slots.insert key slot }

/-- The keys in the active view after everything in the listener's record, latest first. -/
def viewOf : List Told → KeySet
  | [] => .empty
  | .notice _ (.added record) :: past => (viewOf past).insert record.key ()
  | .notice _ (.removed key) :: past => (viewOf past).erase key
  | .reply _ :: past => viewOf past

/-- The active view as the listener knows it. -/
def view (m : Members) : KeySet := viewOf m.told

end Members

end Roster
