import Roster.Members.Slots

/-!
# Members.Backoff — failed peers and their return

A peer reported failed leaves the view and comes back by a timer. A failure after a sustained
connection counts towards exclusion and waits for the peer's own delay, which doubles with every
reconnect up to a ceiling. A failure right after a reconnect does not count and waits for
`minConnectTime`.

* `fail`: a peer failed. `reconnect`, `fire`: its timer went off. `present`: a directory still lists
  it.
* Each takes a `Tell`, which passes a notice on to the listener at the very point where it is due.
-/

namespace Roster

abbrev Tell := Notice → Members → Members

namespace Members

/-- How long the peer has been connected. -/
def connectedFor (m : Members) (peer : Tracked) : Duration := Clock.since m.now peer.connectTime

/-- A peer once its failure is noted. The delay is that of the reconnect to come. -/
def noteFailure (m : Members) (peer : Tracked) : Duration × Tracked :=
  let counted := m.policy.isSustained (m.connectedFor peer)
  (if counted then peer.delay else m.policy.minConnectTime,
   { peer with
     failures := if counted then peer.failures + 1 else peer.failures
     sustained := counted
     failed := true })

/-- What follows a noted failure: exclusion once the counted ones reach the limit, else a timer. -/
def afterFailure (m : Members) (key : PeerKey) (peer : Tracked) (delay : Duration) :
    FailOutcome × Members :=
  if m.policy.isExhausted peer.failures then
    let m := (m.write (.excluding key peer.failures)).exclude key
    (.excluded peer.failures, ((m.count Tally.exclusion).discard key).note (.excluded key))
  else
    let m := match m.slots.find? key with
      | some slot => m.arm key slot delay
      | none => m
    (.scheduled delay peer.sustained peer.failures, m.note (.scheduled key delay peer.sustained))

/-- Reports a peer failed. A healthy tracked peer leaves the view. -/
def fail (tell : Tell) (key : PeerKey) (m : Members) : FailOutcome × Members :=
  match m.slot? key with
  | none => (.untracked, m)
  | some slot =>
    if slot.peer.failed then (.alreadyFailed, m)
    else
      let (delay, peer) := m.noteFailure slot.peer
      let m := tell (.removed key) (m.setSlot key { slot with peer })
      (m.count Tally.removed).afterFailure key peer delay

/-- Announces a failed peer again, if the timer of this epoch is still the one to be heard. -/
def reconnect (tell : Tell) (key : PeerKey) (epoch : Nat) (m : Members) : Bool × Members :=
  match (m.slot? key).bind (·.claim? epoch) with
  | none => (false, m)
  | some slot =>
    if !slot.peer.failed then (false, m.setSlot key slot)
    else
      let delay := m.policy.nextDelay slot.peer.delay
      let peer := { slot.peer with delay, connectTime := m.now, failed := false }
      let m := (m.setSlot key { slot with peer }).note (.reconnected key)
      let m := m.write (.reconnecting key delay)
      (true, (tell (.added peer.record) m).count Tally.reconnect)

/-- A timer goes off. One that is no longer armed does nothing. -/
def fire (tell : Tell) (timer : Nat) (m : Members) : Bool × Members :=
  match m.timers.find? (·.id == timer) with
  | none => (false, m)
  | some t => reconnect tell t.key t.epoch (m.dropTimer (some timer))

/-- A peer with its counters as if newly tracked. -/
def resetCounters (m : Members) (peer : Tracked) : Tracked :=
  { peer with failures := 0, delay := m.policy.initialDelay }

/-- A directory still lists the peer. Its record is refreshed. A failed peer is announced at once;
its counters are reset if its last connection had been sustained. A healthy peer with a sustained
connection has its counters reset without a word. -/
def present (tell : Tell) (record : Record) (m : Members) : Presence × Members :=
  let key := record.key
  match m.slot? key with
  | none => (.untracked, m)
  | some slot =>
    let peer := { slot.peer with record }
    if peer.failed then
      let reset := peer.sustained
      let m := m.dropTimer slot.timer
      let slot := { slot with peer }.cancel
      let peer := if reset then m.resetCounters slot.peer else slot.peer
      let peer := { peer with failed := false, connectTime := m.now }
      let m := (m.setSlot key { slot with peer }).note (.restored key reset)
      (.restored reset, (tell (.added peer.record) m).count Tally.added)
    else if m.policy.isSustained (m.connectedFor peer) &&
        (0 < peer.failures || peer.delay != m.policy.initialDelay) then
      (.reset, (m.setSlot key { slot with peer := m.resetCounters peer }).note (.reset key))
    else (.steady, m.setSlot key { slot with peer })

end Members

end Roster
