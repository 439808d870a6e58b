import Roster.Members.Backoff

/-!
# Members.Reconcile — bringing the tracked peers in line with a set of candidates

* `withdraw`, `keep`, `enrol`: what is done with a peer that is no longer listed, still listed,
  newly listed.
* `sweep`: one of them for each element of a list; it collects those for which something happened.
* `reconcile`: the three sweeps, each ascending: withdrawals, peers kept, admissions.
-/

namespace Roster

/-- What a reconciliation changed. -/
structure Changes where
  /-- Peers announced for the first time. -/
  added : List PeerKey
  /-- Peers no longer tracked. -/
  removed : List PeerKey
  /-- Failed peers announced because they are still listed. -/
  restored : List PeerKey
deriving DecidableEq

namespace Members

/-- Applies a step to each element in turn and collects the elements for which it answered yes. -/
def sweep {α : Type} (step : α → Members → Bool × Members) :
    List α → Members → List α × Members
  | [], m => ([], m)
  | a :: rest, m =>
    let (hit, m) := step a m
    let (hits, m) := sweep step rest m
    (if hit then a :: hits else hits, m)

/-- Stops tracking a peer. The listener hears of it unless the peer was out of the view already. -/
def withdraw (tell : Tell) (key : PeerKey) (m : Members) : Bool × Members :=
  match m.remove key with
  | (none, m) => (false, m)
  | (some peer, m) =>
    let m := if peer.failed then m else (tell (.removed key) m).count Tally.removed
    (true, m.write (.removed key))

def keep (tell : Tell) (entry : PeerKey × Record) (m : Members) : Bool × Members :=
  match m.present tell entry.2 with
  | (.restored reset, m) => (true, m.write (.restored entry.1 reset))
  | (_, m) => (false, m)

/-- Announces a newly tracked peer. -/
def announce (tell : Tell) (key : PeerKey) (m : Members) : Bool × Members :=
  match m.slot? key with
  | none => (false, m)
  | some slot =>
    if slot.peer.failed then (false, m)
    else
      let m := (tell (.added slot.peer.record) m).count Tally.added
      (true, m.write (.added key))

/-- Tracks a peer and announces it, unless it is tracked by now or not accepted. -/
def enrol (tell : Tell) (entry : PeerKey × Record) (m : Members) : Bool × Members :=
  match m.upsert entry.2 with
  | (.inserted _, m) => m.announce tell entry.1
  | (_, m) => (false, m)

def reconcile (tell : Tell) (candidates : KeyMap Record) (m : Members) : Changes × Members :=
  let tracked := m.snapshot.map (·.key)
  let m := m.note (.resolved candidates)
  let (removed, m) := sweep (withdraw tell) (tracked.filter fun k => !candidates.contains k) m
  let (restored, m) := sweep (keep tell) (candidates.entries.filter fun e => tracked.contains e.1) m
  let (added, m) := sweep (enrol tell) (candidates.entries.filter fun e => !tracked.contains e.1) m
  ({ added := added.map (·.1), removed, restored := restored.map (·.1) }, m.note .reconciled)

end Members

end Roster
