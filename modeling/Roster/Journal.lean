import Roster.Error
import Roster.Peer

/-!
# Journal — what discovery writes into its log

* `Remark`: the things worth a line, with what they are about.
* `Remark.level`, `Remark.message`, `Remark.fields`: the line itself.
-/

namespace Roster

/-- How urgent a line is. -/
inductive Level where
  | info
  | warn
deriving DecidableEq, Inhabited

/-- The name of the level. -/
def Level.name : Level → String
  | info => "INFO"
  | warn => "WARN"

/-- The value of a field of a line. -/
inductive Detail where
  | text (s : String)
  | number (n : Nat)
  | flag (b : Bool)
deriving DecidableEq

/-- Why the deployment generation of the local node is unknown. -/
inductive GroupUnknown where
  /-- No local address is configured. -/
  | noAddress
  /-- No candidate carries the local address. -/
  | notListed
  /-- The candidate with the local address has no group key. -/
  | noGroup
deriving DecidableEq, Inhabited

def GroupUnknown.message : GroupUnknown → String
  | noAddress => "local address not configured"
  | notListed => "local address not among candidates"
  | noGroup => "local candidate has no group key"

/-- A line of the log, by what it says. -/
inductive Remark where
  | started (directory selector : String) (interval : Duration)
  | stopped
  | added (peer : PeerKey)
  | removed (peer : PeerKey)
  | restored (peer : PeerKey) (reset : Bool)
  | reconnecting (peer : PeerKey) (next : Duration)
  | excluding (peer : PeerKey) (failures : UInt32)
  | readmitted (peer : PeerKey)
  | givingUp (operation : String) (error : DiscoveryError)
  | unresolved (directory selector : String) (attempts : UInt32)
  | groupUnknown (reason : GroupUnknown)
deriving DecidableEq

namespace Remark

def level : Remark → Level
  | excluding _ _ | givingUp _ _ | unresolved _ _ _ | groupUnknown _ => .warn
  | _ => .info

def message : Remark → String
  | started _ _ _ => "peer discovery started"
  | stopped => "peer discovery stopped"
  | added _ => "peer discovered, added"
  | removed _ => "peer no longer listed, removed"
  | restored _ _ => "failed peer listed again, restored"
  | reconnecting _ _ => "reconnecting peer"
  | excluding _ _ => "peer failed too many times, excluding it"
  | readmitted _ => "excluded peer readmitted"
  | givingUp operation _ => "giving up on " ++ operation
  | unresolved _ _ _ => "failed to resolve peers, keeping the current view"
  | groupUnknown _ =>
    "rolling update partitioning is enabled but the local node's group is unknown, " ++
      "all peers will be placed in the same cluster"

def fields : Remark → List (String × Detail)
  | started directory selector interval =>
    [("directory", .text directory), ("selector", .text selector),
     ("interval", .text interval.text)]
  | stopped => []
  | added peer | removed peer | readmitted peer => [("peer", .text peer.text)]
  | restored peer reset => [("peer", .text peer.text), ("counters_reset", .flag reset)]
  | reconnecting peer next => [("peer", .text peer.text), ("next_delay", .text next.text)]
  | excluding peer failures => [("peer", .text peer.text), ("failures", .number failures.toNat)]
  | givingUp _ error => [("error", .text error.message)]
  | unresolved directory selector attempts =>
    [("directory", .text directory), ("selector", .text selector),
     ("attempts", .number attempts.toNat)]
  | groupUnknown reason => [("reason", .text reason.message)]

end Remark

end Roster
