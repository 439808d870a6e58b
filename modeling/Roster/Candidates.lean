import Roster.Config.Basic
import Roster.KeyMap
import Roster.Partition

/-!
# Candidates — which peers of a directory answer may be tracked

* `Record.expand`: the records of one host on consecutive ports.
* `expandPorts`: that for a whole answer.
* `Admission`: the rules: port range, partitioning, local address, readiness.
* `Admission.candidates`: the records that pass, by key; of two with the same key the first stays.
-/

namespace Roster

/-- The record on one of the ports that follow its own, if that is a port. -/
def Record.shift? (r : Record) (offset : Nat) : Option Record :=
  let port := r.port.toNat + offset
  if port < UInt16.size then some { r with port := port.toUInt16 } else none

/-- The record on its port and the `range` ports after it, as far as there are ports. A record
without a port stays as it is. -/
def Record.expand (range : UInt16) (r : Record) : List Record :=
  if r.port = 0 then [r] else (List.range (range.toNat + 1)).filterMap r.shift?

def expandPorts (range : UInt16) (records : List Record) : List Record :=
  if range = 0 then records else records.flatMap (·.expand range)

/-- The rules for candidates. -/
structure Admission where
  portRange : UInt16
  partitioner : Partitioner
  localAddress : Option Address
  requireReady : Bool
deriving DecidableEq

namespace Admission

/-- The rules that the settings ask for. -/
def ofConfig (c : Config) : Admission where
  portRange := c.portRange
  partitioner := ⟨c.splitDuringRollingUpdate, c.localAddress⟩
  localAddress := c.localAddress
  requireReady := c.requireReady

/-- The record is not the local node, and ready if that is asked for. -/
def admits (a : Admission) (r : Record) : Bool :=
  (match a.localAddress with
    | some address => !r.matchesAddress address
    | none => true) && (!a.requireReady || r.ready)

/-- The candidates of an answer: ports expanded, narrowed to the local group, without the local
node, without peers that are not ready, without excluded peers, the first record of each key. -/
def candidates (a : Admission) (isExcluded : PeerKey → Bool) (answer : List Record) :
    KeyMap Record × PartitionOutcome :=
  let (records, outcome) := a.partitioner.partition (expandPorts a.portRange answer)
  let entries := (records.filter a.admits).map fun r => (r.key, r)
  (.ofList (entries.filter fun e => !isExcluded e.1), outcome)

end Admission

end Roster
