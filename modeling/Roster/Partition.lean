import Roster.Address.Reader
import Roster.Address.Writer
import Roster.Journal

/-!
# Partition — only the local deployment generation during a rolling update

* `Record.matchesAddress`: whether a record points at an address, whatever way it spells it.
* `Partitioner`: the switch and the local address.
* `Partitioner.localGroup`: the group key of the first candidate at the local address, or why there
  is none.
* `Partitioner.partition`: keeps the local group. Where that is unknown every candidate is kept.
-/

namespace Roster

/-- Whether the record points at the address. Square brackets at the ends of its address are not
looked at. -/
def Record.matchesAddress (r : Record) (address : Address) : Bool :=
  let isBracket (c : Char) : Bool := c == '[' || c == ']'
  let bare := ((r.address.toList.dropWhile isBracket).reverse.dropWhile isBracket).reverse
  match Address.ofChars? bare with
  | some own => own == address
  | none => r.address == address.write

/-- What became of the candidates. -/
inductive PartitionOutcome where
  /-- Partitioning is switched off. -/
  | disabled
  /-- Only a group was kept. -/
  | partitioned (group : String) (kept dropped : Nat)
  /-- The local group is unknown; all were kept. -/
  | unidentified (reason : GroupUnknown)
deriving DecidableEq

/-- Restricts candidates to the local deployment generation. -/
structure Partitioner where
  enabled : Bool
  localAddress : Option Address
deriving DecidableEq

namespace Partitioner

/-- A partitioner that keeps everything. -/
def standard : Partitioner := ⟨false, none⟩

/-- The group key of the first candidate at the local address. -/
def localGroup (p : Partitioner) (candidates : List Record) : Except GroupUnknown String :=
  match p.localAddress with
  | none => .error .noAddress
  | some address =>
    match candidates.find? (·.matchesAddress address) with
    | none => .error .notListed
    | some own =>
      match own.group with
      | none => .error .noGroup
      | some group => .ok group

/-- The candidates of the local group, and what became of the others. -/
def partition (p : Partitioner) (candidates : List Record) : List Record × PartitionOutcome :=
  if !p.enabled then (candidates, .disabled)
  else
    match p.localGroup candidates with
    | .error reason => (candidates, .unidentified reason)
    | .ok group =>
      let kept := candidates.filter (·.group == some group)
      (kept, .partitioned group kept.length (candidates.length - kept.length))

end Partitioner

/-- The lines of the log about an outcome. -/
def PartitionOutcome.remarks : PartitionOutcome → List Remark
  | unidentified reason => [.groupUnknown reason]
  | _ => []

end Roster
