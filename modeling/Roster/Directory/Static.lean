import Roster.Error
import Roster.Peer
import Roster.Selector

/-!
# Directory.Static — a fixed list of peers

* `StaticDirectory`: the list; it can be replaced, extended, and rid of an address.
* `StaticDirectory.list`: the whole list, whatever the selector.
-/

namespace Roster

/-- A list of peers held in memory. -/
structure StaticDirectory where
  records : List Record
deriving DecidableEq

namespace StaticDirectory

/-- Replaces the list. -/
def set (_ : StaticDirectory) (records : List Record) : StaticDirectory := ⟨records⟩

/-- Adds a record at the end. -/
def push (d : StaticDirectory) (record : Record) : StaticDirectory := ⟨d.records ++ [record]⟩

/-- Removes every record with the address. The answer is the number of them. -/
def removeAddress (d : StaticDirectory) (address : String) : Nat × StaticDirectory :=
  let kept := d.records.filter (·.address != address)
  (d.records.length - kept.length, ⟨kept⟩)

/-- The list; the selector plays no part. -/
def list (d : StaticDirectory) (_ : Selector) : Except DiscoveryError (List Record) := .ok d.records

/-- Every selector can be answered. -/
def supports (_ : StaticDirectory) (_ : Selector) : Bool := true

/-- A short description for the log. -/
def describe (_ : StaticDirectory) : String := "static"

end StaticDirectory

end Roster
