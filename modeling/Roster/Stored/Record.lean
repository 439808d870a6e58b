import Roster.Json.Decode
import Roster.Json.Value
import Roster.Peer

/-!
# Stored.Record — records and keys as JSON

* A key is a JSON string. A record is an object with `address`, `port`, `group_key` and `ready`.
* `PeerKey.toJson`, `Record.toJson`: writing. `PeerKey.ofJson?`, `Record.ofJson?`: reading.
-/

namespace Roster

open Json

/-- The bytes of a text, as a reader of JSON wants them. -/
def Json.bytesOf (s : String) : List UInt8 := s.toUTF8.toList

def PeerKey.toJson (k : PeerKey) : String := (Value.string k.text).text

def PeerKey.ofJson? (s : String) : Option PeerKey := do
  return ⟨← (← Tree.ofBytes? (bytesOf s)).text?⟩

namespace Record

/-- The fields of a stored record, in order. -/
def fieldNames : List String := ["address", "port", "group_key", "ready"]

def toJson (r : Record) : String :=
  (Value.object
    [("address", .string r.address), ("port", .nat r.port.toNat),
     ("group_key", .optionText r.group), ("ready", .bool r.ready)]).text

/-- A port number. -/
def portOf? (t : Tree) : Option UInt16 := (t.natUpTo? (UInt16.size - 1)).map (·.toUInt16)

/-- The record that a value holds. Only the group may be missing. -/
def ofTree? (t : Tree) : Option Record := do
  let f ← Fields.ofTree? fieldNames fieldNames.length t
  let address ← f.get? "address" Tree.text?
  let port ← f.get? "port" portOf?
  let group ← f.getD? "group_key" (Tree.option? Tree.text?) none
  let ready ← f.get? "ready" Tree.bool?
  return { address, port, group, ready }

def ofJson? (s : String) : Option Record := do ofTree? (← Tree.ofBytes? (bytesOf s))

end Record

end Roster
