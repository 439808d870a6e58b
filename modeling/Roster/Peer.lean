import Roster.Text.Decimal

/-!
# Peer — the identity of a peer and what a directory says about it

* `PeerKey`: the address and the port in one text; `PeerKey.ofEndpoint` writes it.
* `Record`: an entry of a directory answer; `Record.key` is its identity.
* Keys are ordered by code point, which is the order of their UTF-8 bytes.
-/

namespace Roster

/-- The identity of a peer: `address:port`, `[address]:port` for an address with colons, or the bare
address. -/
structure PeerKey where
  text : String
deriving DecidableEq, Inhabited

namespace PeerKey

instance : LT PeerKey := ⟨fun a b => a.text < b.text⟩
instance (a b : PeerKey) : Decidable (a < b) := inferInstanceAs (Decidable (a.text < b.text))

theorem lt_irrefl (a : PeerKey) : ¬ a < a := String.lt_irrefl a.text

theorem lt_trans {a b c : PeerKey} (h : a < b) (h' : b < c) : a < c := String.lt_trans h h'

theorem lt_of_not_lt_of_ne {a b : PeerKey} (h : ¬ a < b) (h' : a ≠ b) : b < a := by
  rcases String.le_total a.text b.text with hab | hba
  · by_cases hb : b.text ≤ a.text
    · exact absurd (congrArg PeerKey.mk (String.le_antisymm hab hb)) h'
    · exact absurd (String.not_le.1 hb) h
  · by_cases ha : a.text ≤ b.text
    · exact absurd (congrArg PeerKey.mk (String.le_antisymm ha hba)) h'
    · exact String.not_le.1 ha

/-- The key of an address and a port. Port 0 leaves the port out; an address with colons that is not
yet bracketed gets brackets. -/
def ofEndpoint (address : String) (port : UInt16) : PeerKey :=
  if port = 0 then ⟨address⟩
  else
    let chars := address.toList
    if chars.contains ':' && chars.head? != some '[' then
      ⟨"[" ++ address ++ "]:" ++ Decimal.write port.toNat⟩
    else ⟨address ++ ":" ++ Decimal.write port.toNat⟩

end PeerKey

/-- What a directory says about one peer. -/
structure Record where
  /-- Host address, usually an IP literal. -/
  address : String
  port : UInt16
  /-- Deployment generation, if the directory knows it. -/
  group : Option String
  ready : Bool
deriving DecidableEq, Inhabited

namespace Record

/-- A ready record without a group. -/
def plain (address : String) (port : UInt16) : Record := ⟨address, port, none, true⟩

/-- The identity of the record; group and readiness have no part in it. -/
def key (r : Record) : PeerKey := .ofEndpoint r.address r.port

/-- The key, then the group and a mark for a peer that is not ready. -/
def text (r : Record) : String :=
  r.key.text ++ (match r.group with
    | some group => " (group " ++ group ++ ")"
    | none => "") ++ (if r.ready then "" else " [not ready]")

end Record

end Roster
