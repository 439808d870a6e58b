/-!
# Address.Basic — IP addresses

* `Address`: four octets, or eight groups of sixteen bits.
* `Address.rank`: the order of addresses, as a list compared from the front: IPv4 before IPv6, then
  by value.
-/

namespace Roster

/-- The eight groups of an IPv6 address, most significant first. -/
structure Groups where
  toList : List UInt16
  length_toList : toList.length = 8
deriving DecidableEq

/-- The groups of a list of eight. -/
def Groups.ofList? (l : List UInt16) : Option Groups :=
  if h : l.length = 8 then some ⟨l, h⟩ else none

/-- An IP address. -/
inductive Address where
  | v4 (a b c d : UInt8)
  | v6 (groups : Groups)
deriving DecidableEq

namespace Address

/-- The place of the address in the order of addresses. -/
def rank : Address → List Nat
  | v4 a b c d => [0, a.toNat, b.toNat, c.toNat, d.toNat]
  | v6 groups => 1 :: groups.toList.map (·.toNat)

end Address

end Roster
