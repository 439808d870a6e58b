import Roster.Address.Basic
import Roster.Text.Decimal

/-!
# Address.Writer — the canonical text of IP addresses

* Octets in decimal between dots; groups in lower case without leading zeros between colons.
* `longestZeros`: the longest run of zero groups, the first of equals. A run of two or more is
  written `::`.
* `mapped?`: an IPv4 address inside IPv6, which keeps its dotted form after `::ffff:`.
* `Address.write`: the text.
-/

namespace Roster

namespace Address

/-- The number of zero groups at the front. -/
def zerosAhead : List UInt16 → Nat
  | [] => 0
  | g :: rest => if g = 0 then zerosAhead rest + 1 else 0

/-- Where the longest run of zero groups begins, and its length. -/
def longestZeros : List UInt16 → Nat × Nat
  | [] => (0, 0)
  | g :: rest =>
    let here := zerosAhead (g :: rest)
    let (start, length) := longestZeros rest
    if length ≤ here then (0, here) else (start + 1, length)

/-- A group in hexadecimal. -/
def writeGroup (g : UInt16) : List Char := Nat.toDigits 16 g.toNat

/-- Groups between colons. -/
def writeGroups : List UInt16 → List Char
  | [] => []
  | [g] => writeGroup g
  | g :: rest => writeGroup g ++ ':' :: writeGroups rest

/-- An octet in decimal. -/
def writeOctet (o : UInt8) : List Char := Nat.toDigits 10 o.toNat

/-- Four octets between dots. -/
def writeV4 (a b c d : UInt8) : List Char :=
  writeOctet a ++ '.' :: (writeOctet b ++ '.' :: (writeOctet c ++ '.' :: writeOctet d))

/-- The IPv4 address that the groups carry behind `::ffff:`. -/
def mapped? : List UInt16 → Option (UInt8 × UInt8 × UInt8 × UInt8)
  | [0, 0, 0, 0, 0, 0xffff, x, y] =>
    some ((x.toNat / 256).toUInt8, (x.toNat % 256).toUInt8,
      (y.toNat / 256).toUInt8, (y.toNat % 256).toUInt8)
  | _ => none

/-- The characters of eight groups. -/
def writeV6 (groups : List UInt16) : List Char :=
  match mapped? groups with
  | some (a, b, c, d) => "::ffff:".toList ++ writeV4 a b c d
  | none =>
    let (start, length) := longestZeros groups
    if length < 2 then writeGroups groups
    else writeGroups (groups.take start) ++ ':' :: ':' :: writeGroups (groups.drop (start + length))

/-- The characters of an address. -/
def toChars : Address → List Char
  | v4 a b c d => writeV4 a b c d
  | v6 groups => writeV6 groups.toList

def write (a : Address) : String := String.ofList a.toChars

end Address

end Roster
