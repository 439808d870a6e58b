/-!
# Text.Percent — text inside the path of a request

* `encode`: letters, digits and `-`, `_`, `.`, `~` stay; every other UTF-8 byte becomes `%` and two
  upper-case hexadecimal digits.
* `decode?`: the way back.
-/

namespace Roster

namespace Percent

/-- The byte stands for itself. -/
def isPlain (b : UInt8) : Bool :=
  let n := b.toNat
  (0x30 ≤ n && n ≤ 0x39) || (0x41 ≤ n && n ≤ 0x5A) || (0x61 ≤ n && n ≤ 0x7A) ||
    n == 0x2D || n == 0x5F || n == 0x2E || n == 0x7E

/-- An upper-case hexadecimal digit. -/
def digit (n : Nat) : Char := if n < 10 then Char.ofNat (n + 0x30) else Char.ofNat (n - 10 + 0x41)

/-- The characters for one byte. -/
def encodeByte (b : UInt8) : List Char :=
  if isPlain b then [Char.ofNat b.toNat] else ['%', digit (b.toNat / 16), digit (b.toNat % 16)]

def encode (s : String) : String := String.ofList (s.toUTF8.toList.flatMap encodeByte)

/-- The value of a hexadecimal digit. -/
def digit? (c : Char) : Option Nat :=
  if '0' ≤ c ∧ c ≤ '9' then some (c.toNat - '0'.toNat)
  else if 'A' ≤ c ∧ c ≤ 'F' then some (c.toNat - 'A'.toNat + 10)
  else none

/-- The bytes that encoded characters stand for. -/
def decodeBytes? : List Char → Option (List UInt8)
  | [] => some []
  | '%' :: hi :: lo :: rest => do
    let high ← digit? hi
    let low ← digit? lo
    let bytes ← decodeBytes? rest
    return (high * 16 + low).toUInt8 :: bytes
  | c :: rest =>
    let b := c.toNat.toUInt8
    if isPlain b && c.toNat < 256 then (decodeBytes? rest).map (b :: ·) else none

def decode? (s : String) : Option String := do
  let bytes ← decodeBytes? s.toList
  String.fromUTF8? ⟨bytes.toArray⟩

end Percent

end Roster
