import Roster.Address.Basic

/-!
# Address.Reader — IP addresses from text

* `readV4`: four decimal numbers up to 255 without leading zeros, between dots.
* `readV6`: eight groups of up to four hexadecimal digits between colons. `::` stands for one zero
  group or more; the last two groups may be written as an IPv4 address. No brackets and no zone.
* `Address.read?`: either, and nothing after it.

Each reader takes what it can from the front of the text and answers with the rest.
-/

namespace Roster

namespace Address

/-- The value of a digit in base ten or sixteen. -/
def digit? (base : Nat) (c : Char) : Option Nat :=
  let value :=
    if '0' ≤ c ∧ c ≤ '9' then c.toNat - '0'.toNat
    else if 'a' ≤ c ∧ c ≤ 'f' then c.toNat - 'a'.toNat + 10
    else if 'A' ≤ c ∧ c ≤ 'F' then c.toNat - 'A'.toNat + 10
    else base
  if value < base then some value else none

/-- The digits at the front, as values, and the rest. -/
def readDigits (base : Nat) : List Char → List Nat × List Char
  | [] => ([], [])
  | c :: rest =>
    match digit? base c with
    | some d => let (ds, rest) := readDigits base rest; (d :: ds, rest)
    | none => ([], c :: rest)

/-- The number that digits stand for. -/
def value (base : Nat) (digits : List Nat) : Nat := digits.foldl (fun n d => n * base + d) 0

/-- A number of at most `most` digits. -/
def readNumber (base most : Nat) (leadingZeros : Bool) (s : List Char) : Option (Nat × List Char) :=
  let (digits, rest) := readDigits base s
  if digits.isEmpty || most < digits.length then none
  else if !leadingZeros && digits.head? == some 0 && 1 < digits.length then none
  else some (value base digits, rest)

/-- A decimal number that fits an octet. -/
def readOctet (s : List Char) : Option (UInt8 × List Char) :=
  match readNumber 10 3 false s with
  | some (n, rest) => if n ≤ 255 then some (n.toUInt8, rest) else none
  | none => none

/-- A given character at the front. -/
def expect (c : Char) : List Char → Option (List Char)
  | [] => none
  | c' :: rest => if c' = c then some rest else none

/-- Four octets between dots. -/
def readV4 (s : List Char) : Option ((UInt8 × UInt8 × UInt8 × UInt8) × List Char) := do
  let (a, s) ← readOctet s
  let (b, s) ← readOctet (← expect '.' s)
  let (c, s) ← readOctet (← expect '.' s)
  let (d, s) ← readOctet (← expect '.' s)
  return ((a, b, c, d), s)

/-- Two octets as a group. -/
def pair (hi lo : UInt8) : UInt16 := (hi.toNat * 256 + lo.toNat).toUInt16

/-- A group of up to four hexadecimal digits. -/
def readGroup (s : List Char) : Option (UInt16 × List Char) :=
  (readNumber 16 4 true s).map fun (n, rest) => (n.toUInt16, rest)

/-- At most `most` groups between colons, with a leading colon unless they are the first. An IPv4
address may stand for two groups and is the last thing read; the answer tells whether one was. -/
def readGroups : Nat → Bool → List Char → List UInt16 × Bool × List Char
  | 0, _, s => ([], false, s)
  | most + 1, first, s =>
    match if first then some s else expect ':' s with
    | none => ([], false, s)
    | some body =>
      match if 0 < most then readV4 body else none with
      | some ((a, b, c, d), rest) => ([pair a b, pair c d], true, rest)
      | none =>
        match readGroup body with
        | none => ([], false, s)
        | some (g, rest) =>
          let (gs, dotted, rest) := readGroups most false rest
          (g :: gs, dotted, rest)

/-- Eight groups, or groups before and after `::`. -/
def readV6 (s : List Char) : Option (Groups × List Char) := do
  let (head, dotted, s) := readGroups 8 true s
  if head.length = 8 then return (← Groups.ofList? head, s)
  if dotted then none
  let s ← expect ':' s
  let s ← expect ':' s
  let (tail, _, s) := readGroups (8 - (head.length + 1)) true s
  let zeros := List.replicate (8 - head.length - tail.length) 0
  return (← Groups.ofList? (head ++ zeros ++ tail), s)

/-- The address that a list of characters spells. -/
def ofChars? (s : List Char) : Option Address :=
  match readV4 s with
  | some ((a, b, c, d), rest) => if rest.isEmpty then some (.v4 a b c d) else none
  | none =>
    match readV6 s with
    | some (groups, rest) => if rest.isEmpty then some (.v6 groups) else none
    | none => none

def read? (s : String) : Option Address := ofChars? s.toList

/-- Why a text is no address. -/
def syntaxMessage : String := "invalid IP address syntax"

end Address

end Roster
