/-!
# Text.Decimal — unsigned numbers in decimal

* `Decimal.write`: the digits of a number, no sign and no leading zeros.
* `Decimal.read`: an optional plus sign and at least one digit, up to a limit; the fault says why
  not.
-/

namespace Roster

namespace Decimal

/-- Why a text is no number up to the limit. -/
inductive Fault where
  | empty
  | digit
  | large
deriving DecidableEq, Inhabited

/-- The fault in words. -/
def Fault.message : Fault → String
  | .empty => "cannot parse integer from empty string"
  | .digit => "invalid digit found in string"
  | .large => "number too large to fit in target type"

def write (n : Nat) : String := toString n

/-- The value of a decimal digit. -/
def digit? (c : Char) : Option Nat :=
  if '0' ≤ c ∧ c ≤ '9' then some (c.toNat - '0'.toNat) else none

/-- Reads digits after a prefix worth `acc`. The first digit that is none, or that lifts the value
over the limit, is the fault. -/
def readDigits (limit : Nat) : Nat → List Char → Except Fault Nat
  | acc, [] => .ok acc
  | acc, c :: rest =>
    match digit? c with
    | none => .error .digit
    | some d => if acc * 10 + d ≤ limit then readDigits limit (acc * 10 + d) rest else .error .large

/-- Reads a number up to `limit`. A plus sign may stand before the digits. -/
def read (limit : Nat) : List Char → Except Fault Nat
  | [] => .error .empty
  | ['+'] => .error .digit
  | '+' :: rest => readDigits limit 0 rest
  | s => readDigits limit 0 s

end Decimal

end Roster
