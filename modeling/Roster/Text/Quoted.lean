import Roster.Text.Unprintable

/-!
# Text.Quoted — a text as a literal, in messages about bad values

* `write`: the text between double quotes. Quotes, backslashes and the usual controls get a
  backslash; characters without a printed form of their own are written `\u{…}` with their number in
  hexadecimal.
-/

namespace Roster

namespace Quoted

/-- One character of a literal. -/
def writeChar (c : Char) : List Char :=
  match c with
  | '\x00' => ['\\', '0']
  | '\t' => ['\\', 't']
  | '\r' => ['\\', 'r']
  | '\n' => ['\\', 'n']
  | '\\' => ['\\', '\\']
  | '"' => ['\\', '"']
  | _ =>
    if Unprintable.isUnprintable c then ['\\', 'u', '\x7b'] ++ Nat.toDigits 16 c.toNat ++ ['\x7d']
    else [c]

def write (s : String) : String := String.ofList ('"' :: s.toList.flatMap writeChar ++ ['"'])

end Quoted

end Roster
