import Roster.Text.Decimal

/-!
# Json.Value — writing JSON without white space

* `Value`: what is written: numbers without sign or fraction, members in their order.
* `quote`: a text as a JSON string; quotes, backslashes and controls are escaped, all else stands as
  it is.
* `Value.text`: the JSON text.
-/

namespace Roster

namespace Json

/-- A value to be written. -/
inductive Value where
  | null
  | bool (value : Bool)
  | nat (value : Nat)
  | string (value : String)
  | object (members : List (String × Value))

/-- One character of a JSON string. -/
def quoteChar (c : Char) : List Char :=
  match c with
  | '"' => ['\\', '"']
  | '\\' => ['\\', '\\']
  | '\x08' => ['\\', 'b']
  | '\x0C' => ['\\', 'f']
  | '\n' => ['\\', 'n']
  | '\r' => ['\\', 'r']
  | '\t' => ['\\', 't']
  | _ =>
    if c.toNat < 0x20 then
      ['\\', 'u', '0', '0', Nat.digitChar (c.toNat / 16), Nat.digitChar (c.toNat % 16)]
    else [c]

def quote (s : String) : String := String.ofList ('"' :: s.toList.flatMap quoteChar ++ ['"'])

namespace Value

mutual

def text : Value → String
  | null => "null"
  | bool true => "true"
  | bool false => "false"
  | nat n => Decimal.write n
  | string s => quote s
  | object members => "\x7b" ++ membersText members ++ "\x7d"

/-- Members between commas. -/
def membersText : List (String × Value) → String
  | [] => ""
  | [(key, value)] => quote key ++ ":" ++ value.text
  | (key, value) :: rest => quote key ++ ":" ++ value.text ++ "," ++ membersText rest

end

/-- A text, or null. -/
def optionText : Option String → Value
  | some s => string s
  | none => null

end Value

end Json

end Roster
