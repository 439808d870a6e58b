/-!
# Json.Token — the tokens of a JSON text, byte by byte

* `Token`: punctuation, literals, numbers and strings as they are written. A string keeps its
  escapes, a number its digits: what they stand for is looked at only where it is asked for.
* `Mode`: where the reader stands between two bytes. `Mode.step`: what one byte does.
* `Token.ofBytes?`: all tokens of a text.

Bytes that are not UTF-8 may stand in a string, and so may escapes of lone surrogates.
-/

namespace Roster

namespace Json

/-- A token of a JSON text. -/
inductive Token where
  | beginObject
  | endObject
  | beginArray
  | endArray
  | colon
  | comma
  | null
  | bool (value : Bool)
  /-- A number as it is written. -/
  | number (bytes : List UInt8)
  /-- The bytes between the quotes as they are written. -/
  | string (bytes : List UInt8)
deriving DecidableEq

/-- How far a number has been read. -/
inductive Numeral where
  /-- After the minus sign. -/
  | sign
  /-- After a leading zero. -/
  | zero
  /-- After digits of the whole part. -/
  | whole
  /-- After the point. -/
  | point
  /-- After digits of the fraction. -/
  | fraction
  /-- After the exponent mark. -/
  | mark
  /-- After the sign of the exponent. -/
  | markSign
  /-- After digits of the exponent. -/
  | exponent
deriving DecidableEq

/-- Where the reader stands. What was read of the current token is kept latest byte first. -/
inductive Mode where
  | between
  | string (read : List UInt8)
  /-- After a backslash. -/
  | escape (read : List UInt8)
  /-- Inside an escape by number, with this many digits to come. -/
  | hex (left : Nat) (read : List UInt8)
  | number (state : Numeral) (read : List UInt8)
  /-- Inside a literal, with these bytes to come. -/
  | literal (rest : List UInt8) (token : Token)
deriving DecidableEq

/-- A decimal digit. -/
def isDigit (b : UInt8) : Bool := 0x30 ≤ b && b ≤ 0x39

/-- A hexadecimal digit in either case. -/
def isHexDigit (b : UInt8) : Bool :=
  isDigit b || (0x41 ≤ b && b ≤ 0x46) || (0x61 ≤ b && b ≤ 0x66)

/-- The escapes of one character: quote, both slashes, b, f, n, r, t. -/
def isEscape (b : UInt8) : Bool :=
  b == 0x22 || b == 0x5C || b == 0x2F || b == 0x62 || b == 0x66 || b == 0x6E || b == 0x72 ||
    b == 0x74

namespace Numeral

/-- A number may end here. -/
def isComplete : Numeral → Bool
  | zero | whole | fraction | exponent => true
  | _ => false

/-- The next byte of a number; none if it is not part of the number. -/
def next? (s : Numeral) (b : UInt8) : Option Numeral :=
  match s with
  | sign => if b == 0x30 then some zero else if isDigit b then some whole else none
  | zero => if b == 0x2E then some point else if b == 0x65 || b == 0x45 then some mark else none
  | whole =>
    if isDigit b then some whole
    else if b == 0x2E then some point
    else if b == 0x65 || b == 0x45 then some mark
    else none
  | point => if isDigit b then some fraction else none
  | fraction =>
    if isDigit b then some fraction else if b == 0x65 || b == 0x45 then some mark else none
  | mark =>
    if isDigit b then some exponent else if b == 0x2B || b == 0x2D then some markSign else none
  | markSign => if isDigit b then some exponent else none
  | exponent => if isDigit b then some exponent else none

end Numeral

namespace Mode

/-- A byte between tokens. -/
def start (b : UInt8) : Option (List Token × Mode) :=
  if b == 0x20 || b == 0x09 || b == 0x0A || b == 0x0D then some ([], between)
  else if b == 0x7B then some ([.beginObject], between)
  else if b == 0x7D then some ([.endObject], between)
  else if b == 0x5B then some ([.beginArray], between)
  else if b == 0x5D then some ([.endArray], between)
  else if b == 0x3A then some ([.colon], between)
  else if b == 0x2C then some ([.comma], between)
  else if b == 0x22 then some ([], string [])
  else if b == 0x2D then some ([], number .sign [b])
  else if b == 0x30 then some ([], number .zero [b])
  else if isDigit b then some ([], number .whole [b])
  else if b == 0x74 then some ([], literal [0x72, 0x75, 0x65] (.bool true))
  else if b == 0x66 then some ([], literal [0x61, 0x6C, 0x73, 0x65] (.bool false))
  else if b == 0x6E then some ([], literal [0x75, 0x6C, 0x6C] .null)
  else none

/-- What a byte does: the tokens that it ends, and where the reader stands after it. -/
def step (m : Mode) (b : UInt8) : Option (List Token × Mode) :=
  match m with
  | between => start b
  | string read =>
    if b == 0x22 then some ([.string read.reverse], between)
    else if b == 0x5C then some ([], escape (b :: read))
    else if b < 0x20 then none
    else some ([], string (b :: read))
  | escape read =>
    if b == 0x75 then some ([], hex 4 (b :: read))
    else if isEscape b then some ([], string (b :: read))
    else none
  | hex left read =>
    if !isHexDigit b then none
    else if left ≤ 1 then some ([], string (b :: read))
    else some ([], hex (left - 1) (b :: read))
  | number state read =>
    match state.next? b with
    | some state => some ([], number state (b :: read))
    | none =>
      if !state.isComplete || isDigit b then none
      else (start b).map fun (tokens, mode) => (.number read.reverse :: tokens, mode)
  | literal rest token =>
    match rest with
    | [] => none
    | [last] => if b == last then some ([token], between) else none
    | next :: rest => if b == next then some ([], literal rest token) else none

/-- The token that the end of the text ends. -/
def finish : Mode → Option (List Token)
  | between => some []
  | number state read => if state.isComplete then some [.number read.reverse] else none
  | _ => none

end Mode

/-- A reader in the middle of a text. -/
structure Lexer where
  mode : Mode
  /-- The tokens so far, latest first. -/
  tokens : List Token

namespace Lexer

/-- Takes one byte. -/
def feed (l : Lexer) (b : UInt8) : Option Lexer :=
  (l.mode.step b).map fun (tokens, mode) => ⟨mode, tokens.reverse ++ l.tokens⟩

end Lexer

def Token.ofBytes? (bytes : List UInt8) : Option (List Token) := do
  let l ← bytes.foldlM Lexer.feed ⟨.between, []⟩
  let last ← l.mode.finish
  return (last.reverse ++ l.tokens).reverse

end Json

end Roster
