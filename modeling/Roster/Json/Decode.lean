import Roster.Json.Tree
import Roster.Text.Decimal

/-!
# Json.Decode — reading values of known shape

* `unescape`: the bytes that a written string stands for; lone surrogates stand for nothing.
* `Tree.text?`, `Tree.natUpTo?`, `Tree.bool?`, `Tree.list?`, `Tree.option?`: values of one kind.
* `Fields`: the values of a structure with known fields, from an object or from an array in the
  order of the fields. Unknown members of an object are passed over; a known one may stand there
  once.
* `Fields.get?`: a field that must be there. `Fields.getD?`: a field with a default.
-/

namespace Roster

namespace Json

/-! ## Strings -/

/-- The value of a hexadecimal digit. -/
def hexValue (b : UInt8) : Nat :=
  if b ≤ 0x39 then b.toNat - 0x30 else if b ≤ 0x46 then b.toNat - 0x41 + 10 else b.toNat - 0x61 + 10

/-- The value of four hexadecimal digits. -/
def hexUnit (a b c d : UInt8) : Nat :=
  ((hexValue a * 16 + hexValue b) * 16 + hexValue c) * 16 + hexValue d

/-- The bytes of the character with a number. -/
def encodeChar (n : Nat) : List UInt8 := String.utf8EncodeChar (Char.ofNat n)

/-- The byte that an escape of one character stands for. -/
def escapeValue (b : UInt8) : UInt8 :=
  if b == 0x62 then 0x08
  else if b == 0x66 then 0x0C
  else if b == 0x6E then 0x0A
  else if b == 0x72 then 0x0D
  else if b == 0x74 then 0x09
  else b

/-- The bytes that a written string stands for. Two escapes by number make one character if they are
a pair of surrogates; a surrogate by itself is no character. -/
def unescape : List UInt8 → Option (List UInt8)
  | [] => some []
  | 0x5C :: 0x75 :: a :: b :: c :: d :: 0x5C :: 0x75 :: a' :: b' :: c' :: d' :: rest =>
    let n := hexUnit a b c d
    let n' := hexUnit a' b' c' d'
    if 0xD800 ≤ n ∧ n ≤ 0xDBFF then
      if 0xDC00 ≤ n' ∧ n' ≤ 0xDFFF then
        (unescape rest).map (encodeChar (0x10000 + (n - 0xD800) * 0x400 + (n' - 0xDC00)) ++ ·)
      else none
    else if 0xDC00 ≤ n ∧ n ≤ 0xDFFF then none
    else (unescape (0x5C :: 0x75 :: a' :: b' :: c' :: d' :: rest)).map (encodeChar n ++ ·)
  | 0x5C :: 0x75 :: a :: b :: c :: d :: rest =>
    let n := hexUnit a b c d
    if 0xD800 ≤ n ∧ n ≤ 0xDFFF then none else (unescape rest).map (encodeChar n ++ ·)
  | 0x5C :: b :: rest => (unescape rest).map (escapeValue b :: ·)
  | b :: rest => (unescape rest).map (b :: ·)

/-- The text that a written string stands for. -/
def decodeString (bytes : List UInt8) : Option String := do
  let bytes ← unescape bytes
  String.fromUTF8? ⟨bytes.toArray⟩

/-! ## Values of one kind -/

namespace Tree

def text? : Tree → Option String
  | string bytes => decodeString bytes
  | _ => none

def bool? : Tree → Option Bool
  | bool value => some value
  | _ => none

/-- A number up to `limit`, written with digits only. -/
def natUpTo? (limit : Nat) : Tree → Option Nat
  | number bytes =>
    match Decimal.readDigits limit 0 (bytes.map fun b => Char.ofNat b.toNat) with
    | .ok n => some n
    | .error _ => none
  | _ => none

/-- An array whose items are all of one kind. -/
def list? {α : Type} (item : Tree → Option α) : Tree → Option (List α)
  | array items => items.mapM item
  | _ => none

def option? {α : Type} (value : Tree → Option α) : Tree → Option (Option α)
  | null => some none
  | tree => (value tree).map some

/-- The members of an object, with their keys as text. -/
def members? : Tree → Option (List (String × Tree))
  | object members => members.mapM fun (key, tree) => (decodeString key).map (·, tree)
  | _ => none

end Tree

/-! ## Structures -/

/-- The values given for the known fields of a structure. -/
structure Fields where
  values : List (String × Tree)

namespace Fields

/-- The fields of an object: the members with known names, of each name at most one. -/
def ofMembers? (names : List String) (members : List (String × Tree)) : Option Fields :=
  let known := members.filter fun m => names.contains m.1
  if (known.map (·.1)).Nodup then some ⟨known⟩ else none

/-- The fields of an array: in order, not more than there are, and at least the first `needed`. -/
def ofItems? (names : List String) (needed : Nat) (items : List Tree) : Option Fields :=
  if items.length ≤ names.length ∧ needed ≤ items.length then some ⟨names.zip items⟩ else none

/-- The fields of a structure. An array may leave out those after the first `needed`. -/
def ofTree? (names : List String) (needed : Nat) : Tree → Option Fields
  | .object members => do ofMembers? names (← Tree.members? (.object members))
  | .array items => ofItems? names needed items
  | _ => none

/-- The value given for a field. -/
def find? (f : Fields) (name : String) : Option Tree := (f.values.find? (·.1 == name)).map (·.2)

def get? {α : Type} (f : Fields) (name : String) (value : Tree → Option α) : Option α :=
  (f.find? name).bind value

def getD? {α : Type} (f : Fields) (name : String) (value : Tree → Option α) (missing : α) :
    Option α :=
  match f.find? name with
  | some tree => value tree
  | none => some missing

end Fields

end Json

end Roster
