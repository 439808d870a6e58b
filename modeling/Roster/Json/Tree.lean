import Roster.Json.Token

/-!
# Json.Tree — the value that a JSON text spells

* `Tree`: values with strings and numbers as they are written, members in their order.
* `Builder`: the open arrays and objects, and what may come next. `Builder.feed`: what one token
  does.
* `Tree.ofBytes?`: the value of a whole text, with white space around it and nothing else.

The open values are kept in a list, so a text may nest as deep as it likes.
-/

namespace Roster

namespace Json

/-- A value as it is written. -/
inductive Tree where
  | null
  | bool (value : Bool)
  | number (bytes : List UInt8)
  | string (bytes : List UInt8)
  | array (items : List Tree)
  | object (members : List (List UInt8 × Tree))

/-- A value that is still open. Its parts are kept latest first. -/
inductive Frame where
  | array (items : List Tree)
  | object (members : List (List UInt8 × Tree))
  /-- An object that waits for the value of a member. -/
  | member (key : List UInt8) (members : List (List UInt8 × Tree))

/-- What may come next. -/
inductive Expectation where
  | value
  /-- The first item of an array, or its end. -/
  | itemOrEnd
  /-- The first key of an object, or its end. -/
  | keyOrEnd
  | key
  | colon
  /-- After a part of an open value. -/
  | commaOrEnd
  /-- Nothing; the value is complete. -/
  | nothing (tree : Tree)

/-- A value in the making. -/
structure Builder where
  /-- The open values, innermost first. -/
  frames : List Frame
  next : Expectation

namespace Builder

/-- A value is complete and becomes part of the innermost open value. -/
def put (frames : List Frame) (tree : Tree) : Option Builder :=
  match frames with
  | [] => some ⟨[], .nothing tree⟩
  | .array items :: rest => some ⟨.array (tree :: items) :: rest, .commaOrEnd⟩
  | .member key members :: rest => some ⟨.object ((key, tree) :: members) :: rest, .commaOrEnd⟩
  | .object _ :: _ => none

/-- A token at the place of a value. -/
def value (frames : List Frame) : Token → Option Builder
  | .beginObject => some ⟨.object [] :: frames, .keyOrEnd⟩
  | .beginArray => some ⟨.array [] :: frames, .itemOrEnd⟩
  | .null => put frames .null
  | .bool b => put frames (.bool b)
  | .number bytes => put frames (.number bytes)
  | .string bytes => put frames (.string bytes)
  | _ => none

/-- A token at the place of a key. -/
def key (frames : List Frame) : Token → Option Builder
  | .string bytes =>
    match frames with
    | .object members :: rest => some ⟨.member bytes members :: rest, .colon⟩
    | _ => none
  | _ => none

/-- A token that ends the innermost open value. -/
def close (frames : List Frame) : Token → Option Builder
  | .endArray =>
    match frames with
    | .array items :: rest => put rest (.array items.reverse)
    | _ => none
  | .endObject =>
    match frames with
    | .object members :: rest => put rest (.object members.reverse)
    | _ => none
  | _ => none

def feed (b : Builder) (t : Token) : Option Builder :=
  match b.next with
  | .value => value b.frames t
  | .itemOrEnd => if t = .endArray then close b.frames t else value b.frames t
  | .keyOrEnd => if t = .endObject then close b.frames t else key b.frames t
  | .key => key b.frames t
  | .colon => if t = .colon then some { b with next := .value } else none
  | .commaOrEnd =>
    if t = .comma then
      match b.frames with
      | .array _ :: _ => some { b with next := .value }
      | .object _ :: _ => some { b with next := .key }
      | _ => none
    else close b.frames t
  | .nothing _ => none

end Builder

/-- The value that tokens spell. -/
def Tree.ofTokens? (tokens : List Token) : Option Tree := do
  let b ← tokens.foldlM Builder.feed ⟨[], .value⟩
  match b.next with
  | .nothing tree => some tree
  | _ => none

def Tree.ofBytes? (bytes : List UInt8) : Option Tree := do Tree.ofTokens? (← Token.ofBytes? bytes)

end Json

end Roster
