import Roster.Selector
import Roster.Stored.Record

/-!
# Stored.Selector — selectors as JSON

* An object with one member, named for the kind: `{"service": name}` or `{"pods": {"namespace": …,
  "labels": …}}`.
* `Selector.toValue`, `Selector.toJson`: writing. `Selector.ofTree?`, `Selector.ofJson?`: reading.
-/

namespace Roster

open Json

namespace Selector

def toValue : Selector → Value
  | service name => .object [("service", .string name)]
  | pods space labels =>
    .object [("pods", .object [("namespace", .string space), ("labels", .optionText labels)])]

def toJson (s : Selector) : String := s.toValue.text

/-- The fields of a stored pod selector, in order. -/
def podFields : List String := ["namespace", "labels"]

/-- The pod selector that a value holds. -/
def podsOfTree? (t : Tree) : Option Selector := do
  let f ← Fields.ofTree? podFields podFields.length t
  let space ← f.get? "namespace" Tree.text?
  let labels ← f.getD? "labels" (Tree.option? Tree.text?) none
  return pods space labels

def ofTree? (t : Tree) : Option Selector := do
  match ← t.members? with
  | [("service", name)] => return service (← name.text?)
  | [("pods", fields)] => podsOfTree? fields
  | _ => none

def ofJson? (s : String) : Option Selector := do ofTree? (← Tree.ofBytes? (bytesOf s))

end Selector

end Roster
