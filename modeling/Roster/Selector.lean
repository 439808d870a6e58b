/-!
# Selector — what a directory is asked for

* `Selector`: the addresses of a service, or the pods of a namespace.
-/

namespace Roster

/-- What to ask the directory for. -/
inductive Selector where
  /-- Every address a service name resolves to. -/
  | service (name : String)
  /-- The pods of a namespace, optionally narrowed by a label selector. -/
  | pods (space : String) (labels : Option String)
deriving DecidableEq

namespace Selector

/-- The pods of the namespace `default`. -/
def standard : Selector := .pods "default" none

instance : Inhabited Selector := ⟨standard⟩

/-- The selector in words. -/
def text : Selector → String
  | service name => "service " ++ name
  | pods space (some labels) => "pods in " ++ space ++ " matching " ++ labels
  | pods space none => "pods in " ++ space

end Selector

end Roster
