import Roster.Directory.Dns
import Roster.Directory.Static
import Roster.Retry

/-!
# Directory.Basic — whom to ask for the peers

* `Directory`: a script of answers, a fixed list, or service names.
* `Directory.ask`: the answer to one call, with the time it takes, and the directory after it.
* `Directory.supports`, `Directory.describe`: what is checked and logged when discovery starts.
-/

namespace Roster

/-- A source of peer lists. -/
inductive Directory where
  /-- Answers prepared in advance. -/
  | scripted (script : Script (List Record))
  /-- A list in memory; the selector plays no part. -/
  | fixed (list : StaticDirectory)
  | dns (names : Dns)

namespace Directory

/-- Whether the directory can answer a selector at all. -/
def supports (d : Directory) (selector : Selector) : Bool :=
  match d with
  | scripted _ => true
  | fixed list => list.supports selector
  | dns names => names.supports selector

def describe : Directory → String
  | scripted _ => "scripted"
  | fixed list => list.describe
  | dns names => names.describe

/-- Asks for the peers. A list in memory answers at once. -/
def ask (d : Directory) (selector : Selector) : Answer (List Record) × Directory :=
  match d with
  | scripted script => let (answer, script) := script.next; (answer, scripted script)
  | fixed list => (⟨list.list selector, .zero⟩, d)
  | dns names => (⟨names.list selector, names.listTime selector⟩, d)

end Directory

end Roster
