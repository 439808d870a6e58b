import Roster.Clock
import Roster.Error
import Roster.Peer

/-!
# Directory.Rehearsed — a stand-in for a directory, with prepared answers

* `RehearsedDirectory`: a queue of answers, a fallback for when it is empty, a latency, a count of
  the calls.
* `RehearsedDirectory.list`: counts the call, lets the latency pass, and only then takes the next
  answer.
-/

namespace Roster

/-- A directory with prepared answers. -/
structure RehearsedDirectory where
  answers : List (Except String (List Record))
  /-- The answer once the queue is empty. -/
  fallback : Option (Except String (List Record))
  /-- How long every answer takes. -/
  latency : Duration
  /-- The number of calls so far. -/
  calls : Nat

namespace RehearsedDirectory

/-- No answers, no fallback, no latency. -/
def empty : RehearsedDirectory := ⟨[], none, .zero, 0⟩

/-- Always the same records. -/
def repeating (records : List Record) : RehearsedDirectory :=
  { empty with fallback := some (.ok records) }

/-- Queues an answer. -/
def push (d : RehearsedDirectory) (answer : Except String (List Record)) : RehearsedDirectory :=
  { d with answers := d.answers ++ [answer] }

/-- Sets the answer for the empty queue. -/
def setFallback (d : RehearsedDirectory) (answer : Except String (List Record)) :
    RehearsedDirectory :=
  { d with fallback := some answer }

/-- Sets the latency of every answer. -/
def setLatency (d : RehearsedDirectory) (latency : Duration) : RehearsedDirectory :=
  { d with latency }

/-- The number of answers in the queue. -/
def remaining (d : RehearsedDirectory) : Nat := d.answers.length

/-- The next answer. -/
def next (d : RehearsedDirectory) : Except String (List Record) × RehearsedDirectory :=
  match d.answers with
  | answer :: rest => (answer, { d with answers := rest })
  | [] => (d.fallback.getD (.error "script exhausted"), d)

/-- One call at `now`: when the answer is there, and the answer. -/
def list (d : RehearsedDirectory) (now : Nat) :
    (Nat × Except DiscoveryError (List Record)) × RehearsedDirectory :=
  let (answer, d) := { d with calls := d.calls + 1 }.next
  ((Clock.after now d.latency, answer.mapError .directory), d)

/-- A short description for the log. -/
def describe (_ : RehearsedDirectory) : String := "scripted"

end RehearsedDirectory

end Roster
