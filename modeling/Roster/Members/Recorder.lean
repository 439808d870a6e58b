import Roster.Members.State

/-!
# Members.Recorder — listeners that keep what they are told for others to read

* `Recorder`: every notice in order, with counts and the active view that results.
* `Events`: a queue of notices between the listener and one receiver, who may leave.
-/

namespace Roster

/-- A listener that keeps every notice. -/
structure Recorder where
  /-- The notices, oldest first. -/
  notices : List Notice
deriving DecidableEq

namespace Recorder

/-- Nothing heard yet. -/
def empty : Recorder := ⟨[]⟩

/-- Hears a notice. -/
def hear (r : Recorder) (notice : Notice) : Recorder := ⟨r.notices ++ [notice]⟩

/-- Forgets everything. -/
def clear (_ : Recorder) : Recorder := empty

/-- The records of the added peers, oldest first. -/
def added (r : Recorder) : List Record := r.notices.filterMap fun
  | .added record => some record
  | .removed _ => none

/-- How often the peer was announced. -/
def addedCount (r : Recorder) (key : PeerKey) : Nat := r.added.countP (·.key == key)

/-- How often the peer was withdrawn. -/
def removedCount (r : Recorder) (key : PeerKey) : Nat := r.notices.countP (· == .removed key)

/-- The effect of a notice on the active view. -/
def applyNotice (view : KeySet) : Notice → KeySet
  | .added record => view.insert record.key ()
  | .removed key => view.erase key

/-- The active view after every notice. -/
def active (r : Recorder) : KeySet := r.notices.foldl applyNotice .empty

end Recorder

/-- Notices on their way to a receiver. -/
structure Events where
  queue : List Notice
  /-- The receiver is still there. -/
  received : Bool
deriving DecidableEq

/-- What a receiver finds. -/
inductive Reception where
  | notice (notice : Notice)
  | empty
  | noReceiver
deriving DecidableEq

namespace Events

/-- Nothing on its way, and somebody to receive it. -/
def empty : Events := ⟨[], true⟩

/-- Sends a notice; without a receiver it is lost. -/
def send (e : Events) (notice : Notice) : Events :=
  if e.received then { e with queue := e.queue ++ [notice] } else e

/-- Takes the oldest notice. -/
def receive (e : Events) : Reception × Events :=
  if !e.received then (.noReceiver, e)
  else
    match e.queue with
    | [] => (.empty, e)
    | notice :: rest => (.notice notice, { e with queue := rest })

/-- The receiver leaves, and what was on its way is lost. -/
def dropReceiver (_ : Events) : Events := ⟨[], false⟩

end Events

end Roster
