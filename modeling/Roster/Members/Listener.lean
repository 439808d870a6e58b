import Roster.Members.Backoff

/-!
# Members.Listener — notices reach a listener that may answer with requests

* `Reaction.OnlyReports`: what a well-behaved listener may do in answer to a notice.
* `record`: the plain listener, which only keeps what it is told.
* `perform`: a request is carried out.
* `tell`: the listener with its reactions. A notice is recorded, then the first reaction that
  answers to it is used up: its requests are carried out one by one, and each reply is recorded
  after whatever the request caused.
-/

namespace Roster

/-- The reaction reports peers failed and does nothing else. -/
def Reaction.OnlyReports (r : Reaction) : Prop := ∀ request ∈ r.requests, ∃ key, request = .fail key

namespace Members

def record : Tell := fun notice m => { m with told := .notice m.now notice :: m.told }

def perform (tell : Tell) (request : Request) (m : Members) : Reply × Members :=
  match request with
  | .upsert record => let (outcome, m) := m.upsert record; (.upsert outcome, m)
  | .find key => (.peer (m.find? key), m)
  | .contains key => (.flag (m.contains key), m)
  | .remove key => let (peer, m) := m.remove key; (.peer peer, m)
  | .fail key => let (outcome, m) := m.fail tell key; (.failed outcome, m)
  | .present record => let (outcome, m) := m.present tell record; (.presence outcome, m)
  | .count => (.count m.size, m)
  | .isExcluded key => (.flag (m.isExcluded key), m)
  | .pardon key => let (lifted, m) := m.pardon key; (.flag lifted, m)
  | .close => let m := m.close; (.flag m.closed, m)
  | .isClosed => (.flag m.closed, m)

/-- The first reaction that answers to the notice, and the others. -/
def takeReaction (notice : Notice) : List Reaction → Option (Reaction × List Reaction)
  | [] => none
  | r :: rest =>
    if r.answers notice then some (r, rest)
    else (takeReaction notice rest).map fun (found, others) => (found, r :: others)

/-- Carries out a request of the listener and records the reply. -/
def react (tell : Tell) (m : Members) (request : Request) : Members :=
  let (reply, m) := m.perform tell request
  { m with told := .reply reply :: m.told }

/-- The listener with its reactions, down to a depth of notices that come from within reactions. -/
def tellWithin : Nat → Tell
  | 0 => record
  | depth + 1 => fun notice m =>
    let m := record notice m
    match takeReaction notice m.reactions with
    | none => m
    | some (reaction, others) =>
      reaction.requests.foldl (react (tellWithin depth)) { m with reactions := others }

/-- The listener with its reactions. Each is used once, so no notice lies deeper than there are
reactions. -/
def tell : Tell := fun notice m => tellWithin m.reactions.length notice m

end Members

end Roster
