import Roster.Engine.Turn

/-!
# Engine.Control — starting, steering and stopping discovery

* `start`: checks the settings and starts the poll loop.
* `call`, `spawn`: somebody wants a cycle now. `fail`, `pardon`, `request`: somebody changes the
  membership.
* `stop`, `release`, `cancel`: the ways to an end.
* `advance`, `sleep`, `await`: time passes, until a given length of it is over or a cycle is.
-/

namespace Roster

namespace Engine

/-- The error where no runtime drives background jobs. -/
def noRuntime : DiscoveryError :=
  .runtime "there is no reactor running, must be called from the context of a Tokio 1.x runtime"

/-- Starts discovery, if the settings are valid and the directory can answer the selector. The
reactions are what the listener will do in answer to notices. -/
def start (config : Config) (directory : Directory) (reactions : List Reaction) :
    Except DiscoveryError Engine :=
  match config.validate with
  | .error violation => .error violation.toError
  | .ok () =>
    if !directory.supports config.selector then
      .error (.config (directory.describe ++ " directory cannot resolve " ++ config.selector.text))
    else
      let members := Members.initial config.policy config.initialReconnectDelay reactions
      let e := still config directory members .listening
      let e := e.write (.started directory.describe config.selector.text config.queryInterval)
      .ok { e with loop := .starting, ready := [.loop] }

/-- Somebody wants a cycle and begins it at once. The answer is the number of the cycle; none if
discovery was stopped. -/
def call (e : Engine) : Option Nat × Engine :=
  if e.running then
    let (id, e) := e.newRun false
    (some id, e.takeTurn id)
  else (none, e)

/-- The answer to a call: the outcome of its cycle, once there is one. A call that was turned away is
answered at once. -/
def answer? (e : Engine) : Option Nat → Option CycleResult
  | some id => e.result? id
  | none => some (.error .shutdown)

/-- Somebody wants a cycle that begins as a job of its own. -/
def spawn (e : Engine) : Nat × Engine :=
  let (id, e) := e.newRun false
  (id, e.wake (.start id))

def fail (e : Engine) (key : PeerKey) : FailOutcome × Engine :=
  e.onMembers (Members.fail Members.tell key)

def pardon (e : Engine) (key : PeerKey) : Bool × Engine :=
  let (lifted, e) := e.onMembers (·.pardon key)
  (lifted, if lifted then e.write (.readmitted key) else e)

/-- Carries out an operation on the membership. -/
def request (e : Engine) (request : Request) : Reply × Engine :=
  e.onMembers (Members.perform Members.tell request)

def stop (e : Engine) : Engine :=
  let stopped := e.silence
  if e.running then stopped.write .stopped else stopped

/-- The owner lets go of the instance, which stops without a word once no call is in flight. -/
def release (e : Engine) : Engine := { e with released := true }.settleRelease

/-- Asks the cycles in flight to stop. The answer tells whether there was a channel to close. -/
def cancel (e : Engine) : Bool × Engine :=
  match e.channel with
  | .listening => (true, e.closeChannel)
  | _ => (false, e)

/-- Discovery as shown to a developer. -/
def debugText (e : Engine) : String :=
  "Discovery \x7b running: " ++ (if e.running then "true" else "false") ++ ", tracked: " ++
    Decimal.write e.members.size ++ " \x7d"

/-! ## Time -/

/-- Lets jobs go on and time pass until no job can go on and `done` holds, for at most `limit`
steps. -/
def advance (done : Engine → Bool) : Nat → Engine → Engine
  | 0, e => e
  | limit + 1, e =>
    if e.ready.isEmpty then
      if done e then e
      else
        match e.nextDue? with
        | some time => advance done limit (e.jump time)
        | none => e
    else advance done limit e.turnOver

/-- More steps than any session takes. -/
def patience : Nat := 1000000000000000

/-- Lets every job go on that can. -/
def settle (e : Engine) : Engine := e.advance (fun _ => true) patience

/-- Somebody waits, for no longer than thirty years. -/
def sleep (e : Engine) (d : Duration) : Engine :=
  let time := min (Clock.after e.now d) (e.now + Clock.thirtyYears)
  let e := e.advance (fun e => match e.nextDue? with
    | some due => time < due
    | none => true) patience
  { e with members := { e.members with now := time } }

def await (e : Engine) (id : Nat) : Option CycleResult × Engine :=
  let e := e.advance (fun e => (e.result? id).isSome) patience
  (e.result? id, e)

end Engine

end Roster
