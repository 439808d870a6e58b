import Roster.Candidates
import Roster.Directory.Basic
import Roster.Members.Listener
import Roster.Members.Reconcile

/-!
# Engine.State — discovery at work: cycles in flight, the poll loop, the clock's alarms

* `Report`: what one cycle observed and changed.
* `Stage`, `Run`: a cycle in flight. Cycles take turns: one holds the turn, the others queue for it.
* `Loop`: where the poll loop stands.
* `Job`: something that can go on now. `Alarm`: something that can go on at a later time.
* `Engine`: all of it. Jobs are taken first come, first served; time moves when no job is left.
-/

namespace Roster

/-- What one cycle observed and changed. -/
structure Report where
  /-- The directory answered. -/
  resolved : Bool
  /-- Candidates left after filtering. -/
  candidates : Nat
  changes : Changes
  partition : PartitionOutcome
deriving DecidableEq

namespace Report

/-- The report of a cycle without an answer. -/
def unresolved : Report := ⟨false, 0, ⟨[], [], []⟩, .disabled⟩

/-- The cycle left the active view as it was. -/
def isNoop (r : Report) : Bool :=
  r.changes.added.isEmpty && r.changes.removed.isEmpty && r.changes.restored.isEmpty

end Report

/-- Where a cycle in flight stands. -/
inductive Stage where
  /-- It has not had its turn yet. -/
  | queued
  /-- It asked the directory; `outcome` comes in at `ends`. `left` counts the attempts, this one
  included. -/
  | attempting (left ends : Nat) (outcome : Except DiscoveryError (List Record))
  /-- It pauses until `ends` after a failure, with `left` attempts to go. -/
  | pausing (left ends : Nat) (last : DiscoveryError)

/-- A cycle in flight. -/
structure Run where
  id : Nat
  /-- The poll loop started it; else somebody called for it. -/
  ofLoop : Bool
  stage : Stage

/-- Where the poll loop stands. -/
inductive Loop where
  /-- There is no poll loop, or it has ended. -/
  | ended
  /-- It has not begun. -/
  | starting
  /-- It waits for the time of its first tick. -/
  | delaying (ends : Nat)
  /-- It waits for the tick that is due at this time. -/
  | waiting (due : Nat)
  /-- It runs a cycle; the next tick is due at this time. -/
  | cycling (run next : Nat)
deriving DecidableEq

/-- Something that can go on. -/
inductive Job where
  /-- A reconnect timer starts to wait. -/
  | arm (timer : Nat)
  /-- A reconnect timer goes off. -/
  | fire (timer : Nat)
  /-- Somebody's cycle starts. -/
  | start (run : Nat)
  /-- A cycle in flight goes on. -/
  | resume (run : Nat)
  /-- The poll loop goes on. -/
  | loop
deriving DecidableEq

/-- A job that can go on from a given time. -/
structure Alarm where
  due : Nat
  job : Job
deriving DecidableEq

/-- The channel by which cycles are asked to stop. -/
inductive Channel where
  | absent
  | listening
  | closed
deriving DecidableEq

/-- The outcome of a cycle. -/
abbrev CycleResult := Except DiscoveryError Report

/-- A call to the directory. -/
structure DirectoryCall where
  time : Nat
  run : Nat
deriving DecidableEq

/-- Discovery at work. -/
structure Engine where
  config : Config
  directory : Directory
  members : Members
  channel : Channel
  /-- Nobody has stopped discovery. -/
  running : Bool
  loop : Loop
  /-- The poll loop was told to end and does so when it is next due. -/
  aborted : Bool
  /-- The owner has let go of the instance; it stops with the last call in flight. -/
  released : Bool
  /-- The cycles in flight. -/
  runs : List Run
  /-- The cycle whose turn it is. -/
  turn : Option Nat
  /-- The cycles that wait for their turn, first come first. -/
  queue : List Nat
  /-- The jobs that can go on, first come first. -/
  ready : List Job
  /-- The alarms in the order they were set. -/
  alarms : List Alarm
  /-- The number of cycles started so far. -/
  started : Nat
  /-- The outcomes of the cycles that came to an end, latest first. -/
  results : List (Nat × CycleResult)
  /-- The calls to the directory, latest first. -/
  calls : List DirectoryCall

namespace Engine

/-- An engine over a membership, without a poll loop. -/
def still (config : Config) (directory : Directory) (members : Members) (channel : Channel) :
    Engine where
  config := config
  directory := directory
  members := members
  channel := channel
  running := true
  loop := .ended
  aborted := false
  released := false
  runs := []
  turn := none
  queue := []
  ready := []
  alarms := []
  started := 0
  results := []
  calls := []

/-- The time on the clock. -/
def now (e : Engine) : Nat := e.members.now

/-- How directory queries are repeated. -/
def retry (e : Engine) : Retry :=
  (Retry.of e.config.operationAttempts e.config.operationSleep).within e.config.attemptTimeout

/-- The name of the directory query in the log. -/
def operation : String := "list peers"

/-- Cycles are asked to stop. -/
def isCancelled (e : Engine) : Bool := e.channel == .closed

/-- The cycle in flight with this number. -/
def run? (e : Engine) (id : Nat) : Option Run := e.runs.find? (·.id == id)

/-- The outcome of a cycle that came to an end. -/
def result? (e : Engine) (id : Nat) : Option CycleResult :=
  (e.results.find? (·.1 == id)).map (·.2)

/-- A job joins the others at the end, unless it is among them. -/
def wake (e : Engine) (job : Job) : Engine :=
  if e.ready.contains job then e else { e with ready := e.ready ++ [job] }

/-- A job goes on before all others. -/
def goOn (e : Engine) (job : Job) : Engine := { e with ready := job :: e.ready }

/-- A job goes on at a given time: at once if that has come, else by an alarm. -/
def goOnAt (e : Engine) (due : Nat) (job : Job) : Engine :=
  if due ≤ e.now then e.goOn job else { e with alarms := e.alarms ++ [⟨due, job⟩] }

/-- Moves a cycle to another stage. -/
def setStage (e : Engine) (id : Nat) (stage : Stage) : Engine :=
  { e with runs := e.runs.map fun r => if r.id = id then { r with stage } else r }

/-- Changes the membership. Reconnect timers that were armed on the way start to wait when they are
next due. -/
def onMembers {α : Type} (f : Members → α × Members) (e : Engine) : α × Engine :=
  let done := f e.members
  let fresh := (List.range (done.2.armed - e.members.armed)).map fun i =>
    Job.arm (e.members.armed + i)
  (done.1, { e with members := done.2, ready := e.ready ++ fresh })

/-- Writes a line into the log. -/
def write (e : Engine) (remark : Remark) : Engine := { e with members := e.members.write remark }

/-- Counts something. -/
def count (e : Engine) (f : Tally → Tally) : Engine := { e with members := e.members.count f }

end Engine

end Roster
