import Roster.Engine.State

/-!
# Engine.Turn — one job goes on

* `attempt`, `afterAttempt`, `afterPause`: a cycle asks the directory, again and again.
* `resolve`, `conclude`, `finish`: what a cycle makes of the outcome, and the end of it.
* `nextTick`, `serveTick`, `afterCycle`: the poll loop. A late tick is served at once, and the next
  one is due at the next multiple of the interval after now.
* `resumeRun`: a cycle goes on. One whose pause is over at the moment it is asked to stop may take
  notice of either first.
* `step`: any job. `turnOver`: the first job that can go on. `jump`: time moves to the next alarm.

No step waits: a job that goes on at once is put before all others, one that has to wait sets an
alarm.
-/

namespace Roster

namespace Engine

/-! ## Cycles -/

/-- The turn goes to the cycle that has queued longest. -/
def passTurn (e : Engine) : Engine :=
  match e.queue with
  | [] => { e with turn := none }
  | id :: rest => { e with turn := some id, queue := rest }.wake (.resume id)

/-- A cycle takes its turn if nobody has it, else it queues. -/
def takeTurn (e : Engine) (id : Nat) : Engine :=
  match e.turn with
  | none => { e with turn := some id }.goOn (.resume id)
  | some _ => { e with queue := e.queue ++ [id] }

/-- A cycle comes into being. -/
def newRun (e : Engine) (ofLoop : Bool) : Nat × Engine :=
  (e.started, { e with
    started := e.started + 1
    runs := e.runs ++ [⟨e.started, ofLoop, .queued⟩] })

/-- A cycle is no longer in flight. -/
def dropRun (e : Engine) (id : Nat) : Engine := { e with runs := e.runs.filter (·.id != id) }

def attempt (e : Engine) (id left : Nat) : Engine :=
  let asked := e.directory.ask e.config.selector
  let course := e.retry.outcome operation e.now asked.1
  let e := { e with directory := asked.2, calls := ⟨e.now, id⟩ :: e.calls }
  (e.setStage id (.attempting left course.1 course.2)).goOnAt course.1 (.resume id)

/-- The candidates that a cycle finds in an answer. -/
def found (e : Engine) (answer : List Record) : KeyMap Record × PartitionOutcome :=
  (Admission.ofConfig e.config).candidates e.members.isExcluded answer

/-- A cycle writes what it has to say about the candidates. -/
def briefed (e : Engine) (answer : List Record) : Engine :=
  (e.found answer).2.remarks.foldl write e

/-- A cycle has an answer: the candidates become the tracked peers. -/
def resolve (e : Engine) (answer : List Record) : Report × Engine :=
  let found := e.found answer
  let done := (e.briefed answer).onMembers (Members.reconcile Members.tell found.1)
  let counted := done.2.count Tally.cycle
  (⟨true, found.1.size, done.1, found.2⟩, counted.count (·.resolved counted.members.size))

/-- A cycle has no answer: everything stays as it is. -/
def unresolve (e : Engine) : Report × Engine :=
  let e := e.write (.unresolved e.directory.describe e.config.selector.text e.retry.attempts)
  (.unresolved, (e.count Tally.resolutionFailure).count Tally.cycle)

/-! ## The poll loop -/

/-- How late a tick may be served and still be followed by the one an interval after it. -/
def tolerance : Nat := 5 * Clock.tick

/-- When the tick after one is due that was due at `due` and is served at `now`. The clock is taken to
have room for the tick after a late one. -/
def nextTick (interval : Duration) (due now : Nat) : Nat :=
  if now ≤ due + tolerance then Clock.later now due interval
  else now + interval.nanos - (now - due) % interval.nanos

/-- A tick is served: the poll loop starts a cycle. -/
def serveTick (e : Engine) (due : Nat) : Engine :=
  let (id, e) := e.newRun true
  { e with loop := .cycling id (nextTick e.config.queryInterval due e.now) }.takeTurn id

/-- The poll loop waits for a tick. -/
def awaitTick (e : Engine) (due : Nat) : Engine :=
  { e with loop := .waiting due }.goOnAt (Clock.roundUp due) .loop

/-- The poll loop after a cycle. A cancellation ends it. -/
def afterCycle (e : Engine) (result : CycleResult) : Engine :=
  match e.loop, result with
  | .cycling _ next, .ok _ => e.awaitTick next
  | .cycling _ next, .error error =>
    if error.isCancelled then { e with loop := .ended } else e.awaitTick next
  | _, _ => e

/-- The poll loop goes on. -/
def resumeLoop (e : Engine) : Engine :=
  if e.aborted then { e with loop := .ended }
  else
    match e.loop with
    | .starting =>
      if e.config.initialDelay.isZero then e.serveTick e.now
      else
        let ends := Clock.after e.now e.config.initialDelay
        { e with loop := .delaying ends }.goOnAt ends .loop
    | .delaying ends => if ends ≤ e.now then e.serveTick e.now else e
    | .waiting due => if Clock.roundUp due ≤ e.now then e.serveTick due else e
    | _ => e

/-! ## The end -/

/-- Asks the cycles in flight to stop. One that pauses notices at once. -/
def closeChannel (e : Engine) : Engine :=
  let pausing := e.runs.filter fun r => match r.stage with
    | .pausing _ _ _ => true
    | _ => false
  pausing.foldl (fun e r => e.wake (.resume r.id)) { e with channel := .closed }

/-- Tells the poll loop to end. -/
def abortLoop (e : Engine) : Engine :=
  match e.loop with
  | .ended => e
  | .cycling id _ => { e with aborted := true }.wake (.resume id)
  | _ => { e with aborted := true }.wake .loop

/-- Nothing happens any more: no cycle is repeated, no tick served, no peer tracked. -/
def silence (e : Engine) : Engine :=
  let e := { e with running := false }.closeChannel.abortLoop
  { e with members := e.members.close }

/-- An instance that its owner has let go stops once no call is in flight. -/
def settleRelease (e : Engine) : Engine :=
  if e.released && e.runs.all (·.ofLoop) then e.silence else e

/-! ## Outcomes -/

def finish (e : Engine) (run : Run) (result : CycleResult) : Engine :=
  let e := (e.dropRun run.id).passTurn
  let e := { e with results := (run.id, result) :: e.results }
  if run.ofLoop then e.afterCycle result else e.settleRelease

/-- A cycle has the outcome of its directory query. -/
def conclude (e : Engine) (run : Run) (outcome : Except DiscoveryError (List Record)) : Engine :=
  let (answer, remarks) := Retry.optional operation outcome
  let e := remarks.foldl write e
  match answer with
  | .error error => e.finish run (.error error)
  | .ok none => let (report, e) := e.unresolve; e.finish run (.ok report)
  | .ok (some records) => let (report, e) := e.resolve records; e.finish run (.ok report)

/-- It is a cycle's turn. -/
def enter (e : Engine) (run : Run) : Engine :=
  if e.members.closed then e.finish run (.error .shutdown)
  else if e.isCancelled then e.conclude run (.error .cancelled)
  else e.attempt run.id e.retry.attempts.toNat

def afterAttempt (e : Engine) (run : Run) (left : Nat)
    (outcome : Except DiscoveryError (List Record)) : Engine :=
  match Retry.repeatable? outcome with
  | none => e.conclude run outcome
  | some last =>
    let ends := Clock.after e.now e.retry.delay
    let e := e.setStage run.id (.pausing (left - 1) ends last)
    if e.isCancelled then e.goOn (.resume run.id) else e.goOnAt ends (.resume run.id)

def afterPause (e : Engine) (run : Run) (left : Nat) (last : DiscoveryError) : Engine :=
  match e.retry.ending? operation e.isCancelled left last with
  | some error => e.conclude run (.error error)
  | none => e.attempt run.id left

/-- The poll loop's cycle is given up in the middle. -/
def abandon (e : Engine) (run : Run) : Engine :=
  let e := { e.dropRun run.id with loop := .ended, queue := e.queue.filter (· != run.id) }
  if e.turn = some run.id then e.passTurn else e

/-- A cycle goes on, if it can. Where it can go on after a pause and is asked to stop as well, `heeds`
tells whether it heeds that first. -/
def resumeRun (e : Engine) (run : Run) (heeds : Bool := false) : Engine :=
  if run.ofLoop && e.aborted then e.abandon run
  else
    match run.stage with
    | .queued => if e.turn = some run.id then e.enter run else e
    | .attempting left ends outcome => if ends ≤ e.now then e.afterAttempt run left outcome else e
    | .pausing left ends last =>
      if e.isCancelled && (heeds || e.now < ends) then e.conclude run (.error .cancelled)
      else if ends ≤ e.now then e.afterPause run left last
      else e

/-- Somebody's cycle starts, unless discovery was stopped before. -/
def startRun (e : Engine) (id : Nat) : Engine :=
  if e.running then e.takeTurn id
  else { e.dropRun id with results := (id, .error .shutdown) :: e.results }.settleRelease

/-! ## Steps -/

/-- A reconnect timer goes off. -/
def fireTimer (e : Engine) (timer : Nat) : Engine :=
  (e.onMembers (Members.fire Members.tell timer)).2

/-- A reconnect timer starts to wait; one that is due already goes off. -/
def armTimer (e : Engine) (timer : Nat) : Engine :=
  match e.members.timers.find? (·.id == timer) with
  | none => e
  | some t =>
    if t.due ≤ e.now then e.fireTimer timer
    else { e with alarms := e.alarms ++ [⟨t.due, .fire timer⟩] }

/-- A job goes on. `heeds` is for a cycle after a pause. -/
def step (e : Engine) (job : Job) (heeds : Bool := false) : Engine :=
  match job with
  | .arm timer => e.armTimer timer
  | .fire timer => e.fireTimer timer
  | .start id => e.startRun id
  | .resume id => match e.run? id with
    | some run => e.resumeRun run heeds
    | none => e
  | .loop => e.resumeLoop

def turnOver (e : Engine) : Engine :=
  match e.ready with
  | [] => e
  | job :: rest => { e with ready := rest }.step job

/-- The time of the next alarm. -/
def nextDue? (e : Engine) : Option Nat := (e.alarms.map (·.due)).min?

/-- The clock moves to `time`; every alarm that is due by then lets its job go on. -/
def jump (e : Engine) (time : Nat) : Engine :=
  let (due, later) := e.alarms.partition (·.due ≤ time)
  let e := { e with alarms := later, members := { e.members with now := time } }
  due.foldl (fun e a => e.wake a.job) e

end Engine

end Roster
