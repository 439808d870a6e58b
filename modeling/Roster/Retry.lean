import Roster.Clock
import Roster.Journal

/-!
# Retry — a bounded number of attempts with a pause after each failure

* `Retry`: how often, how long the pause, how long an attempt may take.
* `Answer`: what an attempt comes to and how long that takes. `Script`: the answers to come.
* `Retry.outcome`: when an attempt ends and with what; an answer at the very end of the allowed time
  counts.
* `Retry.repeatable?`, `Retry.ending?`: the decisions after an attempt and after a pause.
* `Retry.execute`: a whole series of attempts against given answers, with a `Signal` that may cut it
  short.
-/

namespace Roster

/-- How an operation is repeated. -/
structure Retry where
  /-- The number of attempts. -/
  attempts : UInt32
  /-- The pause after each failed attempt, the last included. -/
  delay : Duration
  /-- The longest time for one attempt. -/
  timeout : Option Duration
  attempts_pos : 0 < attempts

/-- What an attempt comes to, and how long that takes. -/
structure Answer (α : Type) where
  result : Except DiscoveryError α
  latency : Duration

/-- The answers to come: those of the list, and after them the fallback every time. -/
structure Script (α : Type) where
  answers : List (Answer α)
  fallback : Option (Answer α)

namespace Script

variable {α : Type}

/-- The answer once a script without a fallback is used up. -/
def spent : Answer α := ⟨.error (.directory "script exhausted"), .zero⟩

/-- The next answer, and the script after it. -/
def next (s : Script α) : Answer α × Script α :=
  match s.answers with
  | a :: rest => (a, { s with answers := rest })
  | [] => (s.fallback.getD spent, s)

/-- Appends answers. -/
def push (s : Script α) (answers : List (Answer α)) : Script α :=
  { s with answers := s.answers ++ answers }

end Script

namespace Retry

variable {α : Type}

/-- At least one attempt, without a limit on its time. -/
def of (attempts : UInt32) (delay : Duration) : Retry :=
  if h : 0 < attempts then ⟨attempts, delay, none, h⟩ else ⟨1, delay, none, by decide⟩

theorem attempts_of (attempts : UInt32) (delay : Duration) :
    (Retry.of attempts delay).attempts = max 1 attempts := by
  unfold Retry.of
  split
  · next pos =>
    have le : 1 ≤ attempts := UInt32.le_iff_toNat_le.2 (UInt32.lt_iff_toNat_lt.1 pos)
    exact (if_pos le).symm
  · next none =>
    have le : ¬ 1 ≤ attempts := fun le =>
      none (UInt32.lt_iff_toNat_lt.2 (UInt32.le_iff_toNat_le.1 le))
    exact (if_neg le).symm

theorem delay_of (attempts : UInt32) (delay : Duration) : (Retry.of attempts delay).delay = delay := by
  unfold Retry.of
  split <;> rfl

/-- The same with a limit on the time of each attempt. -/
def within (r : Retry) (timeout : Duration) : Retry := { r with timeout := some timeout }

/-- When an attempt that begins at `now` ends, and with what. -/
def outcome (r : Retry) (operation : String) (now : Nat) (answer : Answer α) :
    Nat × Except DiscoveryError α :=
  let ends := Clock.after now answer.latency
  match r.timeout with
  | none => (ends, answer.result)
  | some after =>
    let limit := Clock.after now after
    (min ends limit, if ends ≤ limit then answer.result else .error (.timeout operation after))

/-- An attempt ends on a tick. -/
theorem outcome_mod (r : Retry) (operation : String) (now : Nat) (answer : Answer α) :
    (r.outcome operation now answer).1 % Clock.tick = 0 := by
  unfold outcome
  split
  · exact Clock.after_mod _ _
  · exact Clock.min_mod (Clock.after_mod _ _) (Clock.after_mod _ _)

/-- The failure after which the operation is repeated. A success, a cancellation and an error that
no repetition mends are final. -/
def repeatable? : Except DiscoveryError α → Option DiscoveryError
  | .ok _ => none
  | .error e => if !e.isCancelled && e.isTransient then some e else none

/-- The error after the last attempt. -/
def exhausted (r : Retry) (operation : String) (last : DiscoveryError) : DiscoveryError :=
  .exhausted operation r.attempts r.delay last

/-- The error that ends the operation after a pause with `left` attempts to go, if it does not go
on. -/
def ending? (r : Retry) (operation : String) (cancelled : Bool) (left : Nat)
    (last : DiscoveryError) : Option DiscoveryError :=
  if left = 0 then some (r.exhausted operation last)
  else if cancelled then some .cancelled
  else none

/-- A failure for good counts as no result. A cancellation stays an error. -/
def optional (operation : String) :
    Except DiscoveryError α → Except DiscoveryError (Option α) × List Remark
  | .ok value => (.ok (some value), [])
  | .error e => if e.isCancelled then (.error e, []) else (.ok none, [.givingUp operation e])

/-! ## A series of attempts -/

/-- A request to stop that may come while an operation is repeated. -/
inductive Signal where
  | never
  /-- From this time on the operation counts as cancelled. -/
  | closes (time : Nat)
  /-- At this time one message comes in; the first pause that finds it ends the operation. -/
  | sends (time : Nat)
deriving DecidableEq

namespace Signal

/-- Whether the operation counts as cancelled at `now`. -/
def isClosed (s : Signal) (now : Nat) : Bool :=
  match s with
  | closes time => time ≤ now
  | _ => false

/-- When a pause from `start` to `stop` is cut short. -/
def cut? (s : Signal) (start stop : Nat) : Option Nat :=
  match s with
  | never => none
  | closes time | sends time => if time < stop then some (max time start) else none

end Signal

/-- How a series of attempts went. -/
structure Course (α : Type) where
  /-- When each attempt began. -/
  starts : List Nat
  /-- When the series was over. -/
  ends : Nat
  result : Except DiscoveryError α

/-- The series from an attempt at `now` on, with `left` attempts to go. -/
def series (r : Retry) (operation : String) (signal : Signal) :
    Nat → Nat → Script α → Course α
  | 0, now, _ => ⟨[], now, .error .cancelled⟩
  | left + 1, now, script =>
    let (answer, script) := script.next
    let (ends, result) := r.outcome operation now answer
    match repeatable? result with
    | none => ⟨[now], ends, result⟩
    | some last =>
      let stop := Clock.after ends r.delay
      match signal.cut? ends stop with
      | some time => ⟨[now], time, .error .cancelled⟩
      | none =>
        match r.ending? operation (signal.isClosed stop) left last with
        | some e => ⟨[now], stop, .error e⟩
        | none =>
          let course := series r operation signal left stop script
          { course with starts := now :: course.starts }

/-- The whole operation, begun at `now`. No attempt is made if it counts as cancelled by then. -/
def execute (r : Retry) (operation : String) (signal : Signal) (now : Nat) (script : Script α) :
    Course α :=
  if signal.isClosed now then ⟨[], now, .error .cancelled⟩
  else r.series operation signal r.attempts.toNat now script

end Retry

end Roster
