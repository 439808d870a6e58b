import Roster.Address.Reader
import Roster.Address.Writer
import Roster.Config.Basic
import Roster.Stored.Selector

/-!
# Stored.Config — settings as JSON

* A duration is stored as whole milliseconds with the unit: `"250ms"`. One of `2^64` milliseconds or
  more cannot be stored. On reading, the unit may be missing or repeated.
* `Config.toJson`: the JSON text, or the first duration that does not fit.
* `Config.ofTree?`, `Config.ofJson?`: reading. Only the local address may be missing.
-/

namespace Roster

open Json

namespace Duration

/-- The stored form; none for a duration that does not fit. -/
def toStored? (d : Duration) : Option String :=
  if d.millis < UInt64.size then some (Decimal.write d.millis ++ "ms") else none

/-- Characters in reverse without the units in front. -/
def dropUnits : List Char → List Char
  | 's' :: 'm' :: rest => dropUnits rest
  | s => s

/-- The duration that a stored form stands for. -/
def ofStored? (s : String) : Option Duration :=
  match Decimal.read (UInt64.size - 1) (dropUnits s.toList.reverse).reverse with
  | .ok ms => some (ofMillis ms)
  | .error _ => none

def ofTree? (t : Tree) : Option Duration := do ofStored? (← t.text?)

end Duration

/-- Why settings cannot be stored: a duration is too long. -/
structure Unstorable where
  duration : Duration
deriving DecidableEq

/-- The reason in words. -/
def Unstorable.message (u : Unstorable) : String :=
  "duration " ++ u.duration.text ++ " does not fit in u64 milliseconds"

namespace Config

/-- The fields of stored settings, in order. -/
def fieldNames : List String :=
  ["selector", "query_interval", "initial_delay", "connect_timeout", "read_timeout",
   "operation_attempts", "operation_sleep", "min_connect_time", "initial_reconnect_delay",
   "max_reconnect_delay", "max_reconnect_attempts", "split_clusters_during_rolling_update",
   "local_address", "require_ready", "port_range"]

/-- A duration as a value to be written. -/
def durationValue (d : Duration) : Except Unstorable Value :=
  match d.toStored? with
  | some s => .ok (.string s)
  | none => .error ⟨d⟩

/-- The settings as a value to be written, or the first duration that does not fit. -/
def toValue (c : Config) : Except Unstorable Value := do
  let queryInterval ← durationValue c.queryInterval
  let initialDelay ← durationValue c.initialDelay
  let connectTimeout ← durationValue c.connectTimeout
  let readTimeout ← durationValue c.readTimeout
  let operationSleep ← durationValue c.operationSleep
  let minConnectTime ← durationValue c.minConnectTime
  let initialReconnectDelay ← durationValue c.initialReconnectDelay
  let maxReconnectDelay ← durationValue c.maxReconnectDelay
  return .object
    [("selector", c.selector.toValue),
     ("query_interval", queryInterval),
     ("initial_delay", initialDelay),
     ("connect_timeout", connectTimeout),
     ("read_timeout", readTimeout),
     ("operation_attempts", .nat c.operationAttempts.toNat),
     ("operation_sleep", operationSleep),
     ("min_connect_time", minConnectTime),
     ("initial_reconnect_delay", initialReconnectDelay),
     ("max_reconnect_delay", maxReconnectDelay),
     ("max_reconnect_attempts", .nat c.maxReconnectAttempts.toNat),
     ("split_clusters_during_rolling_update", .bool c.splitDuringRollingUpdate),
     ("local_address", .optionText (c.localAddress.map Address.write)),
     ("require_ready", .bool c.requireReady),
     ("port_range", .nat c.portRange.toNat)]

/-- The settings as JSON, or the first duration that does not fit. -/
def toJson (c : Config) : Except Unstorable String := c.toValue.map Value.text

/-- A 32-bit count. -/
def countOf? (t : Tree) : Option UInt32 := (t.natUpTo? (UInt32.size - 1)).map (·.toUInt32)

/-- An address in text. -/
def addressOf? (t : Tree) : Option Address := do Address.read? (← t.text?)

def ofTree? (t : Tree) : Option Config := do
  let f ← Fields.ofTree? fieldNames fieldNames.length t
  let selector ← f.get? "selector" Selector.ofTree?
  let queryInterval ← f.get? "query_interval" Duration.ofTree?
  let initialDelay ← f.get? "initial_delay" Duration.ofTree?
  let connectTimeout ← f.get? "connect_timeout" Duration.ofTree?
  let readTimeout ← f.get? "read_timeout" Duration.ofTree?
  let operationAttempts ← f.get? "operation_attempts" countOf?
  let operationSleep ← f.get? "operation_sleep" Duration.ofTree?
  let minConnectTime ← f.get? "min_connect_time" Duration.ofTree?
  let initialReconnectDelay ← f.get? "initial_reconnect_delay" Duration.ofTree?
  let maxReconnectDelay ← f.get? "max_reconnect_delay" Duration.ofTree?
  let maxReconnectAttempts ← f.get? "max_reconnect_attempts" countOf?
  let splitDuringRollingUpdate ← f.get? "split_clusters_during_rolling_update" Tree.bool?
  let localAddress ← f.getD? "local_address" (Tree.option? addressOf?) none
  let requireReady ← f.get? "require_ready" Tree.bool?
  let portRange ← f.get? "port_range" Record.portOf?
  return { selector, queryInterval, initialDelay, connectTimeout, readTimeout, operationAttempts,
           operationSleep, minConnectTime, initialReconnectDelay, maxReconnectDelay,
           maxReconnectAttempts, splitDuringRollingUpdate, localAddress, requireReady, portRange }

def ofJson? (s : String) : Option Config := do ofTree? (← Tree.ofBytes? (bytesOf s))

end Config

end Roster
