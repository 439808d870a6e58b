import Roster.Address.Basic
import Roster.Error
import Roster.Policy
import Roster.Selector
import Roster.Text.Blank

/-!
# Config.Basic — the settings of a discovery instance

* `Config`: the settings. `Config.standard`, `Config.dns`, `Config.kubernetes`: where to start from.
* `Setting`, `Config.set`: one setting at a time.
* `Violation`: a rule that settings can break. `Config.validate`: the first one they break.
-/

namespace Roster

/-- The settings of a discovery instance. -/
structure Config where
  selector : Selector
  /-- From one cycle to the next. -/
  queryInterval : Duration
  /-- Before the first cycle. -/
  initialDelay : Duration
  connectTimeout : Duration
  readTimeout : Duration
  /-- Attempts for one directory query. -/
  operationAttempts : UInt32
  /-- The pause after a failed attempt. -/
  operationSleep : Duration
  /-- A connection at least this old counts when it fails. -/
  minConnectTime : Duration
  initialReconnectDelay : Duration
  maxReconnectDelay : Duration
  /-- Failures that exclude a peer; 0 excludes none. -/
  maxReconnectAttempts : UInt32
  /-- Only peers of the local deployment generation are admitted. -/
  splitDuringRollingUpdate : Bool
  /-- The address of this node. -/
  localAddress : Option Address
  /-- Only peers that the directory reports as ready are admitted. -/
  requireReady : Bool
  /-- The number of further ports announced for each host. -/
  portRange : UInt16
deriving DecidableEq

/-- One setting with its value. -/
inductive Setting where
  | selector (value : Selector)
  | queryInterval (value : Duration)
  | initialDelay (value : Duration)
  | connectTimeout (value : Duration)
  | readTimeout (value : Duration)
  | operationAttempts (value : UInt32)
  | operationSleep (value : Duration)
  | minConnectTime (value : Duration)
  | initialReconnectDelay (value : Duration)
  | maxReconnectDelay (value : Duration)
  | maxReconnectAttempts (value : UInt32)
  | splitDuringRollingUpdate (value : Bool)
  | localAddress (value : Address)
  | requireReady (value : Bool)
  | portRange (value : UInt16)
deriving DecidableEq

/-- A rule that settings can break. -/
inductive Violation where
  | queryIntervalZero
  | operationAttemptsZero
  | initialDelayZero
  | delaysInverted (initial max : Duration)
  | serviceEmpty
  | namespaceEmpty
deriving DecidableEq

/-- The broken rule in words. -/
def Violation.message : Violation → String
  | queryIntervalZero => "query_interval must be > 0"
  | operationAttemptsZero => "operation_attempts must be > 0"
  | initialDelayZero => "initial_reconnect_delay must be > 0"
  | delaysInverted initial max =>
    "initial_reconnect_delay (" ++ Decimal.write initial.millis ++
      "ms) exceeds max_reconnect_delay (" ++ Decimal.write max.millis ++ "ms)"
  | serviceEmpty => "service name must not be empty"
  | namespaceEmpty => "namespace must not be empty"

/-- The broken rule as an error of discovery. -/
def Violation.toError (v : Violation) : DiscoveryError := .config v.message

namespace Config

/-- A cycle every thirty seconds over the pods of the namespace `default`. -/
def standard : Config where
  selector := .standard
  queryInterval := .ofSeconds 30
  initialDelay := .zero
  connectTimeout := .ofSeconds 5
  readTimeout := .ofSeconds 30
  operationAttempts := 3
  operationSleep := .ofSeconds 1
  minConnectTime := .ofMillis 1000
  initialReconnectDelay := .ofMillis 1000
  maxReconnectDelay := .ofMillis 16000
  maxReconnectAttempts := 4
  splitDuringRollingUpdate := false
  localAddress := none
  requireReady := false
  portRange := 0

instance : Inhabited Config := ⟨standard⟩

def dns (service : String) : Config := { standard with selector := .service service }

/-- The standard settings for the pods of a namespace. -/
def kubernetes (space : String) (labels : Option String) : Config :=
  { standard with selector := .pods space labels }

def set (c : Config) : Setting → Config
  | .selector v => { c with selector := v }
  | .queryInterval v => { c with queryInterval := v }
  | .initialDelay v => { c with initialDelay := v }
  | .connectTimeout v => { c with connectTimeout := v }
  | .readTimeout v => { c with readTimeout := v }
  | .operationAttempts v => { c with operationAttempts := v }
  | .operationSleep v => { c with operationSleep := v }
  | .minConnectTime v => { c with minConnectTime := v }
  | .initialReconnectDelay v => { c with initialReconnectDelay := v }
  | .maxReconnectDelay v => { c with maxReconnectDelay := v }
  | .maxReconnectAttempts v => { c with maxReconnectAttempts := v }
  | .splitDuringRollingUpdate v => { c with splitDuringRollingUpdate := v }
  | .localAddress v => { c with localAddress := some v }
  | .requireReady v => { c with requireReady := v }
  | .portRange v => { c with portRange := v }

/-- The longest time for one attempt of a directory query. -/
def attemptTimeout (c : Config) : Duration := c.connectTimeout.add c.readTimeout

/-- The timing rules for failing peers. -/
def policy (c : Config) : Policy where
  minConnectTime := c.minConnectTime
  initialDelay := c.initialReconnectDelay
  maxDelay := c.maxReconnectDelay
  maxFailures := c.maxReconnectAttempts

/-- The first rule that the settings break. -/
def validate (c : Config) : Except Violation Unit :=
  if c.queryInterval.isZero then .error .queryIntervalZero
  else if c.operationAttempts = 0 then .error .operationAttemptsZero
  else if c.initialReconnectDelay.isZero then .error .initialDelayZero
  else if c.maxReconnectDelay < c.initialReconnectDelay then
    .error (.delaysInverted c.initialReconnectDelay c.maxReconnectDelay)
  else
    match c.selector with
    | .service name => if Blank.isEmpty name then .error .serviceEmpty else .ok ()
    | .pods space _ => if Blank.isEmpty space then .error .namespaceEmpty else .ok ()

end Config

end Roster
