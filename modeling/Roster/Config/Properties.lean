import Roster.Address.Reader
import Roster.Config.Basic
import Roster.Text.Quoted

/-!
# Config.Properties — settings from named texts, such as environment variables

* `Lookup`: the texts by name; `Lookup.ofBytes` takes them from an environment. A text is read
  without the blanks around it; a blank one counts as absent.
* `Deprecated`: an old name beside a current one; `Deprecated.warning?` is the warning for its use.
* `Config.properties`: the typed properties in the order in which they are read.
* `Config.ofLookup`: the settings, or the first property that cannot be read, or the first rule they
  break.
-/

namespace Roster

abbrev Lookup := String → Option String

/-- The texts of an environment of bytes. What is not UTF-8 counts as absent. -/
def Lookup.ofBytes (environment : String → Option ByteArray) : Lookup := fun name =>
  (environment name).bind String.fromUTF8?

/-- The text of a property without blanks around it; none if nothing is left. -/
def Lookup.get? (lookup : Lookup) (name : String) : Option String :=
  match lookup name with
  | some value => let trimmed := Blank.trim value; if trimmed.isEmpty then none else some trimmed
  | none => none

/-- A property with an old name that still counts. -/
structure Deprecated where
  current : String
  old : String
deriving DecidableEq

namespace Deprecated

/-- The namespace of the pods. -/
def space : Deprecated := ⟨"KUBERNETES_NAMESPACE", "OPENSHIFT_KUBE_PING_NAMESPACE"⟩

/-- The label selector of the pods. -/
def labels : Deprecated := ⟨"KUBERNETES_LABELS", "OPENSHIFT_KUBE_PING_LABELS"⟩

/-- The value under the current name, else under the old one. -/
def value? (d : Deprecated) (lookup : Lookup) : Option String :=
  (lookup.get? d.current).or (lookup.get? d.old)

def warning? (d : Deprecated) (lookup : Lookup) : Option String :=
  match lookup.get? d.current, lookup.get? d.old with
  | some _, some _ =>
    some ("Both " ++ d.current ++ " and " ++ d.old ++ " are defined, " ++ d.old ++
      " is deprecated so please remove it")
  | none, some _ =>
    some (d.old ++ " is deprecated, please remove it and use " ++ d.current ++ " instead")
  | _, none => none

end Deprecated

/-- Why settings cannot be taken from properties. -/
inductive PropertyError where
  /-- The value of a property does not have the right form. -/
  | invalid (value name reason : String)
  | violation (rule : Violation)
deriving DecidableEq

/-- The error in words. -/
def PropertyError.message : PropertyError → String
  | invalid value name reason =>
    "invalid value " ++ Quoted.write value ++ " for " ++ name ++ ": " ++ reason
  | violation rule => rule.message

/-- The error as one of discovery. -/
def PropertyError.toError (e : PropertyError) : DiscoveryError := .config e.message

/-- A property with a type: its name, and what its text does to the settings. -/
structure Property where
  name : String
  /-- The settings changed by a text, or the text as it was read and why it cannot be. -/
  apply : Config → String → Except (String × String) Config

namespace Property

/-- A property whose text is a number up to `limit`. -/
def number (name : String) (limit : Nat) (apply : Config → Nat → Config) : Property where
  name := name
  apply c text := match Decimal.read limit text.toList with
    | .ok n => .ok (apply c n)
    | .error fault => .error (text, fault.message)

/-- A property in milliseconds. -/
def millis (name : String) (apply : Config → Duration → Config) : Property :=
  number name (UInt64.size - 1) fun c n => apply c (.ofMillis n)

/-- The character with an ASCII capital made small. -/
def lowerAscii (c : Char) : Char := if 'A' ≤ c ∧ c ≤ 'Z' then Char.ofNat (c.toNat + 32) else c

/-- A property that is `true` or `false`, in letters of any case. -/
def flag (name : String) (apply : Config → Bool → Config) : Property where
  name := name
  apply c text :=
    let lower := text.map lowerAscii
    if lower = "true" then .ok (apply c true)
    else if lower = "false" then .ok (apply c false)
    else .error (lower, "provided string was not \x60true\x60 or \x60false\x60")

/-- A property that is an IP address. -/
def address (name : String) (apply : Config → Address → Config) : Property where
  name := name
  apply c text := match Address.read? text with
    | some a => .ok (apply c a)
    | none => .error (text, Address.syntaxMessage)

/-- Reads the property, if it is there. -/
def read (p : Property) (lookup : Lookup) (c : Config) : Except PropertyError Config :=
  match lookup.get? p.name with
  | none => .ok c
  | some text => (p.apply c text).mapError fun (shown, reason) => .invalid shown p.name reason

end Property

namespace Config

/-- The typed properties in the order in which they are read. The shortest connection that counts is
also the first reconnect delay, unless that is set by itself. -/
def properties : List Property :=
  [.number "DNS_QUERY_INTERVAL" (UInt64.size - 1) fun c n =>
     { c with queryInterval := .ofSeconds n },
   .millis "KUBERNETES_CONNECT_TIMEOUT" fun c d => { c with connectTimeout := d },
   .millis "KUBERNETES_READ_TIMEOUT" fun c d => { c with readTimeout := d },
   .number "KUBERNETES_OPERATION_ATTEMPTS" (UInt32.size - 1) fun c n =>
     { c with operationAttempts := n.toUInt32 },
   .millis "KUBERNETES_OPERATION_SLEEP" fun c d => { c with operationSleep := d },
   .millis "MIN_CONNECT_TIME" fun c d => { c with minConnectTime := d, initialReconnectDelay := d },
   .millis "INITIAL_RECONNECT_DELAY" fun c d => { c with initialReconnectDelay := d },
   .millis "MAX_RECONNECT_DELAY" fun c d => { c with maxReconnectDelay := d },
   .number "MAX_RECONNECT_ATTEMPTS" (UInt32.size - 1) fun c n =>
     { c with maxReconnectAttempts := n.toUInt32 },
   .flag "SPLIT_CLUSTERS_DURING_ROLLING_UPDATE" fun c b => { c with splitDuringRollingUpdate := b },
   .address "DISCOVERY_LOCAL_ADDRESS" fun c a => { c with localAddress := some a },
   .number "DISCOVERY_PORT_RANGE" (UInt16.size - 1) fun c n => { c with portRange := n.toUInt16 }]

/-- The selector that properties ask for: a service name comes before a namespace and labels. -/
def selectorOf (lookup : Lookup) : Selector :=
  match lookup.get? "DNS_SERVICE_NAME" with
  | some service => .service service
  | none =>
    match Deprecated.space.value? lookup, Deprecated.labels.value? lookup with
    | none, none => standard.selector
    | space, labels => .pods (space.getD "default") labels

/-- The warnings about old names. -/
def warnings (lookup : Lookup) : List String :=
  [Deprecated.space, Deprecated.labels].filterMap (·.warning? lookup)

/-- The settings that properties ask for, over the standard ones. -/
def ofLookup (lookup : Lookup) : Except PropertyError Config := do
  let initial := { standard with selector := selectorOf lookup }
  let c ← properties.foldlM (fun c p => p.read lookup c) initial
  match c.validate with
  | .ok () => return c
  | .error rule => throw (.violation rule)

end Config

end Roster
