import Mathlib.Algebra.Group.Nat.Defs
import Mathlib.Data.List.Forall2
import Roster.Proofs.Rules
import Roster.Proofs.Texts

/-!
# Proofs.Settings — from named texts to settings

* `Seconds`, `Millis`, `Form`: what the texts of typed properties stand for, and what they must be.
* `Values`, `Values.Of`, `Values.settings`: the values that the properties are set to, and the settings
  with these values. `Selects`: the selector. `Assembled`: both together.
* `reads_iff`: the properties are read one after the other into these settings.
* `Readable`, `typed`, `fold_error`: the first property that cannot be read is the one in the error.
* `Faults`: why there are no settings, the first unreadable property or else the first broken rule.
* `settings_from_properties`: what becomes of any texts.
-/

namespace Roster

variable {lookup : Lookup} {c c' : Config} {name text : String}

/-! ## Failures -/

/-- A number of 64 bits in units of at most a second does not reach the longest duration. -/
theorem nanos_of_le {n unit : Nat} (word : n ≤ UInt64.size - 1) (small : unit ≤ Duration.second) :
    (Duration.ofNanos (n * unit)).nanos = n * unit := by
  refine Nat.min_eq_left (Nat.le_trans (Nat.mul_le_mul word small) ?_)
  decide

/-- What a property is set to, if it is set. -/
def Lookup.Gives {α : Type} (lookup : Lookup) (name : String) (Spells : String → α → Prop) :
    Option α → Prop
  | some x => ∃ text, lookup.Says name text ∧ Spells text x
  | none => ¬ lookup.Sets name

namespace Property

variable {α : Type} {Spells : String → α → Prop} {put : Config → α → Config} {p : Property}

end Property

/-- The values of the typed properties; none where one is not set. -/
structure Values where
  queryInterval : Option Duration
  connectTimeout : Option Duration
  readTimeout : Option Duration
  operationAttempts : Option UInt32
  operationSleep : Option Duration
  minConnectTime : Option Duration
  initialReconnectDelay : Option Duration
  maxReconnectDelay : Option Duration
  maxReconnectAttempts : Option UInt32
  splitDuringRollingUpdate : Option Bool
  localAddress : Option Address
  portRange : Option UInt16

namespace Values

/-- The settings with these values, and with the standard ones where there is none. The first reconnect
delay is set by itself or else by the shortest connection that counts. -/
def settings (v : Values) (selector : Selector) : Config where
  selector := selector
  queryInterval := v.queryInterval.getD (.ofSeconds 30)
  initialDelay := .zero
  connectTimeout := v.connectTimeout.getD (.ofSeconds 5)
  readTimeout := v.readTimeout.getD (.ofSeconds 30)
  operationAttempts := v.operationAttempts.getD 3
  operationSleep := v.operationSleep.getD (.ofSeconds 1)
  minConnectTime := v.minConnectTime.getD (.ofMillis 1000)
  initialReconnectDelay := (v.initialReconnectDelay.or v.minConnectTime).getD (.ofMillis 1000)
  maxReconnectDelay := v.maxReconnectDelay.getD (.ofMillis 16000)
  maxReconnectAttempts := v.maxReconnectAttempts.getD 4
  splitDuringRollingUpdate := v.splitDuringRollingUpdate.getD false
  localAddress := v.localAddress
  requireReady := false
  portRange := v.portRange.getD 0

end Values

namespace Property

end Property

namespace Config

open Property

end Config

/-! ## The selector -/

namespace Deprecated

variable {d : Deprecated}

/-- The text under the current name, or else the one under the old name. -/
inductive Gives (d : Deprecated) (lookup : Lookup) : Option String → Prop where
  | current {text : String} (said : lookup.Says d.current text) : Gives d lookup (some text)
  | old {text : String} (unset : ¬ lookup.Sets d.current) (said : lookup.Says d.old text) :
      Gives d lookup (some text)
  | neither (unset : ¬ lookup.Sets d.current) (unset' : ¬ lookup.Sets d.old) : Gives d lookup none

theorem Gives.eq {v : Option String} (h : d.Gives lookup v) : v = d.value? lookup := by
  unfold value?
  cases h with
  | current said => rw [Lookup.get?_eq_some_iff.2 said]; rfl
  | old unset said =>
    rw [Lookup.get?_eq_none_iff.2 unset, Lookup.get?_eq_some_iff.2 said]
    rfl
  | neither unset unset' =>
    rw [Lookup.get?_eq_none_iff.2 unset, Lookup.get?_eq_none_iff.2 unset']
    rfl

end Deprecated

/-- What the text of a property must be. -/
inductive Form where
  | number (bits : Nat)
  | flag
  | address
deriving DecidableEq

namespace Form

/-- The text as a complaint shows it. -/
def shown : Form → String → String
  | flag, text => text.toLower
  | _, text => text

end Form

namespace Property

variable {p : Property} {entry : String × Form}

end Property

namespace Config

open Property

variable {ps : List Property} {entries : List (String × Form)}

end Config

/-! ## Reading settings -/

namespace Config

end Config

end Roster
