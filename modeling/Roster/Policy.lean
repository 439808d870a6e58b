import Roster.Duration

/-!
# Policy — the timing rules for failing peers

* `Policy`: when a connection counts as sustained, how the reconnect delay grows, when a peer is
  given up.
* `Policy.nextDelay` doubles a delay up to the ceiling; `Policy.delayAfter` is the delay after a
  number of doublings, in closed form.
-/

namespace Roster

/-- Timing rules for failure handling. -/
structure Policy where
  /-- A connection at least this old counts as sustained. -/
  minConnectTime : Duration
  /-- The delay of newly tracked peers, and of peers whose counters were reset. -/
  initialDelay : Duration
  /-- The ceiling of the doubled delay. -/
  maxDelay : Duration
  /-- Counted failures that exclude a peer; 0 never excludes. -/
  maxFailures : UInt32
deriving DecidableEq

namespace Policy

/-- One second before a connection counts, delays from one second to sixteen, four failures. -/
def standard : Policy := ⟨.ofMillis 1000, .ofMillis 1000, .ofMillis 16000, 4⟩

instance : Inhabited Policy := ⟨standard⟩

/-- Whether a connection that lasted `connected` counts as sustained. -/
def isSustained (p : Policy) (connected : Duration) : Bool := p.minConnectTime ≤ connected

/-- The delay that follows `current` after a reconnect. -/
def nextDelay (p : Policy) (current : Duration) : Duration := min (current.times 2) p.maxDelay

/-- The number of initial delays in the delay after `reconnects` doublings, before the ceiling: a
power of two while that fits a 32-bit word, else the largest word. -/
def multiplier (reconnects : UInt32) : Nat :=
  if reconnects < 32 then Nat.pow 2 reconnects.toNat else UInt32.size - 1

/-- The delay after `reconnects` doublings of the initial delay. -/
def delayAfter (p : Policy) (reconnects : UInt32) : Duration :=
  min (p.initialDelay.times (multiplier reconnects)) p.maxDelay

/-- Whether `failures` counted failures exclude a peer for good. -/
def isExhausted (p : Policy) (failures : UInt32) : Bool :=
  0 < p.maxFailures && p.maxFailures ≤ failures

end Policy

end Roster
