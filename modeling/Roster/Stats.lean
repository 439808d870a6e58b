/-!
# Stats — running counts, kept twice

* `Stats`: the counters of one instance, 64-bit words.
* `Meters`: the same happenings as named metrics for a monitoring system; a metric exists once it is
  touched.
* `Tally`: both, and one function for each happening.
-/

namespace Roster

/-- The counters of one instance. -/
structure Stats where
  /-- Cycles that came to an end. -/
  cycles : UInt64
  /-- Cycles whose directory query failed on every attempt. -/
  resolutionFailures : UInt64
  /-- Notifications of an added peer, reconnects included. -/
  peersAdded : UInt64
  /-- Notifications of a removed peer. -/
  peersRemoved : UInt64
  /-- Peers announced again by a timer. -/
  reconnects : UInt64
  /-- Peers excluded for good. -/
  exclusions : UInt64
deriving DecidableEq

/-- Nothing counted yet. -/
def Stats.zero : Stats := ⟨0, 0, 0, 0, 0, 0⟩

/-- The counters among the metrics. -/
inductive Counter where
  | cycles
  | resolutionFailures
  | peerAdded
  | peerRemoved
  | reconnects
  | peerExcluded
deriving DecidableEq

namespace Counter

/-- The name of the metric. -/
def name : Counter → String
  | cycles => "discovery_cycles_total"
  | resolutionFailures => "discovery_resolution_failures_total"
  | peerAdded => "discovery_peer_added_total"
  | peerRemoved => "discovery_peer_removed_total"
  | reconnects => "discovery_reconnects_total"
  | peerExcluded => "discovery_peer_excluded_total"

/-- What the metric counts. -/
def description : Counter → String
  | cycles => "Total number of completed reconciliation cycles"
  | resolutionFailures => "Total number of cycles whose directory query failed on every attempt"
  | peerAdded => "Total number of peer added notifications"
  | peerRemoved => "Total number of peer removed notifications"
  | reconnects => "Total number of peers re-announced after a backoff delay"
  | peerExcluded => "Total number of peers permanently excluded"

/-- Every counter. -/
def all : List Counter :=
  [cycles, resolutionFailures, peerAdded, peerRemoved, reconnects, peerExcluded]

end Counter

/-- The metrics touched so far. -/
structure Meters where
  /-- The counters that were incremented, with their values. -/
  counters : List (Counter × UInt64)
  /-- The number of tracked peers after the last resolved cycle. -/
  tracked : Option Nat
  /-- How many cycle durations were recorded. -/
  durations : Nat

namespace Meters

/-- The name of the gauge of tracked peers. -/
def trackedName : String := "discovery_tracked_peers"

/-- The name of the histogram of cycle durations. -/
def durationName : String := "discovery_cycle_duration_seconds"

/-- Every metric with its kind and description. -/
def descriptions : List (String × String × String) :=
  Counter.all.map (fun c => (c.name, "counter", c.description)) ++
    [(durationName, "histogram", "Wall time of a reconciliation cycle in seconds"),
     (trackedName, "gauge", "Current number of tracked peers")]

/-- Nothing touched yet. -/
def zero : Meters := ⟨[], none, 0⟩

/-- The value of a counter among the incremented ones. -/
def valueAt (c : Counter) : List (Counter × UInt64) → UInt64
  | [] => 0
  | (c', n) :: rest => if c = c' then n else valueAt c rest

/-- Adds one to a counter among the incremented ones. -/
def bump (c : Counter) : List (Counter × UInt64) → List (Counter × UInt64)
  | [] => [(c, 1)]
  | (c', n) :: rest => if c = c' then (c', n + 1) :: rest else (c', n) :: bump c rest

/-- The value of a counter; an untouched one stands at 0. -/
def value (m : Meters) (c : Counter) : UInt64 := valueAt c m.counters

/-- Adds one to a counter. -/
def increment (m : Meters) (c : Counter) : Meters := { m with counters := bump c m.counters }

theorem valueAt_bump (c c' : Counter) (l : List (Counter × UInt64)) :
    valueAt c' (bump c l) = if c' = c then valueAt c l + 1 else valueAt c' l := by
  induction l with
  | nil => by_cases h : c' = c <;> simp [bump, valueAt, h]
  | cons e rest ih =>
    obtain ⟨j, n⟩ := e
    by_cases hj : c = j
    · subst hj
      by_cases h : c' = c <;> simp [bump, valueAt, h]
    · by_cases h : c' = j
      · subst h
        simp [bump, valueAt, hj, Ne.symm hj]
      · simp [bump, valueAt, hj, h, ih]

theorem value_increment (m : Meters) (c c' : Counter) :
    (m.increment c).value c' = if c' = c then m.value c + 1 else m.value c' :=
  valueAt_bump c c' m.counters

end Meters

/-- The counters of an instance beside its metrics. -/
structure Tally where
  stats : Stats
  meters : Meters

namespace Tally

/-- Nothing has happened yet. -/
def zero : Tally := ⟨.zero, .zero⟩

/-- A cycle came to an end. -/
def cycle (t : Tally) : Tally :=
  ⟨{ t.stats with cycles := t.stats.cycles + 1 }, t.meters.increment .cycles⟩

/-- A cycle's directory query failed on every attempt. -/
def resolutionFailure (t : Tally) : Tally :=
  ⟨{ t.stats with resolutionFailures := t.stats.resolutionFailures + 1 },
    t.meters.increment .resolutionFailures⟩

/-- A peer was announced. -/
def added (t : Tally) : Tally :=
  ⟨{ t.stats with peersAdded := t.stats.peersAdded + 1 }, t.meters.increment .peerAdded⟩

/-- A peer was withdrawn. -/
def removed (t : Tally) : Tally :=
  ⟨{ t.stats with peersRemoved := t.stats.peersRemoved + 1 }, t.meters.increment .peerRemoved⟩

/-- A timer announced a peer again; that is an announcement too. -/
def reconnect (t : Tally) : Tally :=
  let t := { t with stats := { t.stats with reconnects := t.stats.reconnects + 1 } }.added
  { t with meters := t.meters.increment .reconnects }

/-- A peer was excluded for good. -/
def exclusion (t : Tally) : Tally :=
  ⟨{ t.stats with exclusions := t.stats.exclusions + 1 }, t.meters.increment .peerExcluded⟩

/-- A cycle with an answer ended with `tracked` peers tracked. -/
def resolved (t : Tally) (tracked : Nat) : Tally :=
  { t with meters := { t.meters with
      tracked := some tracked
      durations := t.meters.durations + 1 } }

end Tally

end Roster
