import Roster.Duration

/-!
# Clock — points in time and how a wait ends on the clock's ticks

A point in time is the number of nanoseconds since the clock started, which is taken as the origin
of its count of seconds. The clock ticks in milliseconds and stands at whole ones. It has no points
from `Clock.horizon` on; up to there every wait is taken to end where it should.

* `Clock.roundUp`: the first tick at or after a point.
* `Clock.later`: the point a given time after another, or thirty years after now where the clock has
  no such point.
* `Clock.after`: where a wait of a given length ends.
* `Clock.since`: the time between two points.
-/

namespace Roster

namespace Clock

/-- The length of a tick. -/
def tick : Nat := Duration.milli

/-- The clock can represent the points before this one: it counts seconds in a signed word. -/
def horizon : Nat := UInt64.size / 2 * Duration.second

/-- The length of a wait whose end the clock cannot represent. -/
def thirtyYears : Nat := 86400 * 365 * 30 * Duration.second

/-- The first tick at or after `t`. -/
def roundUp (t : Nat) : Nat := (t + (tick - 1)) / tick * tick

/-- The point `d` after `point`; thirty years after `now` if the clock cannot represent that. -/
def later (now point : Nat) (d : Duration) : Nat :=
  if point + d.nanos < horizon then point + d.nanos else now + thirtyYears

/-- Where a wait of length `d` that begins at `now` ends. -/
def after (now : Nat) (d : Duration) : Nat := roundUp (later now now d)

/-- The time from `earlier` to `later`; empty if `later` does not come later. -/
def since (later earlier : Nat) : Duration := .ofNanos (later - earlier)

/-- Whole milliseconds since the start of the clock. -/
def millis (t : Nat) : Nat := t / tick

theorem le_roundUp (t : Nat) : t ≤ roundUp t := by
  unfold roundUp tick Duration.milli
  omega

theorem roundUp_mod (t : Nat) : roundUp t % tick = 0 :=
  Nat.mul_mod_left _ _

theorem roundUp_of_mod {t : Nat} (h : t % tick = 0) : roundUp t = t := by
  unfold roundUp tick Duration.milli at *
  omega

theorem later_of_lt {now point : Nat} {d : Duration} (h : point + d.nanos < horizon) :
    later now point d = point + d.nanos := if_pos h

/-- A wait does not end before it begins. -/
theorem le_after (now : Nat) (d : Duration) : now ≤ after now d := by
  refine Nat.le_trans ?_ (le_roundUp _)
  unfold later
  split <;> omega

/-- A wait that is not empty ends after it begins. -/
theorem lt_after (now : Nat) {d : Duration} (h : 0 < d.nanos) : now < after now d := by
  refine Nat.lt_of_lt_of_le ?_ (le_roundUp _)
  unfold later thirtyYears Duration.second
  split <;> omega

theorem after_mod (now : Nat) (d : Duration) : after now d % tick = 0 := roundUp_mod _

theorem min_mod {s t : Nat} (hs : s % tick = 0) (ht : t % tick = 0) : min s t % tick = 0 := by
  rcases Nat.le_total s t with h | h
  · rw [Nat.min_eq_left h, hs]
  · rw [Nat.min_eq_right h, ht]

end Clock

/-- A wait of whole ticks whose end the clock can represent ends when it is over. -/
theorem after_of_ticks {time : Nat} {delay : Duration} (ht : time % Clock.tick = 0)
    (hd : delay.nanos % Clock.tick = 0) (hlt : time + delay.nanos < Clock.horizon) :
    Clock.after time delay = time + delay.nanos := by
  unfold Clock.after
  rw [Clock.later_of_lt hlt]
  refine Clock.roundUp_of_mod ?_
  rw [Nat.add_mod, ht, hd]
  rfl

end Roster
