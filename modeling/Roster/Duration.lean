/-!
# Duration — spans of time in whole nanoseconds

* `Duration`: at most `2^64 - 1` seconds and `999999999` nanoseconds.
* `Duration.add`, `Duration.times`: sum and multiple, which stop at `Duration.max`.
* `Duration.millis`: whole milliseconds, rounded down.
* `Duration.text`: the shortest decimal in the largest of `s`, `ms`, `µs`, `ns` that keeps the value
  at least one.
-/

namespace Roster

/-- Nanoseconds in a second. -/
def Duration.second : Nat := 1000000000

/-- Nanoseconds in a millisecond. -/
def Duration.milli : Nat := 1000000

/-- Nanoseconds in a microsecond. -/
def Duration.micro : Nat := 1000

/-- The longest duration in nanoseconds. -/
def Duration.limit : Nat := UInt64.size * Duration.second - 1

/-- A span of time in nanoseconds, bounded by `Duration.limit`. -/
structure Duration where
  nanos : Nat
  nanos_le : nanos ≤ Duration.limit
deriving DecidableEq

namespace Duration

/-- `n` nanoseconds, or the longest duration if that is less. -/
def ofNanos (n : Nat) : Duration := ⟨min n limit, Nat.min_le_right n limit⟩

/-- `n` milliseconds, stopping at the longest duration. -/
def ofMillis (n : Nat) : Duration := ofNanos (n * milli)

/-- `n` seconds, stopping at the longest duration. -/
def ofSeconds (n : Nat) : Duration := ofNanos (n * second)

/-- The empty span. -/
def zero : Duration := ⟨0, Nat.zero_le _⟩

def max : Duration := ⟨limit, Nat.le_refl _⟩

instance : Inhabited Duration := ⟨zero⟩
instance : LE Duration := ⟨fun a b => a.nanos ≤ b.nanos⟩
instance : LT Duration := ⟨fun a b => a.nanos < b.nanos⟩
instance (a b : Duration) : Decidable (a ≤ b) := inferInstanceAs (Decidable (a.nanos ≤ b.nanos))
instance (a b : Duration) : Decidable (a < b) := inferInstanceAs (Decidable (a.nanos < b.nanos))
instance : Min Duration := ⟨fun a b => if a ≤ b then a else b⟩

theorem ext {a b : Duration} (h : a.nanos = b.nanos) : a = b := by
  cases a; cases b; cases h; rfl

/-- Whether the span is empty. -/
def isZero (d : Duration) : Bool := d.nanos == 0

/-- Whole milliseconds, rounded down. -/
def millis (d : Duration) : Nat := d.nanos / milli

/-- The sum, stopping at the longest duration. -/
def add (a b : Duration) : Duration := ofNanos (a.nanos + b.nanos)

/-- The multiple, stopping at the longest duration. -/
def times (d : Duration) (k : Nat) : Duration := ofNanos (d.nanos * k)

@[simp] theorem nanos_ofNanos (n : Nat) : (ofNanos n).nanos = min n limit := rfl

@[simp] theorem nanos_add (a b : Duration) : (a.add b).nanos = min (a.nanos + b.nanos) limit := rfl

@[simp] theorem nanos_times (d : Duration) (k : Nat) :
    (d.times k).nanos = min (d.nanos * k) limit := rfl

theorem nanos_min (a b : Duration) : (min a b).nanos = min a.nanos b.nanos := by
  change (if a.nanos ≤ b.nanos then a else b).nanos = _
  rw [Nat.min_def]
  split <;> rfl

/-! ## Text -/

/-- The last `width` decimal digits of `n`, most significant first. -/
def digits : Nat → Nat → List Char
  | 0, _ => []
  | width + 1, n => digits width (n / 10) ++ [Nat.digitChar (n % 10)]

/-- `whole` with the fraction `part / 10 ^ width` without trailing zeros, and a unit. -/
def decimal (whole width part : Nat) (unit : String) : String :=
  let shown := ((digits width part).reverse.dropWhile (· == '0')).reverse
  toString whole ++ (if shown.isEmpty then "" else "." ++ String.ofList shown) ++ unit

/-- The span as a reader of logs sees it: `2s`, `1.5s`, `250ms`, `1.5µs`, `3ns`. -/
def text (d : Duration) : String :=
  if second ≤ d.nanos then decimal (d.nanos / second) 9 (d.nanos % second) "s"
  else if milli ≤ d.nanos then decimal (d.nanos / milli) 6 (d.nanos % milli) "ms"
  else if micro ≤ d.nanos then decimal (d.nanos / micro) 3 (d.nanos % micro) "µs"
  else decimal d.nanos 0 0 "ns"

end Duration

end Roster
