/-
Clock instants and durations, as Go's `time` package has them.

An instant is a number of seconds since January 1 of the year 1, held in
64 bits, and the nanoseconds within that second: there is no instant
with a second count that does not fit. `unix` and `ofUnix` shift by the
distance to 1970 in 64-bit arithmetic, so both may wrap, but one undoes
the other exactly (`ofUnix_unix`): reading an instant back from its Unix
seconds drops the fraction and nothing else. Durations are nanosecond
counts; `sub` saturates at the 64-bit bounds, which no bound below them
can notice (`le_sub_iff`).
-/
import Mathlib.Data.List.Basic
import Mathlib.Tactic

namespace CacheOperator.Lib

/-- An instant: `time.Time` without its monotonic reading. -/
structure Time where
  sec : Int64
  nsec : Fin 1000000000
deriving DecidableEq

/-- `time.Second`; durations are nanosecond counts. -/
def second : Int := 1000000000

/-- Seconds from January 1 of the year 1 to the Unix epoch. -/
def unixToInternal : Int64 := 62135596800

namespace Time

/-- Nanoseconds since January 1 of the year 1, for comparisons. -/
def nanos (t : Time) : Int := t.sec.toInt * second + t.nsec.val

instance : LE Time := ⟨fun t u => t.nanos ≤ u.nanos⟩

theorem le_def {t u : Time} : t ≤ u ↔ t.nanos ≤ u.nanos := Iff.rfl

instance (t u : Time) : Decidable (t ≤ u) :=
  inferInstanceAs (Decidable (t.nanos ≤ u.nanos))

/-- `t.Unix()`. -/
def unix (t : Time) : Int64 := t.sec - unixToInternal

/-- `time.Unix(s, 0)`. -/
def ofUnix (s : Int64) : Time := ⟨s + unixToInternal, 0⟩

/-- `t.Sub(u)`. -/
def sub (t u : Time) : Int :=
  max (-2 ^ 63) (min (2 ^ 63 - 1) (t.nanos - u.nanos))

/-- The Unix seconds of an instant name the instant at the start of its
second. -/
theorem ofUnix_unix (t : Time) : ofUnix t.unix = ⟨t.sec, 0⟩ := by
  simp only [ofUnix, unix]
  rw [Int64.sub_add_cancel]

/-- Reading an instant back from its Unix seconds loses less than a
second. -/
theorem nanos_ofUnix_unix (t : Time) :
    (ofUnix t.unix).nanos ≤ t.nanos
      ∧ t.nanos < (ofUnix t.unix).nanos + second := by
  have hlt := t.nsec.isLt
  rw [ofUnix_unix]
  simp only [nanos, second, Fin.val_zero]
  omega

/-- A bound inside the 64-bit range sees the true difference. -/
theorem le_sub_iff {t u : Time} {d : Int} (hlo : -2 ^ 63 < d)
    (hhi : d < 2 ^ 63) : d ≤ t.sub u ↔ d ≤ t.nanos - u.nanos := by
  simp only [sub]
  omega

end Time

/-- `time.Duration(g) * time.Second` for a 32-bit count of seconds. -/
def seconds (g : Int32) : Int := g.toInt * second

/-- The product of a 32-bit count of seconds does not leave the 64-bit
range. -/
theorem seconds_range (g : Int32) :
    -2 ^ 63 < seconds g ∧ seconds g < 2 ^ 63 := by
  have hlo := g.le_toInt
  have hhi := g.toInt_lt
  simp only [seconds, second]
  omega

end CacheOperator.Lib
