/-!
Ticks of the scheduling clock. A tick is a 64-bit signed integer, and every operation here goes
through the integers: it either says that the result does not fit, or takes the nearest value that
does. Nothing wraps.
-/
namespace TickScheduler

/-- A point on the scheduling clock, also used for distances between two such points. -/
abbrev Tick := Int64

namespace Tick

/-- The tick of an integer, if 64 bits hold it. -/
def ofInt? (n : Int) : Option Tick :=
  if -0x8000000000000000 ≤ n ∧ n < 0x8000000000000000 then some (Int64.ofInt n) else none

/-- The tick nearest to an integer. -/
def clamp (n : Int) : Tick :=
  if n < -0x8000000000000000 then Int64.minValue
  else if n < 0x8000000000000000 then Int64.ofInt n
  else Int64.maxValue

theorem toInt_bounds (t : Tick) : -0x8000000000000000 ≤ t.toInt ∧ t.toInt < 0x8000000000000000 :=
  ⟨Int64.le_toInt t, Int64.toInt_lt t⟩

theorem toInt_ofInt_of_fits {n : Int} (low : -0x8000000000000000 ≤ n) (high : n < 0x8000000000000000) :
    (Int64.ofInt n).toInt = n :=
  Int64.toInt_ofInt_of_le low high

/-- Reading an integer as a tick succeeds exactly on the value of that tick. -/
theorem ofInt?_eq_some_iff {n : Int} {t : Tick} : ofInt? n = some t ↔ t.toInt = n := by
  unfold ofInt?
  split
  · rename_i fits
    constructor
    · rintro ⟨⟩
      exact toInt_ofInt_of_fits fits.1 fits.2
    · rintro rfl
      exact congrArg some (Int64.ofInt_toInt t)
  · rename_i misfit
    constructor
    · nofun
    · rintro rfl
      exact absurd t.toInt_bounds misfit

theorem ofInt?_eq_none_iff {n : Int} : ofInt? n = none ↔ n < -0x8000000000000000 ∨ 0x8000000000000000 ≤ n := by
  unfold ofInt?
  split <;> simp <;> omega

@[simp] theorem ofInt?_toInt (t : Tick) : ofInt? t.toInt = some t :=
  ofInt?_eq_some_iff.mpr rfl

theorem toInt_clamp (n : Int) : (clamp n).toInt = max (-0x8000000000000000) (min n (0x8000000000000000 - 1)) := by
  unfold clamp
  split
  · rw [Int64.toInt_minValue]
    omega
  split
  · rw [toInt_ofInt_of_fits (by omega) (by omega)]
    omega
  · rw [Int64.toInt_maxValue]
    omega

/-- The sum, if it fits. -/
def add? (a b : Tick) : Option Tick :=
  ofInt? (a.toInt + b.toInt)

/-- The tick after this one, if there is one. -/
def succ? (a : Tick) : Option Tick :=
  ofInt? (a.toInt + 1)

/-- The sum, or the end of the clock that it runs past. -/
def addClamped (a b : Tick) : Tick :=
  clamp (a.toInt + b.toInt)

/-- The difference, or the end of the clock that it runs past. -/
def subClamped (a b : Tick) : Tick :=
  clamp (a.toInt - b.toInt)

/-- The product, or the end of the clock that it runs past. -/
def mulClamped (a b : Tick) : Tick :=
  clamp (a.toInt * b.toInt)

/-- The distance from zero; the one value whose distance does not fit gives the last tick. -/
def absClamped (a : Tick) : Tick :=
  clamp a.toInt.natAbs

theorem add?_eq_some_iff {a b c : Tick} : add? a b = some c ↔ c.toInt = a.toInt + b.toInt :=
  ofInt?_eq_some_iff

theorem succ?_eq_some_iff {a c : Tick} : succ? a = some c ↔ c.toInt = a.toInt + 1 :=
  ofInt?_eq_some_iff

/-- Only the last tick has no successor. -/
theorem succ?_eq_none_iff {a : Tick} : succ? a = none ↔ a = Int64.maxValue := by
  rw [succ?, ofInt?_eq_none_iff, ← Int64.toInt_inj, Int64.toInt_maxValue]
  have := toInt_bounds a
  omega

end Tick

end TickScheduler
