import TickScheduler.Tick
/-!
Arithmetic on machine words. Every operation here is the exact one of the integers as long as the word has
room for the result; there is no other result, only a fault. What is worked out without a fault is therefore
what the integers give, and nothing was cut off on the way.
-/
namespace TickScheduler

/-- The words that the scheduler works with. -/
inductive Word where
  /-- A tick, a distance or a task id: 64 bits with a sign. -/
  | tick
  /-- A number of ticks: 64 bits without a sign. -/
  | count
  /-- Where distances and their multiples are worked out: 128 bits with a sign. -/
  | wide
deriving DecidableEq, Repr

namespace Word

/-- Why an operation has no result, or a loop does not come to one. -/
inductive Fault where
  /-- There is no room for the result. -/
  | overflow
  | divisionByZero
  /-- A narrower word has no room for the value. -/
  | truncation
  /-- The loop goes on after all the rounds that it may take. -/
  | endless
deriving DecidableEq, Repr

/-- Whether there is room for an integer. -/
def Fits : Word → Int → Prop
  | tick, n => -0x8000000000000000 ≤ n ∧ n < 0x8000000000000000
  | count, n => 0 ≤ n ∧ n < 0x10000000000000000
  | wide, n => -0x80000000000000000000000000000000 ≤ n ∧ n < 0x80000000000000000000000000000000

instance (w : Word) (n : Int) : Decidable (w.Fits n) :=
  match w with
  | tick | count | wide => inferInstanceAs (Decidable (_ ∧ _))

/-- An integer as the result of an operation. -/
def result (w : Word) (n : Int) : Except Fault Int :=
  if w.Fits n then .ok n else .error .overflow

def add (w : Word) (a b : Int) : Except Fault Int :=
  w.result (a + b)

def sub (w : Word) (a b : Int) : Except Fault Int :=
  w.result (a - b)

def mul (w : Word) (a b : Int) : Except Fault Int :=
  w.result (a * b)

/-- The quotient, rounded towards zero. -/
def div (w : Word) (a b : Int) : Except Fault Int :=
  if b = 0 then .error .divisionByZero else w.result (a.tdiv b)

/-- What is left by the quotient, which has to have room, too. -/
def rem (w : Word) (a b : Int) : Except Fault Int := do
  let _ ← w.div a b
  w.result (a.tmod b)

/-- The value of a wider word. -/
def narrow (w : Word) (n : Int) : Except Fault Int :=
  if w.Fits n then .ok n else .error .truncation

variable {w : Word} {a b n : Int}

theorem result_of_fits (h : w.Fits n) : w.result n = .ok n :=
  if_pos h

theorem result_of_not_fits (h : ¬ w.Fits n) : w.result n = .error .overflow :=
  if_neg h

theorem narrow_of_fits (h : w.Fits n) : w.narrow n = .ok n :=
  if_pos h

/-- Where there is room for an integer, there is room for those between 0 and it. -/
theorem Fits.of_le (h : w.Fits a) (hLow : 0 ≤ n) (hLe : n ≤ a) : w.Fits n := by
  cases w <;> exact ⟨by omega, Int.lt_of_le_of_lt hLe h.2⟩

theorem div_of_fits (hLow : 0 ≤ a) (hPos : 0 < b) (h : w.Fits a) : w.div a b = .ok (a / b) := by
  have hQuotient : w.Fits (a / b) :=
    h.of_le (Int.ediv_nonneg hLow (Int.le_of_lt hPos)) (Int.ediv_le_self b hLow)
  rw [div, if_neg (Int.ne_of_gt hPos), Int.tdiv_eq_ediv_of_nonneg hLow, result_of_fits hQuotient]

theorem rem_of_fits (hLow : 0 ≤ a) (hPos : 0 < b) (h : w.Fits a) : w.rem a b = .ok (a % b) := by
  have hLess : a % b ≤ a := by
    have hSplit := Int.mul_ediv_add_emod a b
    have hMultiple : 0 ≤ b * (a / b) :=
      Int.mul_nonneg (Int.le_of_lt hPos) (Int.ediv_nonneg hLow (Int.le_of_lt hPos))
    omega
  have hRest : w.Fits (a % b) := h.of_le (Int.emod_nonneg a (Int.ne_of_gt hPos)) hLess
  rw [rem, div_of_fits hLow hPos h, Int.tmod_eq_emod_of_nonneg hLow]
  exact result_of_fits hRest

/-- Two ticks are never too far apart for a wide word. -/
theorem fits_distance (s t : Tick) : wide.Fits (s.toInt - t.toInt) := by
  have hs := Tick.toInt_bounds s
  have ht := Tick.toInt_bounds t
  exact ⟨by omega, by omega⟩

end Word

end TickScheduler
