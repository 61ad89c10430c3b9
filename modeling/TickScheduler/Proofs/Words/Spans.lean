import TickScheduler.Proofs.Entry.Draws
import TickScheduler.Proofs.Words.Arithmetic
/-!
Ranges of ticks on machine words. A span is a range as three bare words, of which nothing is known, and what it
tells of itself is worked out word by word. Of every span that stands for a range this comes to no fault: no
division by a step of zero, no number of ticks that a count has no room for, and no loop without end.
-/
namespace TickScheduler

/-- A range without the promise that its step is positive. -/
structure Span where
  cursor : Tick
  step : Tick
  stop : Option Tick
deriving DecidableEq, Repr

namespace Span

open Word (Fault)

def empty : Span :=
  ⟨0, 1, some 0⟩

def unbounded (start step : Tick) : Span :=
  if step < 1 then empty else ⟨start, step, none⟩

def once (tick : Tick) : Span :=
  ⟨tick, 1, some (tick.addClamped 1)⟩

def range (start stop step : Tick) : Span :=
  if step < 1 ∨ stop ≤ start then empty else ⟨start, step, some stop⟩

def isEmpty (s : Span) : Bool :=
  s.stop.any (· ≤ s.cursor)

/-- Whether a tick lies on the progression and before its end. -/
def contains (s : Span) (tick : Tick) : Except Fault Bool := do
  if s.isEmpty || tick < s.cursor then return false
  let distance ← Word.wide.sub tick.toInt s.cursor.toInt
  let rest ← Word.wide.rem distance s.step.toInt
  return rest == 0 && s.stop.all (tick < ·)

/-- How many ticks are left before `stop`, as a count; `none` without one. -/
def length (s : Span) : Except Fault (Option Int) := do
  match s.stop with
  | none => return none
  | some stop =>
    if stop ≤ s.cursor then return some 0
    let distance ← Word.wide.sub stop.toInt s.cursor.toInt
    let sum ← Word.wide.add distance s.step.toInt
    let sum ← Word.wide.sub sum 1
    let quotient ← Word.wide.div sum s.step.toInt
    return some (← Word.count.narrow quotient)

/-- Takes the next tick off. -/
def next (s : Span) : Option (Tick × Span) :=
  if s.isEmpty then none
  else some (s.cursor,
    match s.cursor.add? s.step with
    | some cursor => { s with cursor }
    | none => { s with stop := some s.cursor })

/-- Takes tick after tick off until nothing is left, in so many rounds at most. -/
def drain : Nat → Span → Except Fault (List Tick)
  | 0, _ => .error .endless
  | rounds + 1, s =>
    match s.next with
    | none => .ok []
    | some (tick, rest) => do return tick :: (← drain rounds rest)

/-- The last tick left, found by a loop where there is no `stop`. -/
def last (rounds : Nat) (s : Span) : Except Fault (Option Tick) := do
  match ← s.length with
  | some count =>
    if count = 0 then return none
    let steps ← Word.wide.sub count 1
    let way ← Word.wide.mul steps s.step.toInt
    return Tick.ofInt? (← Word.wide.add s.cursor.toInt way)
  | none => return (← s.drain rounds).getLast?

end Span

namespace TickRange

/-- The words of a range. -/
def span (r : TickRange) : Span :=
  ⟨r.cursor, r.step, r.stop⟩

variable {r : TickRange} {rounds : Nat}

theorem span_once (tick : Tick) : (once tick).span = .once tick := rfl

/-- The one test that keeps a step of zero, or of less, out of a range. -/
theorem not_lt_one_iff {step : Tick} : ¬ step < 1 ↔ 0 < step.toInt := by
  rw [Int64.not_lt, Int64.le_iff_toInt_le, Int64.toInt_one]
  exact Iff.rfl

theorem span_unbounded (start step : Tick) : (unbounded start step).span = .unbounded start step := by
  unfold unbounded Span.unbounded
  split
  · rename_i hStep
    rw [if_neg (not_lt_one_iff.mpr hStep)]
    rfl
  · rename_i hStep
    rw [if_pos (Decidable.not_not.mp fun h => hStep (not_lt_one_iff.mp h))]
    rfl

theorem span_range (start stop step : Tick) : (range start stop step).span = .range start stop step := by
  unfold range Span.range
  split
  · rename_i hStep
    have hSmall := not_lt_one_iff.mpr hStep
    split
    · rename_i hOpen
      rw [if_neg (not_or.mpr ⟨hSmall, Int64.not_le.mpr hOpen⟩)]
      rfl
    · rename_i hReached
      rw [if_pos (.inr (Int64.not_lt.mp hReached))]
      rfl
  · rename_i hStep
    rw [if_pos (.inl (Decidable.not_not.mp fun h => hStep (not_lt_one_iff.mp h)))]
    rfl

theorem contains_span (r : TickRange) (tick : Tick) : r.span.contains tick = .ok (r.contains tick) := by
  have hEmpty : r.span.isEmpty = r.isEmpty := rfl
  unfold Span.contains contains
  rw [hEmpty]
  cases r.isEmpty with
  | true => rfl
  | false =>
      by_cases hBefore : tick < r.cursor
      · have hLow : ¬ r.cursor ≤ tick := Int64.not_le.mpr hBefore
        simp [span, hBefore, hLow, pure, Except.pure]
      · have hLow := Int64.not_lt.mp hBefore
        have hNonneg : 0 ≤ tick.toInt - r.cursor.toInt := by
          rw [Int64.le_iff_toInt_le] at hLow
          omega
        have hDistance := Word.fits_distance tick r.cursor
        have hSub : Word.wide.sub tick.toInt r.cursor.toInt = .ok (tick.toInt - r.cursor.toInt) :=
          Word.result_of_fits hDistance
        have hRem := Word.rem_of_fits hNonneg r.step_pos hDistance
        simp [span, hBefore, hLow, hSub, hRem, bind, Except.bind, pure, Except.pure]

/-- The number of ticks left is worked out in a wide word, and a count has room for it. -/
theorem length_span (r : TickRange) : r.span.length = .ok (r.length?.map Int.ofNat) := by
  unfold Span.length
  cases hStop : r.stop with
  | none => simp [length?, span, hStop, pure, Except.pure]
  | some stop =>
      by_cases hReached : stop ≤ r.cursor
      · have hNone : r.length? = some 0 := by
          rw [length?_ticks, ticks_of_isEmpty (by simpa [isEmpty, hStop] using hReached), isBounded, hStop]
          rfl
        simp [span, hStop, hReached, hNone, pure, Except.pure]
      · have hStep := r.step_pos
        have hStepBounds := Tick.toInt_bounds r.step
        have hCursor := Tick.toInt_bounds r.cursor
        have hStopBounds := Tick.toInt_bounds stop
        have hOpen := Int64.lt_iff_toInt_lt.mp (Int64.not_le.mp hReached)
        have hLength : r.length? =
            some ((stop.toInt - r.cursor.toInt + r.step.toInt - 1) / r.step.toInt).toNat := by
          rw [length?, hStop, Option.map_some]
        have hFew := length?_lt hLength
        have hSub : Word.wide.sub stop.toInt r.cursor.toInt = .ok (stop.toInt - r.cursor.toInt) :=
          Word.result_of_fits (Word.fits_distance stop r.cursor)
        have hAdd : Word.wide.add (stop.toInt - r.cursor.toInt) r.step.toInt =
            .ok (stop.toInt - r.cursor.toInt + r.step.toInt) :=
          Word.result_of_fits ⟨by omega, by omega⟩
        have hSum : Word.wide.Fits (stop.toInt - r.cursor.toInt + r.step.toInt - 1) := ⟨by omega, by omega⟩
        have hLess : Word.wide.sub (stop.toInt - r.cursor.toInt + r.step.toInt) 1 =
            .ok (stop.toInt - r.cursor.toInt + r.step.toInt - 1) :=
          Word.result_of_fits hSum
        have hDiv := Word.div_of_fits (by omega) hStep hSum
        have hNonneg : 0 ≤ (stop.toInt - r.cursor.toInt + r.step.toInt - 1) / r.step.toInt :=
          Int.ediv_nonneg (by omega) (by omega)
        have hNarrow := Word.narrow_of_fits (w := .count)
          (n := (stop.toInt - r.cursor.toInt + r.step.toInt - 1) / r.step.toInt) ⟨hNonneg, by omega⟩
        simp [span, hStop, hReached, hLength, hSub, hAdd, hLess, hDiv, hNarrow, Int.toNat_of_nonneg hNonneg,
          bind, Except.bind, pure, Except.pure]

theorem next_span (r : TickRange) : r.span.next = r.next?.map fun (tick, rest) => (tick, rest.span) := by
  have hEmpty : r.span.isEmpty = r.isEmpty := rfl
  unfold Span.next next?
  rw [hEmpty]
  cases r.isEmpty with
  | true => rfl
  | false =>
      simp only [Bool.false_eq_true, if_false, Option.map_some, span]
      cases r.cursor.add? r.step <;> rfl

/-- No range has more ticks than the clock. -/
theorem length_ticks_le (r : TickRange) : r.ticks.length ≤ 0x10000000000000000 := by
  have hRoom : r.ticks.length ≤ r.room := by
    induction r using ticks.induct with
    | case1 r hNone =>
        rw [ticks_of_none hNone]
        exact Nat.zero_le _
    | case2 r tick rest hNext ih =>
        have hLess := room_lt_of_next? hNext
        rw [ticks_of_some hNext, List.length_cons]
        omega
  have hBounds := Tick.toInt_bounds r.cursor
  refine Nat.le_trans hRoom ?_
  unfold room
  split <;> omega

/-- A loop over a range ends with one more round than there are ticks. -/
theorem drain_span (h : r.ticks.length < rounds) : r.span.drain rounds = .ok r.ticks := by
  induction rounds generalizing r with
  | zero => exact absurd h (Nat.not_lt_zero _)
  | succ rounds ih =>
      rw [Span.drain, next_span]
      cases hNext : r.next? with
      | none => rw [Option.map_none, ticks_of_none hNext]
      | some pair =>
          obtain ⟨tick, rest⟩ := pair
          rw [ticks_of_some hNext, List.length_cons] at h
          rw [Option.map_some, ticks_of_some hNext]
          dsimp only
          rw [ih (Nat.lt_of_succ_lt_succ h)]
          rfl

theorem last_span (hRounds : 0x10000000000000000 < rounds) (r : TickRange) :
    r.span.last rounds = .ok r.last? := by
  have hStep := r.step_pos
  have hStepBounds := Tick.toInt_bounds r.step
  have hCursor := Tick.toInt_bounds r.cursor
  rw [Span.last, length_span]
  cases hLength : r.length? with
  | none =>
      have hDrain := drain_span (r := r) (Nat.lt_of_le_of_lt r.length_ticks_le hRounds)
      simp [last?, hLength, hDrain, bind, Except.bind, pure, Except.pure]
  | some n =>
      cases n with
      | zero => simp [last?, hLength, bind, Except.bind, pure, Except.pure]
      | succ n =>
          have hFew := length?_lt hLength
          have hSub : Word.wide.sub (n + 1) 1 = .ok (n : Int) := by
            rw [Word.sub, Int.add_sub_cancel]
            exact Word.result_of_fits ⟨by omega, by omega⟩
          have hNonneg : 0 ≤ (n : Int) * r.step.toInt :=
            Int.mul_nonneg (Int.natCast_nonneg n) (Int.le_of_lt hStep)
          have hProduct : (n : Int) * r.step.toInt ≤ 0xffffffffffffffff * 0x7fffffffffffffff :=
            Int.mul_le_mul (by omega) (by omega) (Int.le_of_lt hStep) (by decide)
          have hMul : Word.wide.mul n r.step.toInt = .ok (n * r.step.toInt) :=
            Word.result_of_fits ⟨by omega, by omega⟩
          have hAdd : Word.wide.add r.cursor.toInt (n * r.step.toInt) = .ok (r.cursor.toInt + n * r.step.toInt) :=
            Word.result_of_fits ⟨by omega, by omega⟩
          have hSome : (n : Int) + 1 ≠ 0 := by omega
          simp [last?, hLength, hSub, hSome, span, hMul, hAdd, bind, Except.bind, pure, Except.pure]

end TickRange

end TickScheduler
