import TickScheduler.Proofs.Entry.Draws
/-!
Bounds on the number of ticks that a range still has, told without counting them. Of a range with a stop both
bounds are that number. A range without one passes for endless, but the clock ends it, and then the lower bound
promises ticks that never come, unless the range goes tick by tick from the beginning of the clock.
-/
namespace TickScheduler.TickRange

variable {r : TickRange}

/-- What draws leave of a range. -/
def afterDraws (r : TickRange) (draws : List Draw) : TickRange :=
  (Draw.series Draw.ofRange draws r).2

/-- The number of ticks left lies within the bounds that are told. -/
structure HintsSoundly (r : TickRange) : Prop where
  low_le : r.sizeHint.1 ≤ r.ticks.length
  le_high : ∀ high, r.sizeHint.2 = some high → r.ticks.length ≤ high

theorem sizeHint_of_bounded (h : r.isBounded = true) :
    r.sizeHint = (r.ticks.length, some r.ticks.length) := by
  rw [sizeHint, length?_ticks, if_pos h]

theorem sizeHint_of_endless (h : r.isBounded = false) : r.sizeHint = (0xffffffffffffffff, none) := by
  rw [sizeHint, length?_ticks, h]
  rfl

/-- A range that only the clock ends has a tick for every step that the rest of the clock has room for. -/
theorem length_ticks_of_endless (h : r.stop = none) :
    (r.ticks.length : Int) = (0x7fffffffffffffff - r.cursor.toInt) / r.step.toInt + 1 := by
  induction r using ticks.induct with
  | case1 r hNone =>
      rw [next?_eq_none_iff, isEmpty, h] at hNone
      cases hNone
  | case2 r tick rest hNext ih =>
      have hStep := r.step_pos
      have hBounds := Tick.toInt_bounds r.cursor
      rw [ticks_of_some hNext, List.length_cons, Int.natCast_succ]
      obtain ⟨-, -, ⟨hEnd, rfl⟩ | ⟨cursor, hMoved, rfl⟩⟩ := next?_cases hNext
      · -- one step is more than is left of the clock
        rw [Tick.add?, Tick.ofInt?_eq_none_iff] at hEnd
        rw [ticks_exhaust, Int.ediv_eq_zero_of_lt (by omega) (by omega)]
        rfl
      · have hCursor := Tick.add?_eq_some_iff.mp hMoved
        have hCount : (0x7fffffffffffffff - r.cursor.toInt) / r.step.toInt =
            (0x7fffffffffffffff - cursor.toInt) / r.step.toInt + 1 := by
          rw [← Int.add_mul_ediv_right _ 1 (by omega)]
          congr 1
          omega
        rw [ih h, hCount]

/-- There are as many ticks as 64 bits can count only if the range goes tick by tick from one of the first two
ticks of the clock. -/
theorem le_length_of_endless_iff (h : r.stop = none) :
    0xffffffffffffffff ≤ r.ticks.length ↔ r.step = 1 ∧ r.cursor ≤ Int64.minValue + 1 := by
  have hLength := length_ticks_of_endless h
  have hStep := r.step_pos
  have hBounds := Tick.toInt_bounds r.cursor
  have hSecond : (Int64.minValue + 1).toInt = -0x7fffffffffffffff := by decide
  rw [← Int64.toInt_inj, Int64.le_iff_toInt_le, hSecond, Int64.toInt_one]
  constructor
  · intro hMany
    have hRoom : 0xfffffffffffffffe * r.step.toInt ≤ 0x7fffffffffffffff - r.cursor.toInt :=
      Int.mul_le_of_le_ediv hStep (by omega)
    omega
  · rintro ⟨hOne, hFirst⟩
    rw [hOne, Int.ediv_one] at hLength
    omega

/-- Whatever was drawn from a range, what it tells of the number of its ticks is sound, and exact, if it has a
stop. Without one it is sound only tick by tick from one of the first two ticks of the clock. -/
theorem hintsSoundly_iff (r : TickRange) (draws : List Draw) :
    ((r.afterDraws draws).HintsSoundly ↔ (r.afterDraws draws).isBounded = true ∨
        ((r.afterDraws draws).step = 1 ∧ (r.afterDraws draws).cursor ≤ Int64.minValue + 1)) ∧
      ((r.afterDraws draws).isBounded = true → (r.afterDraws draws).sizeHint =
        ((r.afterDraws draws).ticks.length, some (r.afterDraws draws).ticks.length)) := by
  generalize r.afterDraws draws = left
  refine ⟨?_, sizeHint_of_bounded⟩
  cases hBounded : left.isBounded with
  | true =>
      have hHint := sizeHint_of_bounded hBounded
      refine iff_of_true ⟨?_, fun high hHigh => ?_⟩ (.inl rfl)
      · rw [hHint]
      · rw [hHint] at hHigh
        exact Nat.le_of_eq (Option.some.inj hHigh)
  | false =>
      have hHint := sizeHint_of_endless hBounded
      have hStop : left.stop = none := by simpa [isBounded] using hBounded
      rw [← le_length_of_endless_iff hStop]
      simp only [Bool.false_eq_true, false_or]
      refine ⟨fun hSound => ?_, fun hMany => ⟨?_, fun high hHigh => ?_⟩⟩
      · simpa only [hHint] using hSound.low_le
      · simpa only [hHint] using hMany
      · rw [hHint] at hHigh
        cases hHigh

/-- One tick before the last of the clock, and in steps that lead out of it. -/
def encore : TickRange :=
  unbounded 0x7ffffffffffffffe 5

/-- It has one tick, and promises as many as 64 bits can count. -/
theorem encore_overpromised : ¬ (encore.afterDraws []).HintsSoundly ∧
    (encore.afterDraws []).ticks = [0x7ffffffffffffffe] ∧
    (encore.afterDraws []).sizeHint = (0xffffffffffffffff, none) := by
  have hTicks : (encore.afterDraws []).ticks = [0x7ffffffffffffffe] := by decide +kernel
  refine ⟨fun hSound => ?_, hTicks, rfl⟩
  have hLow := hSound.low_le
  rw [hTicks] at hLow
  exact absurd hLow (by decide)

end TickScheduler.TickRange
