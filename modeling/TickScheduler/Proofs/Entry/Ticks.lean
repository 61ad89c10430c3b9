import Mathlib.Data.List.Nodup
import Mathlib.Data.List.Sort
import TickScheduler.Engine.Pass
import TickScheduler.Proofs.Entry.Offers
/-!
The ticks of a range, as repeated `next?` hands them out: they increase, and they are those that
`contains` says. Seen this way the ticks that are announced of an entry are the ones that it offers.
-/
namespace TickScheduler

namespace TickRange

variable {r rest : TickRange} {t tick : Tick}

theorem contains_iff : r.contains t = true ↔ r.cursor ≤ t ∧
    r.step.toInt ∣ t.toInt - r.cursor.toInt ∧ ∀ stop, r.stop = some stop → t < stop := by
  unfold contains isEmpty
  rw [Int.dvd_iff_emod_eq_zero]
  cases hStop : r.stop with
  | none => simp
  | some stop =>
      simp only [Option.any_some, Option.all_some, Bool.and_eq_true, Bool.not_eq_true', decide_eq_true_eq,
        decide_eq_false_iff_not, beq_iff_eq, Option.some.injEq, forall_eq']
      constructor
      · rintro ⟨⟨⟨-, hLow⟩, hOn⟩, hEnd⟩
        exact ⟨hLow, hOn, hEnd⟩
      · rintro ⟨hLow, hOn, hEnd⟩
        exact ⟨⟨⟨Int64.not_le.mpr (Std.lt_of_le_of_lt hLow hEnd), hLow⟩, hOn⟩, hEnd⟩

theorem not_contains_of_isEmpty (h : r.isEmpty = true) : r.contains t = false := by
  simp [contains, h]

/-- Taking the first tick off a range takes nothing else off. -/
theorem contains_of_next? (h : r.next? = some (tick, rest)) :
    r.contains t = true ↔ t = tick ∨ rest.contains t = true := by
  have hStep := r.step_pos
  unfold next? at h
  split at h
  · cases h
  · rename_i hPresent
    obtain ⟨rfl, rfl⟩ := Prod.mk.inj (Option.some.inj h)
    have hFirst : r.contains r.cursor = true := by
      refine contains_iff.mpr ⟨Int64.le_refl _, by simp, fun stop hStop => ?_⟩
      simpa [isEmpty, hStop] using hPresent
    cases hNext : r.cursor.add? r.step with
    | none =>
        -- the next step would leave the clock
        rw [not_contains_of_isEmpty r.isEmpty_exhaust]
        simp only [Bool.false_eq_true, or_false]
        refine ⟨fun hIn => ?_, fun hSame => hSame ▸ hFirst⟩
        obtain ⟨hLow, hOn, -⟩ := contains_iff.mp hIn
        have hBounds := Tick.toInt_bounds t
        have hCursor := Tick.toInt_bounds r.cursor
        rw [Tick.add?, Tick.ofInt?_eq_none_iff] at hNext
        rw [Int64.le_iff_toInt_le] at hLow
        have hZero : t.toInt - r.cursor.toInt = 0 :=
          Int.eq_zero_of_dvd_of_natAbs_lt_natAbs hOn (by omega)
        exact Int64.toInt_inj.mp (by omega)
    | some cursor =>
        have hCursor := Tick.add?_eq_some_iff.mp hNext
        have hShift : t.toInt - r.cursor.toInt = t.toInt - cursor.toInt + r.step.toInt := by omega
        rw [contains_iff, contains_iff, hShift, Int.dvd_add_left (Int.dvd_refl _)]
        simp only [Int64.le_iff_toInt_le]
        constructor
        · rintro ⟨hLow, hOn, hEnd⟩
          by_cases hSame : t = r.cursor
          · exact .inl hSame
          · refine .inr ⟨Int.not_lt.mp fun hBefore => hSame ?_, hOn, hEnd⟩
            have hZero : t.toInt - cursor.toInt + r.step.toInt = 0 :=
              Int.eq_zero_of_dvd_of_natAbs_lt_natAbs (Int.dvd_add hOn (Int.dvd_refl _)) (by omega)
            exact Int64.toInt_inj.mp (by omega)
        · rintro (hSame | ⟨hLow, hOn, hEnd⟩)
          · rw [hSame]
            obtain ⟨-, -, hEnd⟩ := contains_iff.mp hFirst
            refine ⟨Int.le_refl _, ?_, hEnd⟩
            rw [show r.cursor.toInt - cursor.toInt = -r.step.toInt by omega]
            exact Int.dvd_neg.mpr (Int.dvd_refl _)
          · exact ⟨by omega, hOn, hEnd⟩

theorem ticks_of_none (h : r.next? = none) : r.ticks = [] := by
  rw [ticks]
  split
  · rfl
  · rename_i hSome
    rw [h] at hSome
    cases hSome

theorem ticks_of_some (h : r.next? = some (tick, rest)) : r.ticks = tick :: rest.ticks := by
  rw [ticks]
  split
  · rename_i hNone
    rw [h] at hNone
    cases hNone
  · rename_i hSome
    rw [h] at hSome
    cases hSome
    rfl

theorem mem_ticks : t ∈ r.ticks ↔ r.contains t = true := by
  induction r using ticks.induct with
  | case1 r hNone =>
      have hEmpty : r.isEmpty = true := by
        by_contra hPresent
        simp [next?, hPresent] at hNone
      simp [ticks_of_none hNone, not_contains_of_isEmpty hEmpty]
  | case2 r tick rest hNext ih => rw [ticks_of_some hNext, contains_of_next? hNext, List.mem_cons, ih]

/-- What is left of a range comes later. -/
theorem lt_of_next? (h : r.next? = some (tick, rest)) (hRest : rest.contains t = true) : tick < t := by
  have hStep := r.step_pos
  unfold next? at h
  split at h
  · cases h
  · obtain ⟨rfl, rfl⟩ := Prod.mk.inj (Option.some.inj h)
    cases hNext : r.cursor.add? r.step with
    | none =>
        rw [hNext, not_contains_of_isEmpty r.isEmpty_exhaust] at hRest
        cases hRest
    | some cursor =>
        rw [hNext] at hRest
        have hLow := Int64.le_iff_toInt_le.mp (contains_iff.mp hRest).1
        have hCursor := Tick.add?_eq_some_iff.mp hNext
        rw [Int64.lt_iff_toInt_lt]
        change cursor.toInt ≤ t.toInt at hLow
        omega

theorem pairwise_ticks (r : TickRange) : r.ticks.Pairwise (· < ·) := by
  induction r using ticks.induct with
  | case1 r hNone =>
      rw [ticks_of_none hNone]
      exact .nil
  | case2 r tick rest hNext ih =>
      rw [ticks_of_some hNext]
      exact .cons (fun t ht => lt_of_next? hNext (mem_ticks.mp ht)) ih

theorem nodup_ticks (r : TickRange) : r.ticks.Nodup := by
  refine r.pairwise_ticks.imp fun {a b} hBefore hSame => ?_
  subst hSame
  exact Int64.lt_irrefl hBefore

theorem mem_ticks_range {start stop step : Tick} (hStep : 0 < step.toInt) :
    t ∈ (range start stop step).ticks ↔ start ≤ t ∧ step.toInt ∣ t.toInt - start.toInt ∧ t < stop := by
  rw [mem_ticks]
  by_cases hOpen : start < stop
  · simp [range, hStep, hOpen, contains_iff]
  · have hNone : range start stop step = empty := by simp [range, hOpen]
    rw [hNone, not_contains_of_isEmpty (by decide)]
    simp only [Bool.false_eq_true, false_iff]
    rintro ⟨hLow, -, hEnd⟩
    exact hOpen (Std.lt_of_le_of_lt hLow hEnd)

theorem ticks_empty : empty.ticks = [] :=
  ticks_of_none (by decide)

theorem not_contains_empty : ¬ empty.contains t = true := by
  rw [not_contains_of_isEmpty (by decide)]
  exact Bool.false_ne_true

theorem lt_of_contains_range {start stop step : Tick} (h : (range start stop step).contains t = true) : t < stop := by
  unfold range at h
  split at h
  · split at h
    · exact (contains_iff.mp h).2.2 stop rfl
    · exact absurd h not_contains_empty
  · exact absurd h not_contains_empty

/-- The number of ticks of a range that has an end. -/
theorem length_ticks {n : Nat} (h : r.length? = some n) : r.ticks.length = n := by
  obtain ⟨stop, hStop, rfl⟩ := Option.map_eq_some_iff.mp h
  clear h
  induction r using ticks.induct with
  | case1 r hNone =>
      have hEmpty : stop ≤ r.cursor := by
        by_contra hOpen
        simp [next?, isEmpty, hStop, hOpen] at hNone
      have hStep := r.step_pos
      rw [Int64.le_iff_toInt_le] at hEmpty
      have hFew : (stop.toInt - r.cursor.toInt + r.step.toInt - 1) / r.step.toInt < 1 :=
        Int.ediv_lt_of_lt_mul hStep (by omega)
      rw [ticks_of_none hNone, List.length_nil]
      omega
  | case2 r tick rest hNext ih =>
      have hStep := r.step_pos
      have hBounds := Tick.toInt_bounds r.cursor
      have hStopBounds := Tick.toInt_bounds stop
      rw [ticks_of_some hNext, List.length_cons]
      unfold next? at hNext
      split at hNext
      · cases hNext
      · rename_i hPresent
        obtain ⟨rfl, rfl⟩ := Prod.mk.inj (Option.some.inj hNext)
        have hOpen : ¬ stop ≤ r.cursor := by simpa [isEmpty, hStop] using hPresent
        rw [Int64.le_iff_toInt_le] at hOpen
        cases hMoved : r.cursor.add? r.step with
        | none =>
            -- one step is more than is left of the clock
            rw [Tick.add?, Tick.ofInt?_eq_none_iff] at hMoved
            have hLast : r.exhaust.ticks = [] := ticks_of_none (by simp [next?, r.isEmpty_exhaust])
            have hOne : (stop.toInt - r.cursor.toInt + r.step.toInt - 1) / r.step.toInt = 1 :=
              Int.le_antisymm (Int.lt_add_one_iff.mp (Int.ediv_lt_of_lt_mul hStep (by omega)))
                (Int.le_ediv_of_mul_le hStep (by omega))
            rw [hLast, hOne]
            rfl
        | some cursor =>
            have hCursor := Tick.add?_eq_some_iff.mp hMoved
            rw [hMoved] at ih
            have hRest := ih hStop
            have hCount : (stop.toInt - r.cursor.toInt + r.step.toInt - 1) / r.step.toInt =
                (stop.toInt - cursor.toInt + r.step.toInt - 1) / r.step.toInt + 1 := by
              rw [← Int.add_mul_ediv_right _ 1 (by omega)]
              congr 1
              omega
            have hNonneg : 0 ≤ (stop.toInt - cursor.toInt + r.step.toInt - 1) / r.step.toInt :=
              Int.ediv_nonneg (by omega) (by omega)
            dsimp only at hRest ⊢
            rw [hRest, hCount]
            omega

/-! ### The ranges of an entry that runs once -/

variable {start stop : Tick}

/-- The ticks before `stop` in steps of all that is left. -/
def spanning (start stop : Tick) : TickRange :=
  range start stop (Tick.absClamped (stop.subClamped start))

theorem mem_spanning : t ∈ (spanning start stop).ticks ↔ start ≤ t ∧ t < stop ∧
    min (stop.toInt - start.toInt) (0x8000000000000000 - 1) ∣ t.toInt - start.toInt := by
  by_cases hOpen : start < stop
  · have hOpenInt := Int64.lt_iff_toInt_lt.mp hOpen
    have hGap := Tick.toInt_subClamped stop start
    have hAbs := Tick.toInt_absClamped (stop.subClamped start)
    have hStep : (Tick.absClamped (stop.subClamped start)).toInt =
        min (stop.toInt - start.toInt) (0x8000000000000000 - 1) := by omega
    rw [spanning, mem_ticks_range (by omega), hStep, and_comm (b := t < stop)]
  · refine iff_of_false (fun hIn => ?_) fun h => hOpen (Std.lt_of_le_of_lt h.1 h.2.1)
    have hNone : spanning start stop = empty := by simp [spanning, range, hOpen]
    rw [hNone, ticks_empty] at hIn
    cases hIn

/-- A range with one tick. -/
theorem ticks_eq_singleton {r : TickRange} (h : ∀ t, t ∈ r.ticks ↔ t = start) : r.ticks = [start] :=
  List.Pairwise.eq_of_mem_iff (r := (· < ·)) r.pairwise_ticks (List.pairwise_singleton _ _) fun t => by
    rw [h, List.mem_singleton]

/-- One step that spans all that is left leaves room for the first tick alone. -/
theorem ticks_spanning (hNear : stop.toInt - start.toInt < 0x8000000000000000) :
    (spanning start stop).ticks = if start < stop then [start] else [] := by
  split
  · rename_i hOpen
    refine ticks_eq_singleton fun t => ?_
    rw [mem_spanning, Int.min_eq_left (by omega)]
    constructor
    · rintro ⟨hLow, hHigh, hOn⟩
      rw [Int64.le_iff_toInt_le] at hLow
      rw [Int64.lt_iff_toInt_lt] at hHigh
      have hZero : t.toInt - start.toInt = 0 := Int.eq_zero_of_dvd_of_natAbs_lt_natAbs hOn (by omega)
      exact Int64.toInt_inj.mp (by omega)
    · rintro rfl
      exact ⟨Int64.le_refl _, hOpen, by simp⟩
  · rename_i hReached
    refine List.eq_nil_iff_forall_not_mem.mpr fun t ht => ?_
    obtain ⟨hLow, hHigh, -⟩ := mem_spanning.mp ht
    exact hReached (Std.lt_of_le_of_lt hLow hHigh)

/-- A span that no step covers leaves room for a second tick. -/
theorem exists_mem_spanning (hFar : 0x8000000000000000 ≤ stop.toInt - start.toInt) :
    start < stop ∧ ∃ t ∈ (spanning start stop).ticks, t ≠ start := by
  have hLow := Tick.toInt_bounds start
  have hHigh := Tick.toInt_bounds stop
  let second : Int := start.toInt + (0x8000000000000000 - 1)
  have hSecond : (Int64.ofInt second).toInt = second := Tick.toInt_ofInt_of_fits (by omega) (by omega)
  refine ⟨Int64.lt_iff_toInt_lt.mpr (by omega), Int64.ofInt second, mem_spanning.mpr ⟨?_, ?_, ?_⟩, fun hSame => ?_⟩
  · rw [Int64.le_iff_toInt_le, hSecond]
    omega
  · rw [Int64.lt_iff_toInt_lt, hSecond]
    omega
  · rw [hSecond, Int.min_eq_right (by omega)]
    exact ⟨1, by omega⟩
  · have hSameInt := Int64.toInt_inj.mpr hSame
    omega

/-- The last tick of the clock is no tick of any range with an end. -/
theorem ticks_once : (once t).ticks = if t = Int64.maxValue then [] else [t] := by
  have hEnd := Tick.toInt_addClamped t 1
  have hBounds := Tick.toInt_bounds t
  rw [Int64.toInt_one] at hEnd
  have hMem (u : Tick) : u ∈ (once t).ticks ↔ t.toInt ≤ u.toInt ∧ u.toInt < (t.addClamped 1).toInt := by
    rw [mem_ticks, contains_iff]
    simp [once, Int64.le_iff_toInt_le, Int64.lt_iff_toInt_lt]
  split
  · rename_i hLast
    have hLastInt := Int64.toInt_inj.mpr hLast
    rw [Int64.toInt_maxValue] at hLastInt
    refine List.eq_nil_iff_forall_not_mem.mpr fun u hu => ?_
    have hBetween := (hMem u).mp hu
    omega
  · rename_i hEarlier
    rw [← Int64.toInt_inj, Int64.toInt_maxValue] at hEarlier
    refine ticks_eq_singleton fun u => ?_
    rw [hMem, ← Int64.toInt_inj]
    omega

end TickRange

namespace Entry

variable {e : Entry} {horizon t : Tick}

/-- The only tick of an entry that runs once can be told from a horizon. -/
def IsInReach (e : Entry) (horizon : Tick) : Prop :=
  e.isActive = true → e.interval = none →
    (e.cutoff horizon).toInt - e.nextTaskTime.toInt < 0x8000000000000000

/-- The remaining ticks of an entry are those that it offers. -/
theorem mem_remainingTimes (hReach : e.IsInReach horizon) :
    t ∈ (e.remainingTimes (some horizon)).ticks ↔ e.Offers t ∧ t < horizon := by
  by_cases hActive : e.isActive = true
  · cases hInterval : e.interval with
    | some interval =>
        by_cases hPos : 0 < interval.toInt
        · rw [remainingTimes_recurring hActive hInterval hPos, TickRange.mem_ticks_range hPos, lt_cutoff_iff]
          simp only [Offers, hActive, hInterval, hPos, true_and]
          constructor
          · rintro ⟨hLow, hOn, hEarly, hEnd⟩
            exact ⟨⟨hEnd, hLow, hOn⟩, hEarly⟩
          · rintro ⟨⟨hEnd, hLow, hOn⟩, hEarly⟩
            exact ⟨hLow, hOn, hEarly, hEnd⟩
        · have hSmall : e.interval.any (·.toInt < 1) = true := by
            simp only [hInterval, Option.any_some, decide_eq_true_eq]
            omega
          have hNone : e.remainingTimes (some horizon) = .empty := by
            rw [remainingTimes, hActive, hSmall]
            rfl
          simp [hNone, TickRange.ticks_empty, Offers, hInterval, hPos]
    | none =>
        have hSpan := hReach hActive hInterval
        have hOnce : e.Offers t ∧ t < horizon ↔ t < e.cutoff horizon ∧ t = e.nextTaskTime := by
          rw [lt_cutoff_iff]
          simp only [Offers, hActive, hInterval, true_and]
          exact ⟨fun h => ⟨⟨h.2, h.1.1⟩, h.1.2⟩, fun h => ⟨⟨h.1.2, h.2⟩, h.1.1⟩⟩
        rw [remainingTimes_once hActive hInterval, hOnce]
        change t ∈ (TickRange.spanning e.nextTaskTime (e.cutoff horizon)).ticks ↔ _
        rw [TickRange.ticks_spanning hSpan]
        split
        · rename_i hOpen
          rw [List.mem_singleton]
          exact ⟨fun hSame => ⟨hSame ▸ hOpen, hSame⟩, And.right⟩
        · rename_i hReached
          exact iff_of_false List.not_mem_nil fun h => hReached (h.2 ▸ h.1)
  · simp [remainingTimes, hActive, TickRange.ticks_empty, Offers]

/-- What is announced of an entry is a task without id for each tick that it offers, in order. -/
theorem mem_announced (hReach : e.IsInReach horizon) {τ : Task} :
    τ ∈ e.announced horizon ↔ ∃ t, e.Offers t ∧ t < horizon ∧ τ = e.taskAt t none := by
  simp only [announced, List.mem_map, mem_remainingTimes hReach]
  constructor
  · rintro ⟨t, ⟨hOffers, hEarly⟩, rfl⟩
    exact ⟨t, hOffers, hEarly, rfl⟩
  · rintro ⟨t, hOffers, hEarly, rfl⟩
    exact ⟨t, ⟨hOffers, hEarly⟩, rfl⟩

theorem nodup_announced (e : Entry) (horizon : Tick) : (e.announced horizon).Nodup :=
  (TickRange.nodup_ticks _).map fun _ _ hSame => (Task.mk.inj hSame).1

end Entry

end TickScheduler
