import TickScheduler.Entry
/-!
The ticks that an entry still has to run. `Entry.Offers` says it for one tick at a time; everything
that takes ticks off an entry, or gives up on it, is described by what it does to the offered ticks.
-/
namespace TickScheduler

theorem Tick.toInt_addClamped (a b : Tick) : (a.addClamped b).toInt =
    max (-0x8000000000000000) (min (a.toInt + b.toInt) (0x8000000000000000 - 1)) :=
  Tick.toInt_clamp _

theorem Tick.toInt_subClamped (a b : Tick) : (a.subClamped b).toInt =
    max (-0x8000000000000000) (min (a.toInt - b.toInt) (0x8000000000000000 - 1)) :=
  Tick.toInt_clamp _

theorem Tick.toInt_absClamped (a : Tick) : (a.absClamped).toInt =
    max (-0x8000000000000000) (min (a.toInt.natAbs : Int) (0x8000000000000000 - 1)) :=
  Tick.toInt_clamp _

namespace TickRange

variable {r : TickRange} {stop : Tick}

/-- The last tick of a range with an end is on the progression, and the one after it is too late. -/
theorem last?_of_bounded (h : r.stop = some stop) (hOpen : r.cursor < stop) :
    ∃ last, r.last? = some last ∧ r.cursor.toInt ≤ last.toInt ∧ last.toInt < stop.toInt ∧
      r.step.toInt ∣ last.toInt - r.cursor.toInt ∧ stop.toInt ≤ last.toInt + r.step.toInt := by
  have hStep := r.step_pos
  rw [Int64.lt_iff_toInt_lt] at hOpen
  let gap := stop.toInt - r.cursor.toInt - 1
  let steps := gap / r.step.toInt
  have hSteps : 0 ≤ steps := Int.ediv_nonneg (by omega) (by omega)
  have hLength : r.length? = some (steps.toNat + 1) := by
    have hQuotient : (stop.toInt - r.cursor.toInt + r.step.toInt - 1) / r.step.toInt = steps + 1 := by
      rw [show stop.toInt - r.cursor.toInt + r.step.toInt - 1 = gap + 1 * r.step.toInt by omega]
      exact Int.add_mul_ediv_right gap 1 (by omega)
    rw [length?, h, Option.map_some, hQuotient]
    exact congrArg some (by omega)
  have hGap : r.step.toInt * steps + gap % r.step.toInt = gap := Int.mul_ediv_add_emod _ _
  have hNonneg : 0 ≤ r.step.toInt * steps := Int.mul_nonneg (by omega) hSteps
  have hRest := Int.emod_nonneg gap (show r.step.toInt ≠ 0 by omega)
  have hBelow := Int.emod_lt_of_pos gap hStep
  have hLow := Tick.toInt_bounds r.cursor
  have hHigh := Tick.toInt_bounds stop
  have hLast : (Int64.ofInt (r.cursor.toInt + r.step.toInt * steps)).toInt =
      r.cursor.toInt + r.step.toInt * steps :=
    Tick.toInt_ofInt_of_fits (by omega) (by omega)
  refine ⟨Int64.ofInt (r.cursor.toInt + r.step.toInt * steps), ?_, ?_, ?_, ?_, ?_⟩
  · rw [last?, hLength]
    dsimp only
    rw [Tick.ofInt?_eq_some_iff, hLast, Int.toNat_of_nonneg hSteps, Int.mul_comm]
  · omega
  · omega
  · exact ⟨steps, by omega⟩
  · omega

end TickRange

namespace Entry

variable {e : Entry} {horizon t last : Tick}

/-- An entry has yet to run at a tick. -/
def Offers (e : Entry) (t : Tick) : Prop :=
  e.isActive = true ∧ (∀ stop, e.stop = some stop → t < stop) ∧
    match e.interval with
    | some interval => 0 < interval.toInt ∧ e.nextTaskTime ≤ t ∧
        interval.toInt ∣ t.toInt - e.nextTaskTime.toInt
    | none => t = e.nextTaskTime

/-- The latest tick before a horizon that an entry has yet to run, as `takeUntil` finds it. -/
def latestBefore (e : Entry) (horizon : Tick) : Option Tick :=
  (e.remainingTimes (some horizon)).last?

theorem Offers.nextTaskTime_le (h : e.Offers t) : e.nextTaskTime ≤ t := by
  obtain ⟨-, -, hTimes⟩ := h
  cases hInterval : e.interval with
  | some interval =>
      rw [hInterval] at hTimes
      exact hTimes.2.1
  | none =>
      rw [hInterval] at hTimes
      exact Int64.le_of_eq hTimes.symm

/-- Offered ticks depend on nothing but the span and the cursor. -/
theorem offers_congr {f : Entry} (hActive : f.isActive = e.isActive) (hStop : f.stop = e.stop)
    (hInterval : f.interval = e.interval) (hNext : f.nextTaskTime = e.nextTaskTime) :
    f.Offers t ↔ e.Offers t := by
  rw [Offers, Offers, hActive, hStop, hInterval, hNext]

/-- The first tick that is too late for an entry, or the horizon if that is earlier. -/
def cutoff (e : Entry) (horizon : Tick) : Tick :=
  match e.stop with
  | some stop => min horizon stop
  | none => horizon

theorem bound_eq_cutoff (e : Entry) (horizon : Tick) :
    bound (some horizon) e.stop = some (e.cutoff horizon) := by
  unfold cutoff
  cases e.stop <;> rfl

theorem lt_cutoff_iff : t < e.cutoff horizon ↔ t < horizon ∧ ∀ stop, e.stop = some stop → t < stop := by
  unfold cutoff
  cases e.stop with
  | none => simp
  | some stop =>
      simp only [Option.some.injEq, forall_eq']
      change t < (if horizon ≤ stop then horizon else stop) ↔ t < horizon ∧ t < stop
      simp only [Int64.lt_iff_toInt_lt, Int64.le_iff_toInt_le]
      split <;> omega

theorem cutoff_le (e : Entry) (horizon : Tick) : e.cutoff horizon ≤ horizon :=
  Int64.not_lt.mp fun hPast => Int64.lt_irrefl (lt_cutoff_iff.mp hPast).1

/-- The ticks of a recurring entry before a horizon. -/
theorem remainingTimes_recurring {interval : Tick} (hActive : e.isActive = true)
    (hInterval : e.interval = some interval) (hPos : 0 < interval.toInt) :
    e.remainingTimes (some horizon) = .range e.nextTaskTime (e.cutoff horizon) interval := by
  have hSmall : e.interval.any (·.toInt < 1) = false := by
    simp only [hInterval, Option.any_some, decide_eq_false_iff_not]
    omega
  simp only [remainingTimes, hActive, hSmall, bound_eq_cutoff]
  simp [hInterval]

theorem remainingTimes_once (hActive : e.isActive = true) (hInterval : e.interval = none) :
    e.remainingTimes (some horizon) = .range e.nextTaskTime (e.cutoff horizon)
      (Tick.absClamped ((e.cutoff horizon).subClamped e.nextTaskTime)) := by
  simp only [remainingTimes, hActive, bound_eq_cutoff]
  simp [hInterval]

private theorem last?_empty : TickRange.empty.last? = none := by
  decide

/-- The last tick of the range that an entry yields, given its step. -/
private theorem last?_range (start stop : Tick) {step : Tick} (hPos : 0 < step.toInt) :
    (stop ≤ start ∧ (TickRange.range start stop step).last? = none) ∨
      ∃ last, (TickRange.range start stop step).last? = some last ∧ start ≤ last ∧ last < stop ∧
        step.toInt ∣ last.toInt - start.toInt ∧ stop.toInt ≤ last.toInt + step.toInt := by
  by_cases hOpen : start < stop
  · simp only [TickRange.range, hPos, hOpen, dif_pos, if_true]
    obtain ⟨last, hLast, hLow, hHigh, hStep, hNext⟩ :=
      TickRange.last?_of_bounded (r := ⟨start, step, some stop, hPos⟩) rfl hOpen
    exact .inr ⟨last, hLast, Int64.le_iff_toInt_le.mpr hLow, Int64.lt_iff_toInt_lt.mpr hHigh, hStep,
      hNext⟩
  · simp only [TickRange.range, hPos, hOpen, dif_pos, if_false]
    exact .inl ⟨Int64.not_lt.mp hOpen, last?_empty⟩

theorem not_offers_of_reached (h : e.cutoff horizon ≤ e.nextTaskTime) (ht : t < horizon) :
    ¬ e.Offers t := by
  intro hOffers
  have hBelow : t < e.cutoff horizon := lt_cutoff_iff.mpr ⟨ht, hOffers.2.1⟩
  exact Int64.not_lt.mpr (Int64.le_trans h hOffers.nextTaskTime_le) hBelow

/-- The tick of an entry that runs once is found unless it lies so far back that the distance does not
fit. -/
theorem latestBefore_once (hActive : e.isActive = true) (hInterval : e.interval = none)
    (hOpen : e.nextTaskTime < e.cutoff horizon) :
    ∃ last, e.latestBefore horizon = some last ∧ e.nextTaskTime ≤ last ∧ last < e.cutoff horizon ∧
      ((e.cutoff horizon).toInt - e.nextTaskTime.toInt < 0x8000000000000000 → last = e.nextTaskTime) := by
  have hOpenInt := Int64.lt_iff_toInt_lt.mp hOpen
  have hStep := Tick.toInt_absClamped ((e.cutoff horizon).subClamped e.nextTaskTime)
  have hGap := Tick.toInt_subClamped (e.cutoff horizon) e.nextTaskTime
  have hPos : 0 < (Tick.absClamped ((e.cutoff horizon).subClamped e.nextTaskTime)).toInt := by
    omega
  rw [latestBefore, remainingTimes_once hActive hInterval]
  rcases last?_range e.nextTaskTime (e.cutoff horizon) hPos with
    ⟨reached, -⟩ | ⟨last, hLast, hLow, hHigh, hDvd, -⟩
  · exact absurd hOpen (Int64.not_lt.mpr reached)
  · refine ⟨last, hLast, hLow, hHigh, fun hFits => ?_⟩
    have hLowInt := Int64.le_iff_toInt_le.mp hLow
    have hHighInt := Int64.lt_iff_toInt_lt.mp hHigh
    have hZero : last.toInt - e.nextTaskTime.toInt = 0 :=
      Int.eq_zero_of_dvd_of_natAbs_lt_natAbs hDvd (by omega)
    exact Int64.toInt_inj.mp (by omega)

/-- Either no offered tick lies before the horizon, or the latest tick is found: on the
progression for a recurring entry, and the tick of the cursor for one that runs once, unless that lies
so far back that the distance does not fit. -/
theorem latestBefore_cases (e : Entry) (horizon : Tick) :
    (e.latestBefore horizon = none ∧ ∀ t, t < horizon → ¬ e.Offers t) ∨
      ∃ last, e.latestBefore horizon = some last ∧ e.isActive = true ∧ e.nextTaskTime ≤ last ∧
        last < e.cutoff horizon ∧
        match e.interval with
        | some interval => 0 < interval.toInt ∧ interval.toInt ∣ last.toInt - e.nextTaskTime.toInt ∧
            (e.cutoff horizon).toInt ≤ last.toInt + interval.toInt
        | none => (e.cutoff horizon).toInt - e.nextTaskTime.toInt < 0x8000000000000000 →
            last = e.nextTaskTime := by
  by_cases hActive : e.isActive = true
  · cases hInterval : e.interval with
    | some interval =>
        by_cases hPos : 0 < interval.toInt
        · rw [latestBefore, remainingTimes_recurring hActive hInterval hPos]
          rcases last?_range e.nextTaskTime (e.cutoff horizon) hPos with
            ⟨reached, hNone⟩ | ⟨last, hLast, hLow, hHigh, hStep, hNext⟩
          · exact .inl ⟨hNone, fun t ht => not_offers_of_reached reached ht⟩
          · exact .inr ⟨last, hLast, hActive, hLow, hHigh, hPos, hStep, hNext⟩
        · refine .inl ⟨?_, fun t _ hOffers => ?_⟩
          · have hSmall : e.interval.any (·.toInt < 1) = true := by
              simp only [hInterval, Option.any_some, decide_eq_true_eq]
              omega
            simp [latestBefore, remainingTimes, hActive, hSmall, last?_empty]
          · have hTimes := hOffers.2.2
            rw [hInterval] at hTimes
            exact hPos hTimes.1
    | none =>
        by_cases hOpen : e.nextTaskTime < e.cutoff horizon
        · obtain ⟨last, hLast, hLow, hHigh, hExact⟩ := latestBefore_once hActive hInterval hOpen
          exact .inr ⟨last, hLast, hActive, hLow, hHigh, hExact⟩
        · refine .inl ⟨?_, fun t ht => not_offers_of_reached (Int64.not_lt.mp hOpen) ht⟩
          rw [latestBefore, remainingTimes_once hActive hInterval]
          simp [TickRange.range, hOpen, last?_empty]
  · refine .inl ⟨?_, fun t _ hOffers => hActive hOffers.1⟩
    simp [latestBefore, remainingTimes, hActive, last?_empty]

end Entry

end TickScheduler
