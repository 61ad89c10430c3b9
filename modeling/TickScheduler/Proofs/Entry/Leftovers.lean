import Mathlib.Data.List.Sort
import TickScheduler.Proofs.Entry.Consumption
import TickScheduler.Proofs.Entry.Ticks
/-!
What a look at the clock leaves of an entry. If it leaves it active, the tick of the cursor is still to come,
and up to a horizon that is not too far off it makes no difference whether the remaining ticks are looked up
before the horizon or picked from all that there are.
-/
namespace TickScheduler.Entry

variable {e f : Entry} {now horizon t : Tick} {task : Option Task}

/-- An entry that has a tick left has that of its cursor. -/
theorem offers_of_hasRemainingTimes (h : e.hasRemainingTimes = true) : e.Offers e.nextTaskTime := by
  unfold hasRemainingTimes remainingTimes at h
  split at h
  · exact absurd h TickRange.not_contains_empty
  · rename_i hActive
    split at h
    · exact absurd h TickRange.not_contains_empty
    · rename_i hSmall
      refine ⟨by simpa using hActive, fun stop hStop => ?_, ?_⟩
      · rw [hStop] at h
        cases hInterval : e.interval with
        | none | some =>
            rw [hInterval] at h
            exact TickRange.lt_of_contains_range h
      · cases hInterval : e.interval with
        | none => rfl
        | some interval =>
            have hPos : ¬ interval.toInt < 1 := by simpa [hInterval] using hSmall
            exact ⟨by omega, Int64.le_refl _, by simp⟩

theorem hasRemainingTimes_of_retire (h : e.retire.isActive = true) : e.retire.hasRemainingTimes = true := by
  unfold retire at h ⊢
  split at h
  · rename_i hLeft
    rwa [if_pos hLeft]
  · cases h

/-- An entry that stays active has a tick left. -/
theorem hasRemainingTimes_of_consume (h : e.consume now = .ok (task, f)) (hActive : f.isActive = true) :
    f.hasRemainingTimes = true := by
  obtain ⟨-, -, ⟨-, -, rfl⟩ | ⟨last, next, -, -, -, rfl⟩⟩ := consume_cases h
  · exact hasRemainingTimes_of_retire hActive
  · -- the id of the next task makes no difference to the ticks
    have hRetired : (e.advance last).retire.hasRemainingTimes = true := hasRemainingTimes_of_retire hActive
    exact hRetired

/-- The cursor of an entry that stays active is still to come. -/
theorem lt_nextTaskTime_of_consume (h : e.consume now = .ok (task, f)) (hActive : f.isActive = true) :
    now < f.nextTaskTime := by
  have hConsumes := consumes_of_consume h
  have hOffers := offers_of_hasRemainingTimes (hasRemainingTimes_of_consume h hActive)
  by_cases hEnd : f.nextTaskTime < Int64.maxValue
  · exact ((hConsumes.offers _ hEnd).mp hOffers).2
  · obtain ⟨horizon, hHorizon, -⟩ := consume_cases h
    have hHorizonInt := Tick.succ?_eq_some_iff.mp hHorizon
    have hBounds := Tick.toInt_bounds horizon
    rw [Int64.lt_iff_toInt_lt, Int64.toInt_maxValue] at hEnd
    rw [Int64.lt_iff_toInt_lt]
    omega

theorem remainingTimes_of_stop {stop : Tick} (hStop : e.stop = some stop) :
    e.remainingTimes none = e.remainingTimes (some stop) := by
  have hBound : bound (some stop) (some stop) = some stop := by
    change some (if stop ≤ stop then stop else stop) = some stop
    rw [if_pos (Int64.le_refl stop)]
  simp only [remainingTimes, hStop, hBound]
  rfl

/-- Without a stop, only the end of the clock ends a recurring entry. -/
theorem mem_remainingTimes_of_endless {interval : Tick} (hInterval : e.interval = some interval)
    (hStop : e.stop = none) : t ∈ (e.remainingTimes none).ticks ↔ e.Offers t := by
  rw [TickRange.mem_ticks]
  by_cases hActive : e.isActive = true
  · by_cases hPos : 0 < interval.toInt
    · have hSmall : ¬ interval.toInt < 1 := by omega
      simp [remainingTimes, Offers, hActive, hInterval, hStop, bound, hSmall, hPos, TickRange.unbounded,
        TickRange.contains_iff]
    · have hSmall : interval.toInt < 1 := by omega
      simp [remainingTimes, Offers, hActive, hInterval, hSmall, hPos, TickRange.not_contains_empty]
  · simp [remainingTimes, hActive, Offers, TickRange.not_contains_empty]

/-- Without a stop, only the end of the clock ends an entry. -/
theorem mem_remainingTimes_of_open (hStop : e.stop = none) (ht : t < Int64.maxValue) :
    t ∈ (e.remainingTimes none).ticks ↔ e.Offers t := by
  cases hInterval : e.interval with
  | some interval => exact mem_remainingTimes_of_endless hInterval hStop
  | none =>
      by_cases hActive : e.isActive = true
      · have hOnce : e.remainingTimes none = .once e.nextTaskTime := by
          simp [remainingTimes, hActive, hInterval, hStop, bound]
        have hOffers : e.Offers t ↔ t = e.nextTaskTime := by simp [Offers, hActive, hStop, hInterval]
        rw [hOnce, TickRange.ticks_once, hOffers]
        split
        · rename_i hLast
          refine iff_of_false List.not_mem_nil fun hSame => ?_
          rw [hSame, hLast] at ht
          exact Int64.lt_irrefl ht
        · rw [List.mem_singleton]
      · simp [remainingTimes, hActive, Offers, TickRange.ticks_empty]

/-- An entry that runs once has no second tick before a horizon that is not too far off. -/
theorem mem_remainingTimes_once {stop : Tick} (hActive : e.isActive = true) (hInterval : e.interval = none)
    (hStop : e.stop = some stop) (hNear : t.toInt < e.nextTaskTime.toInt + (0x8000000000000000 - 1)) :
    t ∈ (e.remainingTimes (some stop)).ticks ↔ e.Offers t := by
  have hCutoff : e.cutoff stop = stop := by
    simp only [cutoff, hStop]
    exact if_pos (Int64.le_refl stop)
  have hOffers : e.Offers t ↔ t < stop ∧ t = e.nextTaskTime := by simp [Offers, hActive, hStop, hInterval]
  rw [remainingTimes_once hActive hInterval, hCutoff, hOffers]
  change t ∈ (TickRange.spanning e.nextTaskTime stop).ticks ↔ _
  rw [TickRange.mem_spanning]
  simp only [Int64.lt_iff_toInt_lt, Int64.le_iff_toInt_le, ← Int64.toInt_inj]
  constructor
  · rintro ⟨hLow, hEnd, hOn⟩
    have hZero := Int.eq_zero_of_dvd_of_natAbs_lt_natAbs hOn (by omega)
    exact ⟨hEnd, by omega⟩
  · rintro ⟨hEnd, hSame⟩
    refine ⟨by omega, hEnd, ?_⟩
    rw [hSame, Int.sub_self]
    exact Int.dvd_zero _

/-- Before a horizon that is not too far off, the remaining ticks of an entry are those that it offers. -/
theorem mem_remainingTimes_none (hNear : horizon.toInt ≤ e.nextTaskTime.toInt + (0x8000000000000000 - 1))
    (ht : t < horizon) : t ∈ (e.remainingTimes none).ticks ↔ e.Offers t := by
  cases hStop : e.stop with
  | none => exact mem_remainingTimes_of_open hStop (Std.lt_of_lt_of_le ht (Int64.le_maxValue horizon))
  | some stop =>
      rw [remainingTimes_of_stop hStop]
      rw [Int64.lt_iff_toInt_lt] at ht
      by_cases hOnce : e.isActive = true ∧ e.interval = none
      · exact mem_remainingTimes_once hOnce.1 hOnce.2 hStop (by omega)
      · rw [mem_remainingTimes fun hActive hInterval => absurd ⟨hActive, hInterval⟩ hOnce]
        exact and_iff_left_of_imp fun hOffers => hOffers.2.1 stop hStop

/-- An entry is in reach of such a horizon. -/
theorem isInReach_of_near (hNear : horizon.toInt ≤ e.nextTaskTime.toInt + (0x8000000000000000 - 1)) :
    e.IsInReach horizon := by
  intro _ _
  have hCutoff := Int64.le_iff_toInt_le.mp (e.cutoff_le horizon)
  omega

/-- The ticks before such a horizon, looked up at once or picked from all. -/
theorem ticks_remainingTimes (hNear : horizon.toInt ≤ e.nextTaskTime.toInt + (0x8000000000000000 - 1)) :
    (e.remainingTimes (some horizon)).ticks = (e.remainingTimes none).ticks.filter (· < horizon) := by
  refine List.Pairwise.eq_of_mem_iff (r := (· < ·)) (TickRange.pairwise_ticks _)
    ((TickRange.pairwise_ticks _).filter _) fun t => ?_
  rw [mem_remainingTimes (isInReach_of_near hNear), List.mem_filter, decide_eq_true_eq]
  exact and_congr_left fun hEarly => (mem_remainingTimes_none hNear hEarly).symm

end TickScheduler.Entry
