import TickScheduler.Entry.Draft
import TickScheduler.Proofs.Entry.Consumption
import TickScheduler.Proofs.Entry.Ticks
/-!
Entries that run once. The step of such an entry spans all that is left before the earliest bound, so that no
second tick fits in; but the step is itself a tick, and where the span is longer than a tick can say the step
stops short and more ticks follow. With no bound at all the end is the tick after the cursor, and the last tick
of the clock has none after it.
-/
namespace TickScheduler.Entry

variable {e : Entry} {horizon : Option Tick} {b t : Tick}

/-- The bounds that are given for the ticks of an entry. -/
def bounds (e : Entry) (horizon : Option Tick) : List Tick :=
  horizon.toList ++ e.stop.toList

/-- An entry has the tick of its cursor and no other. -/
structure RunsOnce (e : Entry) (horizon : Option Tick) : Prop where
  /-- The tick is there if it comes before every bound that is given. -/
  ticks_eq : (e.remainingTimes horizon).ticks =
    if (e.bounds horizon).all (e.nextTaskTime < ·) then [e.nextTaskTime] else []
  /-- No more than that is taken off the entry, which becomes inactive with it, and only with it. -/
  taken : ∀ t, horizon = some t → (e.takeUntil t).1.ticks.length ≤ 1 ∧
    ((e.takeUntil t).2.isActive = false ↔ (e.takeUntil t).1.ticks.length = 1)

/-- The bound of an entry is the earliest of those that are given. -/
theorem bound_eq_some (h : bound horizon e.stop = some b) :
    b ∈ e.bounds horizon ∧ ∀ c ∈ e.bounds horizon, b ≤ c := by
  unfold bounds
  cases horizon with
  | none =>
      have hStop : e.stop = some b := h
      simp [hStop]
  | some first =>
      cases hStop : e.stop with
      | none =>
          rw [hStop] at h
          obtain rfl := Option.some.inj h
          simp
      | some stop =>
          rw [hStop] at h
          obtain rfl := Option.some.inj h
          change (if first ≤ stop then first else stop) ∈ [first, stop] ∧
            ∀ c ∈ [first, stop], (if first ≤ stop then first else stop) ≤ c
          split
          · rename_i hOrder
            simp [hOrder]
          · rename_i hOrder
            simp [Int64.le_of_lt (Int64.not_le.mp hOrder)]

theorem bound_eq_none (h : bound horizon e.stop = none) : e.bounds horizon = [] := by
  unfold bounds
  cases horizon with
  | none =>
      have hStop : e.stop = none := h
      simp [hStop]
  | some first =>
      cases hStop : e.stop with
      | none | some => simp [hStop, bound] at h

/-- A tick comes before every bound that is given if it comes before the earliest. -/
theorem lt_bounds_iff (h : bound horizon e.stop = some b) :
    (e.bounds horizon).all (t < ·) = true ↔ t < b := by
  obtain ⟨hMem, hLeast⟩ := bound_eq_some h
  simp only [List.all_eq_true, decide_eq_true_eq]
  exact ⟨fun hAll => hAll b hMem, fun hBefore c hc => Std.lt_of_lt_of_le hBefore (hLeast c hc)⟩

theorem remainingTimes_of_bound (hActive : e.isActive = true) (hInterval : e.interval = none)
    (h : bound horizon e.stop = some b) : e.remainingTimes horizon = .spanning e.nextTaskTime b := by
  simp [remainingTimes, hActive, hInterval, h, TickRange.spanning]

theorem remainingTimes_of_unbound (hActive : e.isActive = true) (hInterval : e.interval = none)
    (h : bound horizon e.stop = none) : e.remainingTimes horizon = .once e.nextTaskTime := by
  simp [remainingTimes, hActive, hInterval, h]

/-- The entry becomes inactive when the latest of its ticks is taken, which is there as soon as one is. -/
theorem isActive_after_once (hActive : e.isActive = true) (hInterval : e.interval = none) :
    (e.after t).isActive = false ↔ e.nextTaskTime < e.cutoff t := by
  unfold after
  by_cases hOpen : e.nextTaskTime < e.cutoff t
  · obtain ⟨last, hLatest, -⟩ := latestBefore_once hActive hInterval hOpen
    simp [hLatest, advance, hInterval, hOpen]
  · have hLatest : e.latestBefore t = none := by
      rcases e.latestBefore_cases t with ⟨hNone, -⟩ | ⟨last, -, -, hLow, hHigh, -⟩
      · exact hNone
      · exact absurd (Std.lt_of_le_of_lt hLow hHigh) hOpen
    simp [hLatest, hActive, hOpen]

theorem runsOnce_of_ticks_eq (hActive : e.isActive = true) (hInterval : e.interval = none)
    (hTicks : (e.remainingTimes horizon).ticks =
      if (e.bounds horizon).all (e.nextTaskTime < ·) then [e.nextTaskTime] else []) : e.RunsOnce horizon := by
  refine ⟨hTicks, fun t ht => ?_⟩
  subst ht
  rw [takeUntil_eq, hTicks, isActive_after_once hActive hInterval, ← lt_bounds_iff (bound_eq_cutoff e t)]
  split
  · rename_i hAhead
    exact ⟨Nat.le_refl 1, iff_of_true hAhead rfl⟩
  · rename_i hReached
    exact ⟨Nat.zero_le 1, iff_of_false hReached Nat.zero_ne_one⟩

/-- An entry without interval runs once unless every bound is too far off for one step, or there is no bound
and its tick is the last of the clock. -/
theorem runsOnce_iff (hActive : e.isActive = true) (hInterval : e.interval = none) : e.RunsOnce horizon ↔
    (∃ b ∈ e.bounds horizon, b.toInt - e.nextTaskTime.toInt < 0x8000000000000000) ∨
      (e.bounds horizon = [] ∧ e.nextTaskTime ≠ Int64.maxValue) := by
  cases hBound : bound horizon e.stop with
  | none =>
      have hNone := bound_eq_none hBound
      have hTicks := congrArg TickRange.ticks (remainingTimes_of_unbound hActive hInterval hBound)
      rw [TickRange.ticks_once] at hTicks
      simp only [hNone, List.not_mem_nil, false_and, exists_false, false_or, true_and]
      constructor
      · intro hOnce hLast
        have hOne := hOnce.ticks_eq
        rw [hTicks, if_pos hLast] at hOne
        simp [hNone] at hOne
      · intro hEarlier
        refine runsOnce_of_ticks_eq hActive hInterval ?_
        rw [hTicks, if_neg hEarlier]
        simp [hNone]
  | some b =>
      obtain ⟨hMem, hLeast⟩ := bound_eq_some hBound
      have hTicks := remainingTimes_of_bound hActive hInterval hBound
      have hSome : e.bounds horizon ≠ [] := List.ne_nil_of_mem hMem
      simp only [hSome, false_and, or_false]
      constructor
      · intro hOnce
        refine ⟨b, hMem, Int.not_le.mp fun hFar => ?_⟩
        obtain ⟨hAhead, t, ht, hOther⟩ := TickRange.exists_mem_spanning hFar
        rw [← hTicks, hOnce.ticks_eq, if_pos ((lt_bounds_iff hBound).mpr hAhead), List.mem_singleton] at ht
        exact hOther ht
      · rintro ⟨c, hc, hNear⟩
        have hBefore := Int64.le_iff_toInt_le.mp (hLeast c hc)
        refine runsOnce_of_ticks_eq hActive hInterval ?_
        rw [hTicks, TickRange.ticks_spanning (by omega)]
        simp only [lt_bounds_iff hBound]

/-- Once, at 4. -/
def gong : Entry :=
  Draft.entryFrom ⟨"gong", "beep", none, some 4, none, false, none, none, none⟩ 4 none "first"

/-- Up to a cutoff that lies after its tick, and up to one that does not. -/
theorem runsOnce_gong : gong.RunsOnce (some 1000) ∧ (gong.remainingTimes (some 1000)).ticks = [4] ∧
    gong.RunsOnce (some 4) ∧ (gong.remainingTimes (some 4)).ticks = [] := by
  have hLater : gong.RunsOnce (some 1000) := (runsOnce_iff rfl rfl).mpr (.inl ⟨1000, by decide, by decide⟩)
  have hNow : gong.RunsOnce (some 4) := (runsOnce_iff rfl rfl).mpr (.inl ⟨4, by decide, by decide⟩)
  exact ⟨hLater, hLater.ticks_eq.trans (by decide), hNow, hNow.ticks_eq.trans (by decide)⟩

/-- Once, at the first tick of the clock. -/
def bigBang : Entry :=
  Draft.entryFrom ⟨"big-bang", "beep", none, some Int64.minValue, none, false, none, none, none⟩ Int64.minValue none
    "first"

/-- Once, at the last tick of the clock. -/
def doomsday : Entry :=
  Draft.entryFrom ⟨"doomsday", "beep", none, some Int64.maxValue, none, false, none, none, none⟩ Int64.maxValue none
    "first"

/-- The first of them comes twice, half the clock apart, and the second never. -/
theorem bigBang_echoes : ¬ bigBang.RunsOnce (some 2) ∧ (bigBang.takeUntil 2).1.ticks = [Int64.minValue, -1] ∧
    ¬ doomsday.RunsOnce none ∧ (doomsday.remainingTimes none).ticks = [] := by
  have hTwice : (bigBang.takeUntil 2).1.ticks = [Int64.minValue, -1] := by decide +kernel
  have hNever : (doomsday.remainingTimes none).ticks = [] := by
    rw [remainingTimes_of_unbound rfl rfl rfl, TickRange.ticks_once]
    rfl
  refine ⟨fun hOnce => ?_, hTwice, fun hOnce => ?_, hNever⟩
  · have hFew := (hOnce.taken 2 rfl).1
    rw [hTwice] at hFew
    exact absurd hFew (by decide)
  · have hOne := hOnce.ticks_eq
    rw [hNever] at hOne
    cases hOne

end TickScheduler.Entry
