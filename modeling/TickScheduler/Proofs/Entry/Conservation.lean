import TickScheduler.Proofs.Entry.Leftovers
import TickScheduler.Proofs.Entry.Slices
import TickScheduler.Proofs.Store.Rows
/-!
Conservation of ticks. What is taken off a recurring entry and what is left of it are together what it had
yet to run, and the entry is out of the schedule with its last tick. The one exception is an entry that only
the end of the clock ends: with its last tick the cursor would have to leave the clock, stops at its end
instead, and the entry goes on with a tick that it never had.
-/
namespace TickScheduler

namespace Entry

variable {e f : Entry} {interval horizon last now t : Tick} {task : Option Task}

/-- Every tick that an entry has yet to run lies before the horizon, and is taken. -/
def TakesAll (e : Entry) (horizon : Tick) : Prop :=
  (e.takeUntil horizon).1.ticks = (e.remainingTimes none).ticks

/-- Taking the ticks before a horizon off an entry conserves them. -/
structure Conserves (e : Entry) (horizon : Tick) : Prop where
  /-- No tick is lost, none comes again, and none is left that was not there before. -/
  append_ticks : (e.takeUntil horizon).1.ticks ++ ((e.takeUntil horizon).2.remainingTimes none).ticks =
    (e.remainingTimes none).ticks
  /-- Once every tick is taken, and not before, the entry is used up. -/
  usedUp_iff : (e.takeUntil horizon).2.hasRemainingTimes = false ↔ e.TakesAll horizon
  /-- The look at the clock that takes the last tick also takes the entry out of the schedule, for good. -/
  retires : ∀ now, Tick.succ? now = some horizon → e.nextTaskId < Int64.maxValue →
    ∃ task f, e.consume now = .ok (task, f) ∧ (f.isActive = false ↔ e.TakesAll horizon) ∧
      ∀ s : Store, s.getEntry e.name = .ok e → ∃ t, s.saveCursor f = .ok t ∧ t.getEntry e.name = .ok f

/-! ### The ticks of a recurring entry -/

/-- All that a recurring entry has left, up to the end of the clock. -/
theorem mem_remainingTimes_of_recurring (hInterval : e.interval = some interval) :
    t ∈ (e.remainingTimes none).ticks ↔ e.Offers t := by
  cases hStop : e.stop with
  | none => exact mem_remainingTimes_of_endless hInterval hStop
  | some stop =>
      rw [remainingTimes_of_stop hStop, mem_remainingTimes (isInReach_of_recurring hInterval)]
      exact and_iff_left_of_imp fun hOffers => hOffers.2.1 stop hStop

/-- A recurring entry with a tick left has that of its cursor. -/
theorem Offers.cursor (hInterval : e.interval = some interval) (h : e.Offers t) :
    e.Offers e.nextTaskTime := by
  obtain ⟨hActive, hStop, hTimes⟩ := h
  rw [hInterval] at hTimes
  refine ⟨hActive, fun stop hSome => Std.lt_of_le_of_lt hTimes.2.1 (hStop stop hSome), ?_⟩
  rw [hInterval]
  exact ⟨hTimes.1, Int64.le_refl _, by simp⟩

theorem hasRemainingTimes_eq_false_iff (hInterval : e.interval = some interval) :
    e.hasRemainingTimes = false ↔ (e.remainingTimes none).ticks = [] := by
  rw [← Bool.not_eq_true, hasRemainingTimes, ← TickRange.mem_ticks, List.eq_nil_iff_forall_not_mem]
  simp only [mem_remainingTimes_of_recurring hInterval]
  exact ⟨fun hNone t ht => hNone (ht.cursor hInterval), fun hNone => hNone _⟩

/-! ### One step past the last tick taken -/

/-- Where the cursor finds room on the clock, one step past a tick leaves exactly the later ones. -/
theorem offers_advance_of_room (hInterval : e.interval = some interval) (hOffers : e.Offers last)
    (hRoom : last.toInt + interval.toInt < 0x8000000000000000) :
    (e.advance last).Offers t ↔ e.Offers t ∧ last < t := by
  obtain ⟨hActive, -, hTimes⟩ := hOffers
  rw [hInterval] at hTimes
  obtain ⟨hPos, hLow, hDvd⟩ := hTimes
  have hCursor : (last.addClamped interval).toInt = last.toInt + interval.toInt := by
    have hSum := Tick.toInt_addClamped last interval
    have hBounds := Tick.toInt_bounds last
    omega
  rw [Int64.le_iff_toInt_le] at hLow
  simp only [advance, hInterval, Offers, Int64.le_iff_toInt_le, Int64.lt_iff_toInt_lt, hCursor]
  constructor
  · rintro ⟨-, hEnd, -, hFrom, hOn⟩
    have hPast : last.toInt < t.toInt := by omega
    exact ⟨⟨hActive, hEnd, hPos, by omega, (dvd_past_iff hDvd hPast).mpr ⟨hFrom, hOn⟩⟩, hPast⟩
  · rintro ⟨⟨-, hEnd, -, -, hOn⟩, hPast⟩
    obtain ⟨hFrom, hOn⟩ := (dvd_past_iff hDvd hPast).mp hOn
    exact ⟨hActive, hEnd, hPos, hFrom, hOn⟩

/-- Where the cursor would leave the clock, the tick is the last one. -/
theorem le_of_no_room (hInterval : e.interval = some interval) (hOffers : e.Offers last)
    (hNoRoom : 0x8000000000000000 ≤ last.toInt + interval.toInt) (ht : e.Offers t) : t ≤ last := by
  have hFirst := hOffers.2.2
  have hOn := ht.2.2
  rw [hInterval] at hFirst hOn
  refine Int64.not_lt.mp fun hPast => ?_
  have hStep := ((dvd_past_iff hFirst.2.2 (Int64.lt_iff_toInt_lt.mp hPast)).mp hOn.2.2).1
  have hBounds := Tick.toInt_bounds t
  omega

theorem advance_of_recurring (hInterval : e.interval = some interval) (last : Tick) :
    e.advance last = { e with nextTaskTime := last.addClamped interval } := by
  simp only [advance, hInterval]

/-- There the cursor stops at the end of the clock. -/
theorem advance_of_no_room (hInterval : e.interval = some interval)
    (hNoRoom : 0x8000000000000000 ≤ last.toInt + interval.toInt) :
    e.advance last = { e with nextTaskTime := Int64.maxValue } := by
  have hSum := Tick.toInt_addClamped last interval
  have hEnd : last.addClamped interval = Int64.maxValue := by
    rw [← Int64.toInt_inj, Int64.toInt_maxValue]
    omega
  rw [advance_of_recurring hInterval, hEnd]

/-- What a horizon leaves of a recurring entry are the ticks from there on, if the entry has a stop or any
tick from there on. -/
theorem offers_after_of_left (hInterval : e.interval = some interval)
    (hLeft : e.stop.isSome = true ∨ ∃ t, e.Offers t ∧ horizon ≤ t) :
    (e.after horizon).Offers t ↔ e.Offers t ∧ horizon ≤ t := by
  unfold after
  cases hLatest : e.latestBefore horizon with
  | none => exact (and_iff_left_of_imp (le_of_latestBefore_eq_none hLatest)).symm
  | some last =>
      obtain ⟨hLast, hBefore, hLater⟩ := offers_latestBefore hInterval hLatest
      have hSplit : e.Offers t ∧ horizon ≤ t ↔ e.Offers t ∧ last < t :=
        and_congr_right fun ht => ⟨Std.lt_of_lt_of_le hBefore, hLater t ht⟩
      rw [hSplit]
      by_cases hRoom : last.toInt + interval.toInt < 0x8000000000000000
      · exact offers_advance_of_room hInterval hLast hRoom
      · -- there is no later tick, and the stop comes before the end of the clock
        have hNone {t : Tick} (ht : e.Offers t) : t ≤ last := le_of_no_room hInterval hLast (by omega) ht
        rcases hLeft with hStop | ⟨next, hNext, hFrom⟩
        · obtain ⟨stop, hStop⟩ := Option.isSome_iff_exists.mp hStop
          refine iff_of_false (fun hOffers => ?_) fun h => Int64.not_le.mpr h.2 (hNone h.1)
          dsimp only at hOffers
          rw [advance_of_no_room hInterval (by omega)] at hOffers
          have hEarly := Std.lt_of_lt_of_le (hOffers.2.1 stop hStop) (Int64.le_maxValue stop)
          exact Int64.not_le.mpr hEarly hOffers.nextTaskTime_le
        · exact absurd (Std.lt_of_lt_of_le hBefore hFrom) (Int64.not_lt.mpr (hNone hNext))

/-- An entry that only the end of the clock ends has the tick of its cursor, wherever that is. -/
theorem offers_cursor_of_endless (hInterval : e.interval = some interval) (hActive : e.isActive = true)
    (hPos : 0 < interval.toInt) (hStop : e.stop = none) (time : Tick) :
    ({ e with nextTaskTime := time } : Entry).Offers time := by
  refine ⟨hActive, fun stop hSome => ?_, ?_⟩
  · rw [hStop] at hSome
    cases hSome
  · rw [hInterval]
    exact ⟨hPos, Int64.le_refl _, by simp⟩

/-- Once its ticks are all taken, such an entry is left with the end of the clock, although that was none of
them. -/
theorem offers_after_of_endless (hInterval : e.interval = some interval) (hActive : e.isActive = true)
    (hPos : 0 < interval.toInt) (hStop : e.stop = none) (hAll : ∀ t, e.Offers t → t < horizon) :
    (e.after horizon).Offers Int64.maxValue := by
  have hCursor (time : Tick) : ({ e with nextTaskTime := time } : Entry).Offers time :=
    offers_cursor_of_endless hInterval hActive hPos hStop time
  unfold after
  cases hLatest : e.latestBefore horizon with
  | none =>
      have hFirst := le_of_latestBefore_eq_none hLatest (hCursor e.nextTaskTime)
      exact absurd (hAll _ (hCursor e.nextTaskTime)) (Int64.not_lt.mpr hFirst)
  | some last =>
      obtain ⟨hLast, -, hLater⟩ := offers_latestBefore hInterval hLatest
      have hNoRoom : 0x8000000000000000 ≤ last.toInt + interval.toInt := by
        by_contra hRoom
        -- the cursor would stand at another tick
        have hNext : (e.advance last).Offers (last.addClamped interval) := by
          rw [advance_of_recurring hInterval]
          exact hCursor _
        obtain ⟨hOffers, hPast⟩ := (offers_advance_of_room hInterval hLast (by omega)).mp hNext
        exact Int64.not_le.mpr (hAll _ hOffers) (hLater _ hOffers hPast)
      dsimp only
      rw [advance_of_no_room hInterval hNoRoom]
      exact hCursor _

/-! ### The look at the clock -/

theorem isActive_retire (hActive : e.isActive = true) : e.retire.isActive = e.hasRemainingTimes := by
  unfold retire
  split
  · rename_i hLeft
    rw [hActive, hLeft]
  · rename_i hNone
    exact (Bool.eq_false_iff.mpr hNone).symm

/-- A look at the clock leaves a recurring entry active as long as it has ticks left. -/
theorem isActive_of_consume (hInterval : e.interval = some interval) (hActive : e.isActive = true)
    (hHorizon : Tick.succ? now = some horizon) (h : e.consume now = .ok (task, f)) :
    f.isActive = (e.after horizon).hasRemainingTimes := by
  obtain ⟨other, hOther, hCases⟩ := consume_cases h
  obtain rfl := Option.some.inj (hHorizon.symm.trans hOther)
  unfold after
  rcases hCases with ⟨hLatest, -, rfl⟩ | ⟨last, next, hLatest, -, -, rfl⟩
  · rw [hLatest]
    exact isActive_retire hActive
  · rw [hLatest]
    refine isActive_retire (e := e.advance last) ?_
    rw [advance_of_recurring hInterval, hActive]

end Entry

/-- A cursor that is saved over the version that it belongs to is read back. -/
theorem EntryRow.read_withCursor {row : EntryRow} {e f : Entry} (h : row.read = .ok e) (hMoves : e.Moves f) :
    (row.withCursor f).read = .ok f := by
  obtain ⟨hReadable, rfl⟩ := read_eq_ok_iff.mp h
  obtain ⟨time, id, isActive, hOn⟩ := hMoves
  have hVersion : row.withCursor { row.toEntry with nextTaskTime := time, nextTaskId := id, isActive } =
      { row with nextTaskTime := time, nextTaskId := id, activeFlag := flag (row.activeFlag != 0 && isActive) } :=
    if_pos rfl
  rw [hVersion, read_eq_ok_iff]
  refine ⟨hReadable, ?_⟩
  cases isActive with
  | false => simp [toEntry, flag]
  | true =>
      have hFlag : (row.activeFlag != 0) = true := hOn rfl
      simp [toEntry, flag, hFlag]

theorem Store.exists_saveCursor_getEntry {s : Store} {e f : Entry} (h : s.getEntry e.name = .ok e)
    (hMoves : e.Moves f) : ∃ t, s.saveCursor f = .ok t ∧ t.getEntry e.name = .ok f := by
  obtain ⟨row, hRow, hRead⟩ := getEntry_eq_ok_iff.mp h
  have hTable : s.entries.isSome = true := by
    obtain ⟨table, hTable, -⟩ := Option.bind_eq_some_iff.mp hRow
    exact Option.isSome_of_mem hTable
  obtain ⟨t, hSaved, -⟩ := exists_saveCursor hTable f
  have hRewrites := rewrites_of_saveCursor hSaved
  rw [hMoves.name_eq] at hRewrites
  refine ⟨t, hSaved, getEntry_eq_ok_iff.mpr ⟨row.withCursor f, ?_, EntryRow.read_withCursor hRead hMoves⟩⟩
  rw [hRewrites.same, hRow, Option.map_some]

/-! ### Conservation -/

namespace Entry

variable {e : Entry} {interval horizon t : Tick}

/-- What is taken off an entry and what is left of it are what it had, as long as what is left are the ticks
from the horizon on. -/
theorem conserves_of_offers (hInterval : e.interval = some interval) (hActive : e.isActive = true)
    (hLeft : ∀ t, (e.after horizon).Offers t ↔ e.Offers t ∧ horizon ≤ t) : e.Conserves horizon := by
  have hAfter : (e.after horizon).interval = some interval := interval_after.trans hInterval
  have hTaken (t : Tick) : t ∈ (e.remainingTimes (some horizon)).ticks ↔ e.Offers t ∧ t < horizon :=
    mem_remainingTimes (isInReach_of_recurring hInterval)
  have hRest (t : Tick) : t ∈ ((e.after horizon).remainingTimes none).ticks ↔ e.Offers t ∧ horizon ≤ t := by
    rw [mem_remainingTimes_of_recurring hAfter, hLeft]
  have hAppend : (e.remainingTimes (some horizon)).ticks ++ ((e.after horizon).remainingTimes none).ticks =
      (e.remainingTimes none).ticks := by
    -- both sides increase, so they are the same once they have the same ticks
    refine List.Pairwise.eq_of_mem_iff (r := (· < ·)) ?_ (TickRange.pairwise_ticks _) fun t => ?_
    · refine List.pairwise_append.mpr ⟨TickRange.pairwise_ticks _, TickRange.pairwise_ticks _, ?_⟩
      exact fun a ha b hb => Std.lt_of_lt_of_le ((hTaken a).mp ha).2 ((hRest b).mp hb).2
    · rw [List.mem_append, hTaken, hRest, mem_remainingTimes_of_recurring hInterval, ← and_or_left]
      exact and_iff_left_of_imp fun _ => (Int64.lt_or_le t horizon)
  have hUsedUp : (e.after horizon).hasRemainingTimes = false ↔ e.TakesAll horizon := by
    rw [hasRemainingTimes_eq_false_iff hAfter, TakesAll, takeUntil_eq, ← hAppend, List.self_eq_append_right]
  refine ⟨?_, ?_, fun now hHorizon hId => ?_⟩
  · rw [takeUntil_eq]
    exact hAppend
  · rwa [takeUntil_eq]
  · have hNow : now < Int64.maxValue := by
      have hSucc := Tick.succ?_eq_some_iff.mp hHorizon
      have hBounds := Tick.toInt_bounds horizon
      rw [Int64.lt_iff_toInt_lt, Int64.toInt_maxValue]
      omega
    obtain ⟨task, f, hConsume⟩ := exists_consume hNow hId
    refine ⟨task, f, hConsume, ?_, fun s hStored => ?_⟩
    · rw [isActive_of_consume hInterval hActive hHorizon hConsume]
      exact hUsedUp
    · exact Store.exists_saveCursor_getEntry hStored (consumes_of_consume hConsume).moves

/-- Taking ticks off a recurring entry conserves them unless the entry has no stop and all of its ticks are
taken. -/
theorem conserves_iff (hActive : e.isActive = true) (hInterval : e.interval = some interval)
    (hPos : 1 ≤ interval) : e.Conserves horizon ↔
      (∃ stop, e.stop = some stop) ∨ ∃ t ∈ (e.remainingTimes none).ticks, horizon ≤ t := by
  have hMem (t : Tick) : t ∈ (e.remainingTimes none).ticks ↔ e.Offers t :=
    mem_remainingTimes_of_recurring hInterval
  simp only [hMem]
  constructor
  · intro hConserves
    by_contra hNone
    obtain ⟨hStop, hAll⟩ := not_or.mp hNone
    simp only [not_exists, not_and, Int64.not_le] at hStop hAll
    have hPosInt : 0 < interval.toInt := Int64.le_iff_toInt_le.mp hPos
    have hEnd : (e.after horizon).Offers Int64.maxValue :=
      offers_after_of_endless hInterval hActive hPosInt (Option.eq_none_iff_forall_ne_some.mpr hStop) hAll
    have hAppend := hConserves.append_ticks
    rw [takeUntil_eq] at hAppend
    have hOld : Int64.maxValue ∈ (e.remainingTimes none).ticks := by
      rw [← hAppend]
      refine List.mem_append_right _ ?_
      exact (mem_remainingTimes_of_recurring (interval_after.trans hInterval)).mpr hEnd
    exact Int64.not_lt.mpr (Int64.le_maxValue horizon) (hAll _ ((hMem _).mp hOld))
  · intro hLeft
    refine conserves_of_offers hInterval hActive fun t => offers_after_of_left hInterval ?_
    rwa [Option.isSome_iff_exists]

/-- At 1, and once more when the clock ends. -/
def pendulum : Entry :=
  Draft.entryFrom ⟨"pendulum", "beep", none, some 1, none, false, some 0x7ffffffffffffffe, none, none⟩ 1 none "first"

/-- The cursor comes to stand at the end of the clock, where a tick is due. -/
theorem conserves_pendulum : pendulum.Conserves 2 ∧ (pendulum.takeUntil 2).1.ticks = [1] ∧
    ((pendulum.takeUntil 2).2.remainingTimes none).ticks = [Int64.maxValue] :=
  ⟨(conserves_iff rfl rfl (by decide)).mpr (.inr ⟨Int64.maxValue, by decide +kernel, by decide⟩),
    by decide +kernel, by decide +kernel⟩

/-- At 1, and never again before the clock ends. -/
def comet : Entry :=
  Draft.entryFrom ⟨"comet", "beep", none, some 1, none, false, some Int64.maxValue, none, none⟩ 1 none "first"

/-- Its one tick is taken, and yet the entry has a tick left and stays in the schedule. -/
theorem comet_returns : ¬ comet.Conserves 2 ∧ (comet.remainingTimes none).ticks = [1] ∧
    (comet.takeUntil 2).1.ticks = [1] ∧
    ((comet.takeUntil 2).2.remainingTimes none).ticks = [Int64.maxValue] ∧
    ∃ task f, comet.consume 1 = .ok (some task, f) ∧ f.isActive = true := by
  have hBefore : (comet.remainingTimes none).ticks = [1] := by decide +kernel
  have hTaken : (comet.takeUntil 2).1.ticks = [1] := by decide +kernel
  have hRest : ((comet.takeUntil 2).2.remainingTimes none).ticks = [Int64.maxValue] := by decide +kernel
  refine ⟨fun hConserves => ?_, hBefore, hTaken, hRest, _, _, rfl, rfl⟩
  have hAppend := hConserves.append_ticks
  rw [hBefore, hTaken, hRest] at hAppend
  cases hAppend

end Entry

end TickScheduler
