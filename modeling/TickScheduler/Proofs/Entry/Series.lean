import TickScheduler.Entry.Draft
import TickScheduler.Proofs.Entry.Offers
import TickScheduler.Proofs.Store.Rows
/-!
The series of an entry: the ticks that its configuration asks for, whatever its cursor says. An entry
that comes from a draft offers them all.
-/
namespace TickScheduler

namespace Entry

/-- The ticks of the series: `start`, and in steps of the interval those after it, before `stop`. -/
def HasTick (e : Entry) (t : Tick) : Prop :=
  (∀ stop, e.stop = some stop → t < stop) ∧
    match e.interval with
    | some interval => ∃ j : Nat, t.toInt = e.start.toInt + j * interval.toInt
    | none => t = e.start

/-- An entry of which nothing was consumed yet, and with sound timing. -/
structure IsFresh (e : Entry) : Prop where
  isActive : e.isActive = true
  nextTaskTime_eq : e.nextTaskTime = e.start
  nextTaskId_eq : e.nextTaskId = 1
  interval_pos : ∀ interval, e.interval = some interval → 0 < interval.toInt
  start_lt : ∀ stop, e.stop = some stop → e.start < stop

variable {e : Entry} {t : Tick}

/-- Steps from the start can be counted. -/
private theorem exists_steps_iff (start n : Int) {step : Int} (hStep : 0 < step) :
    (∃ j : Nat, n = start + j * step) ↔ start ≤ n ∧ step ∣ n - start := by
  constructor
  · rintro ⟨j, rfl⟩
    have hSteps : 0 ≤ j * step := Int.mul_nonneg (Int.natCast_nonneg j) (Int.le_of_lt hStep)
    refine ⟨by omega, j, ?_⟩
    rw [Int.mul_comm step j]
    omega
  · rintro ⟨hLow, k, hk⟩
    have hCount : 0 ≤ k := by
      refine Int.not_lt.mp fun hNeg => ?_
      have hBelow := Int.mul_neg_of_pos_of_neg hStep hNeg
      omega
    obtain ⟨j, rfl⟩ := Int.eq_ofNat_of_zero_le hCount
    refine ⟨j, ?_⟩
    rw [Int.mul_comm j step]
    omega

theorem IsFresh.offers_iff (h : e.IsFresh) : e.Offers t ↔ e.HasTick t := by
  rw [Offers, HasTick, h.nextTaskTime_eq, h.isActive]
  cases hInterval : e.interval with
  | none => simp
  | some interval =>
      have hPos := h.interval_pos interval hInterval
      have hSteps := exists_steps_iff e.start.toInt t.toInt hPos
      simp only [hSteps, Int64.le_iff_toInt_le, hPos, true_and]

theorem IsFresh.hasTick_start (h : e.IsFresh) : e.HasTick e.start := by
  refine ⟨h.start_lt, ?_⟩
  cases e.interval with
  | none => rfl
  | some interval => exact ⟨0, by omega⟩

theorem IsFresh.nextTaskId_lt (h : e.IsFresh) : e.nextTaskId < Int64.maxValue := by
  rw [h.nextTaskId_eq]
  decide

/-- Timing that is not refused: the interval is positive, and the stop comes after the start. -/
theorem checkTiming_eq_ok {start : Tick} {stop interval : Option Tick}
    (h : checkTiming start stop interval = .ok ()) :
    (∀ i, interval = some i → 0 < i.toInt) ∧ ∀ s, stop = some s → start < s := by
  unfold checkTiming at h
  split at h
  · cases h
  · cases h
  · rename_i hInterval hStop
    rw [Option.filter_eq_none_iff] at hInterval hStop
    constructor
    · intro i hi
      have hSmall := hInterval i hi
      simp only [decide_eq_true_eq] at hSmall
      omega
    · intro s hs
      have hEarly := hStop s hs
      rw [decide_eq_true_eq] at hEarly
      exact Int64.not_le.mp hEarly

end Entry

namespace Draft

variable {d : Draft} {now : Tick} {known : String → Bool} {stamp : String} {e : Entry}

/-- The checks that a draft has passed once it is an entry. -/
theorem entryFrom_of_toEntry (h : d.toEntry now known stamp = .ok e) : isSlug d.name = true ∧
    ∃ start stop, Entry.checkTiming start stop d.interval = .ok () ∧ e = d.entryFrom start stop stamp := by
  unfold toEntry at h
  split at h
  · cases h
  rename_i hSlug
  split at h
  · cases h
  cases hStart : d.startTick now with
  | error fault => simp [hStart, bind, Except.bind] at h
  | ok start =>
      cases hStop : d.stopTick start with
      | error fault => simp [hStart, hStop, bind, Except.bind] at h
      | ok stop =>
          cases hTiming : Entry.checkTiming start stop d.interval with
          | error fault => simp [hStart, hStop, hTiming, bind, Except.bind] at h
          | ok =>
              simp only [hStart, hStop, hTiming, bind, Except.bind, pure, Except.pure,
                Except.ok.injEq] at h
              exact ⟨by simpa using hSlug, start, stop, hTiming, h.symm⟩

theorem isFresh_of_toEntry (h : d.toEntry now known stamp = .ok e) : e.IsFresh := by
  obtain ⟨-, start, stop, hTiming, rfl⟩ := entryFrom_of_toEntry h
  obtain ⟨hInterval, hOpen⟩ := Entry.checkTiming_eq_ok hTiming
  exact ⟨rfl, rfl, rfl, hInterval, hOpen⟩

end Draft

/-- Fresh entries pass the check of their timing. -/
theorem Entry.IsFresh.checkTiming_eq_ok {e : Entry} (h : e.IsFresh) {stop : Option Tick}
    (hStop : ∀ s, stop = some s → e.start < s) : Entry.checkTiming e.start stop e.interval = .ok () := by
  have hInterval : e.interval.filter (·.toInt < 1) = none := by
    rw [Option.filter_eq_none_iff]
    intro interval hi
    have hPos := h.interval_pos interval hi
    simp only [decide_eq_true_eq]
    omega
  have hEnd : stop.filter (· ≤ e.start) = none := by
    rw [Option.filter_eq_none_iff]
    intro s hs
    rw [decide_eq_true_eq, Int64.not_le]
    exact hStop s hs
  rw [Entry.checkTiming, hInterval, hEnd]

/-- A store of fresh entries. -/
structure Store.Stocks (s : Store) (entries : List Entry) : Prop where
  fresh : ∀ e ∈ entries, e.IsFresh
  tables : s.entries.isSome = true ∧ s.results.isSome = true
  row?_eq : ∀ e ∈ entries, s.row? e.name = some (.ofEntry e)
  source : ∀ name row, s.row? name = some row → ∃ e ∈ entries, e.name = name ∧ row = .ofEntry e

/-- Drafts make a store of fresh entries. -/
theorem Store.stocks_of_drafts {s : Store} {entries : List Entry}
    (hDrafts : ∀ e ∈ entries, ∃ draft now known stamp, Draft.toEntry draft now known stamp = .ok e)
    (h : entries.foldlM Store.insertEntry .empty = .ok s) : s.Stocks entries := by
  obtain ⟨-, hStored, hSource⟩ := rows_of_insertEntries h
  obtain ⟨hEntries, hResults⟩ := tables_of_insertEntries h rfl
  refine ⟨fun e hEntry => ?_, ⟨hEntries, hResults ▸ rfl⟩, hStored, fun name row hRow => ?_⟩
  · obtain ⟨draft, now, known, stamp, hDraft⟩ := hDrafts e hEntry
    exact Draft.isFresh_of_toEntry hDraft
  · rcases hSource name row hRow with hNone | ⟨e, hEntry, rfl⟩
    · cases hNone
    · exact ⟨e, hEntry, rfl, Option.some.inj (hRow.symm.trans (hStored e hEntry))⟩

end TickScheduler
