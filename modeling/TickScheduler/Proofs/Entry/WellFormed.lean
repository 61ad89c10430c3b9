import TickScheduler.Proofs.Entry.Consumption
import TickScheduler.Proofs.Entry.Series
/-!
Well-formed entries: what holds of an entry that comes from a draft, and after every operation on it.
Configuration and cursor are written by different operations, so the one thing that ties them together,
that no cursor is before the start, needs some care.
-/
namespace TickScheduler

structure Entry.WellFormed (e : Entry) : Prop where
  /-- The name is not empty, and has no character that would need care in an address. -/
  slug : Draft.isSlug e.name = true
  one_le_interval : ∀ interval, e.interval = some interval → 1 ≤ interval
  start_lt : ∀ stop, e.stop = some stop → e.start < stop
  start_le : e.start ≤ e.nextTaskTime
  one_le_id : 1 ≤ e.nextTaskId

namespace Entry

variable {e f u updated : Entry} {now : Tick} {stamp : String}

/-- Timing that is not refused. -/
theorem one_le_of_checkTiming {start : Tick} {stop interval : Option Tick}
    (h : checkTiming start stop interval = .ok ()) : ∀ i, interval = some i → 1 ≤ i := by
  intro i hInterval
  have hPos := (checkTiming_eq_ok h).1 i hInterval
  exact Int64.le_iff_toInt_le.mpr hPos

/-- The cursor of an updated entry is not before its start. -/
theorem start_le_of_updatedTaskTime {time : Tick} (h : e.updatedTaskTime updated now = .ok time)
    (hStart : e.start ≤ e.nextTaskTime) : updated.start ≤ time := by
  unfold updatedTaskTime earliestTick at h
  split at h
  · rename_i hSame
    obtain rfl := Except.ok.inj h
    exact hSame.1 ▸ hStart
  · cases hNext : Tick.succ? now with
    | none => simp [hNext, Except.map] at h
    | some next =>
        simp only [hNext, Except.map, Except.ok.injEq] at h
        subst h
        change updated.start ≤ if updated.start ≤ next then next else updated.start
        split
        · assumption
        · exact Int64.le_refl _

/-- Whatever the update asks for, once its timing is checked. -/
theorem WellFormed.update (hTiming : checkTiming updated.start updated.stop updated.interval = .ok ())
    (hUpdate : e.applyUpdate updated now stamp = .ok u) (h : e.WellFormed) : u.WellFormed := by
  unfold applyUpdate at hUpdate
  cases hTime : e.updatedTaskTime updated now with
  | error fault =>
      rw [hTime] at hUpdate
      cases hUpdate
  | ok time =>
      rw [hTime] at hUpdate
      obtain rfl := Except.ok.inj hUpdate
      exact ⟨h.slug, one_le_of_checkTiming hTiming, (checkTiming_eq_ok hTiming).2,
        start_le_of_updatedTaskTime hTime h.start_le, h.one_le_id⟩

theorem WellFormed.consume {task : Option Task} (hConsume : e.consume now = .ok (task, f))
    (h : e.WellFormed) : f.WellFormed := by
  have hConsumes := consumes_of_consume hConsume
  have hTime := Int64.le_trans h.start_le (le_nextTaskTime_of_consume hConsume)
  have hId := Int64.le_trans h.one_le_id hConsumes.le_nextTaskId
  obtain ⟨time, id, isActive, -⟩ := hConsumes.moves
  exact ⟨h.slug, h.one_le_interval, h.start_lt, hTime, hId⟩

/-- The counter comes after an id, as it does when ids are restored. -/
theorem WellFormed.restore {last next : TaskId} (hLast : 1 ≤ last) (hNext : Tick.succ? last = some next)
    (h : e.WellFormed) : ({ e with nextTaskId := next } : Entry).WellFormed := by
  have hSucc := Tick.succ?_eq_some_iff.mp hNext
  have hId : 1 ≤ next := by
    rw [Int64.le_iff_toInt_le] at hLast ⊢
    omega
  exact ⟨h.slug, h.one_le_interval, h.start_lt, h.start_le, hId⟩

end Entry

theorem Draft.wellFormed_of_toEntry {d : Draft} {now : Tick} {known : String → Bool} {stamp : String}
    {e : Entry} (h : d.toEntry now known stamp = .ok e) : e.WellFormed := by
  obtain ⟨hSlug, start, stop, hTiming, rfl⟩ := entryFrom_of_toEntry h
  exact ⟨hSlug, Entry.one_le_of_checkTiming hTiming, (Entry.checkTiming_eq_ok hTiming).2,
    Int64.le_refl _, Int64.le_refl _⟩

namespace EntryRow

variable {row : EntryRow} {f u : Entry}

theorem wellFormed_ofEntry (h : f.WellFormed) : (ofEntry f).toEntry.WellFormed := by
  obtain ⟨-, hSame⟩ := read_eq_ok_iff.mp (read_ofEntry f)
  rwa [hSame]

/-- A cursor is saved over the version that it belongs to, or next to nothing is saved. -/
theorem wellFormed_withCursor (hStart : row.modifiedAt = f.modifiedAt → row.start = f.start)
    (hEntry : f.WellFormed) (h : row.toEntry.WellFormed) : (row.withCursor f).toEntry.WellFormed := by
  by_cases hVersion : row.modifiedAt = f.modifiedAt
  · rw [withCursor, if_pos hVersion]
    refine ⟨h.slug, h.one_le_interval, h.start_lt, ?_, hEntry.one_le_id⟩
    change row.start ≤ f.nextTaskTime
    exact hStart hVersion ▸ hEntry.start_le
  · have hId : 1 ≤ (row.withCursor f).nextTaskId :=
      Int64.le_trans h.one_le_id (nextTaskId_le_withCursor hVersion)
    rw [withCursor_of_other hVersion] at hId ⊢
    exact ⟨h.slug, h.one_le_interval, h.start_lt, h.start_le, hId⟩

/-- An update writes start and cursor together, so it does not matter of which version it was made. -/
theorem wellFormed_withUpdate (hEntry : u.WellFormed) (h : row.toEntry.WellFormed) :
    (row.withUpdate u).toEntry.WellFormed :=
  ⟨h.slug, hEntry.one_le_interval, hEntry.start_lt, hEntry.start_le, h.one_le_id⟩

theorem wellFormed_deactivated (stamp : String) (h : row.toEntry.WellFormed) :
    (row.deactivated stamp).toEntry.WellFormed :=
  ⟨h.slug, h.one_le_interval, h.start_lt, h.start_le, h.one_le_id⟩

end EntryRow

end TickScheduler
