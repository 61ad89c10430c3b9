import TickScheduler.Proofs.Results.Retention
/-!
Results that survive being stored. A result that is kept is read back as it was recorded as long as the years
of its start and of its end have four digits; otherwise it is there and counts, but no reader gets past it.
-/
namespace TickScheduler

namespace ResultRow

variable {row : ResultRow} {rows : List ResultRow} {error : Error}

/-- The one thing that can go wrong with a row is that a value of it cannot be read. -/
theorem unreadable_of_read (h : row.read = .error error) :
    ∃ fault, error = .database fault ∧ fault.isUnreadable = true := by
  have hTime {column : TimeColumn} {text : String} (hTime : readTime column text = .error error) :
      ∃ fault, error = .database fault ∧ fault.isUnreadable = true := by
    unfold readTime at hTime
    split at hTime
    · cases hTime
    · cases hTime
      exact ⟨_, rfl, rfl⟩
  unfold read at h
  cases hStarted : readTime .started row.started with
  | error fault =>
      rw [hStarted] at h
      cases h
      exact hTime hStarted
  | ok started =>
      rw [hStarted] at h
      cases hFinished : readTime .finished row.finished with
      | error fault =>
          simp only [hFinished, bind, Except.bind] at h
          cases h
          exact hTime hFinished
      | ok finished =>
          simp only [hFinished, bind, Except.bind, readStatus] at h
          split at h
          · rename_i hStatus
            split at hStatus
            · cases hStatus
            · cases hStatus
              cases h
              exact ⟨_, rfl, rfl⟩
          · cases h

/-- Nothing is listed if one of the rows cannot be read. -/
theorem mapM_read_of_unreadable (hRow : row ∈ rows) (h : row.read = .error error) :
    ∃ fault, rows.mapM read = .error (.database fault) ∧ fault.isUnreadable = true := by
  induction rows with
  | nil => cases hRow
  | cons head rest ih =>
      rw [List.mapM_cons]
      cases hHead : head.read with
      | error other =>
          obtain ⟨fault, rfl, hFault⟩ := unreadable_of_read hHead
          exact ⟨fault, rfl, hFault⟩
      | ok result =>
          rcases List.mem_cons.mp hRow with rfl | hRest
          · rw [h] at hHead
            cases hHead
          · obtain ⟨fault, hRead, hFault⟩ := ih hRest
            exact ⟨fault, by rw [hRead]; rfl, hFault⟩

end ResultRow

namespace Store

variable {s t : Store} {r : TaskResult} {keep : Nat} {name : String} {id : TaskId} {row : ResultRow}

/-- What can be read of a result that is stored. -/
structure ReadsBack (t : Store) (r : TaskResult) : Prop where
  survives_iff : t.getResult r.entryName r.taskId = .ok (some r) ↔
    r.started.HasPlainYear ∧ r.finished.HasPlainYear
  /-- The start is looked at first, -/
  started_lost : ¬ r.started.HasPlainYear → ∃ column, column.index = 2 ∧
    t.getResult r.entryName r.taskId = .error (.database (.time column .invalid))
  /-- and then the end. -/
  finished_lost : r.started.HasPlainYear → ¬ r.finished.HasPlainYear → ∃ column, column.index = 3 ∧
    t.getResult r.entryName r.taskId = .error (.database (.time column .invalid))
  /-- No listing that comes to a lost result returns any. -/
  unlisted : ¬ (r.started.HasPlainYear ∧ r.finished.HasPlainYear) → ∀ limit,
    r.taskId ∈ largest limit (t.resultIds r.entryName) →
      ∃ fault, t.listResults r.entryName limit = .error (.database fault) ∧ fault.isUnreadable = true

/-- A result that is kept is the one that was recorded. -/
theorem result?_of_retained (h : s.recordResult r keep = .ok t) (hRetained : t.HasResult r.entryName r.taskId) :
    t.result? ⟨r.entryName, r.taskId⟩ = some (.ofResult r) := by
  obtain ⟨row, hRow⟩ := Option.isSome_iff_exists.mp hRetained
  rcases (records_of_recordResult h).source _ row hRow with ⟨-, rfl⟩ | ⟨hOther, -⟩
  · exact hRow
  · exact absurd rfl hOther

theorem getResult_of_result? (h : t.result? ⟨name, id⟩ = some row) :
    t.getResult name id = some <$> row.read := by
  obtain ⟨table, hTable, hFound⟩ := Option.bind_eq_some_iff.mp h
  simp only [getResult, resultTable_eq_ok_iff.mpr hTable, bind, Except.bind, hFound]

/-- A listing that comes to a row that cannot be read fails. -/
theorem listResults_of_unreadable {error : Error} {limit : Nat} (h : t.result? ⟨name, id⟩ = some row)
    (hRead : row.read = .error error) (hLimit : id ∈ largest limit (t.resultIds name)) :
    ∃ fault, t.listResults name limit = .error (.database fault) ∧ fault.isUnreadable = true := by
  obtain ⟨table, hTable, hFound⟩ := Option.bind_eq_some_iff.mp h
  obtain ⟨hRow, hKey⟩ := find?_eq_some_iff_mem_resultsOf.mp hFound
  have hListed : row ∈ limitRows limit (resultsOf table name) := by
    rw [resultIds_of_table hTable] at hLimit
    rw [ResultRow.mem_limitRows_iff pairwise_resultsOf, hKey]
    exact ⟨hRow, hLimit⟩
  obtain ⟨fault, hFails, hFault⟩ := ResultRow.mapM_read_of_unreadable hListed hRead
  refine ⟨fault, ?_, hFault⟩
  rw [listResults, resultTable_eq_ok_iff.mpr hTable]
  exact hFails

/-- An errand that took from 1970 to some later point in time. -/
def longErrand (finished : Timestamp) : TaskResult :=
  (errand 1).finish finished .success "done"

/-- Half way through the leap second at the end of 2016. -/
def leapSecond : Timestamp :=
  ⟨1483228799, 1500000000, .inr (by decide)⟩

/-- A nanosecond into the year 10000. -/
def farOff : Timestamp :=
  ⟨253402300800, 1, .inl (by decide)⟩

end Store

end TickScheduler
