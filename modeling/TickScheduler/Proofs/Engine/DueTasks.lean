import TickScheduler.Proofs.Entry.Consumption
import TickScheduler.Proofs.Entry.Series
import TickScheduler.Proofs.Store.Rows
/-!
What a pass makes of the rows that it finds, if nobody disturbs it: the tasks that are due and the rows
that are left are functions of the rows and of the clock.
-/
namespace TickScheduler

/-- The task that a look at the clock makes of an entry, if it can. -/
def Entry.dueTask (e : Entry) (now : Tick) : Option Task :=
  match e.consume now with
  | .ok (task, _) => task
  | .error _ => none

/-- What a look at the clock leaves of an entry. -/
def Entry.settled (e : Entry) (now : Tick) : Entry :=
  match e.consume now with
  | .ok (_, f) => f
  | .error _ => e

theorem Entry.consume_eq_ok {e : Entry} {now : Tick} (hNow : now < Int64.maxValue)
    (hId : e.nextTaskId < Int64.maxValue) : e.consume now = .ok (e.dueTask now, e.settled now) := by
  obtain ⟨task, f, h⟩ := e.exists_consume hNow hId
  rw [dueTask, settled, h]

/-- A look at the clock does not fail: the clock goes on, and if anything is due there is an id for it. -/
def Entry.Yields (e : Entry) (now : Tick) : Prop :=
  e.consume now = .ok (e.dueTask now, e.settled now)

theorem Entry.Yields.consumes {e : Entry} {now : Tick} (h : e.Yields now) :
    e.Consumes now (e.dueTask now) (e.settled now) :=
  consumes_of_consume h

theorem Entry.consumes_settled {e : Entry} {now : Tick} (hNow : now < Int64.maxValue)
    (hId : e.nextTaskId < Int64.maxValue) : e.Consumes now (e.dueTask now) (e.settled now) :=
  consumes_of_consume (consume_eq_ok hNow hId)

/-- The tick of a due task is the latest that is not too late. -/
theorem Entry.time_dueTask {e : Entry} {now horizon : Tick} (hHorizon : Tick.succ? now = some horizon)
    (hId : e.nextTaskId < Int64.maxValue) : (e.dueTask now).map Task.time = e.latestBefore horizon := by
  obtain ⟨next, hNext⟩ := exists_succ hId
  rw [dueTask, consume_eq hHorizon, hNext]
  cases e.latestBefore horizon with
  | none => rfl
  | some last => rfl

theorem Entry.consumes_of_dueTask {e : Entry} {now : Tick} {τ : Task} (h : e.dueTask now = some τ) :
    e.Consumes now (some τ) (e.settled now) := by
  unfold dueTask at h
  unfold settled
  cases hConsume : e.consume now with
  | error fault =>
      rw [hConsume] at h
      cases h
  | ok outcome =>
      rw [hConsume] at h
      obtain ⟨task, f⟩ := outcome
      obtain rfl : task = some τ := h
      exact consumes_of_consume hConsume

theorem Entry.entryName_of_dueTask {e : Entry} {now : Tick} {τ : Task} (h : e.dueTask now = some τ) :
    τ.entryName = e.name :=
  ((consumes_of_dueTask h).takes τ rfl).entryName_eq

theorem Entry.moves_settled (e : Entry) (now : Tick) : e.Moves (e.settled now) := by
  unfold settled
  split
  · rename_i hConsume
    exact (consumes_of_consume hConsume).moves
  · exact .refl e

theorem Entry.names_settled (entries : List Entry) (now : Tick) :
    (entries.map (·.settled now)).map Entry.name = entries.map Entry.name := by
  rw [List.map_map]
  exact List.map_congr_left fun e _ => (e.moves_settled now).name_eq

/-- A look at the clock takes at most one id. -/
theorem Entry.nextTaskId_settled {e : Entry} {now : Tick} (hNow : now < Int64.maxValue)
    (hId : e.nextTaskId < Int64.maxValue) :
    (e.settled now).nextTaskId.toInt ≤ e.nextTaskId.toInt + 1 := by
  have hConsumes := consumes_settled hNow hId
  cases hDue : e.dueTask now with
  | none =>
      rw [(hConsumes.idle hDue).2.1]
      omega
  | some τ => exact Int.le_of_eq (hConsumes.takes τ hDue).id_succ

/-- An entry that runs once keeps its tick. That it is gone shows in its state alone. -/
theorem Entry.nextTaskTime_settled {e : Entry} (hOnce : e.interval = none) (now : Tick) :
    (e.settled now).nextTaskTime = e.nextTaskTime := by
  unfold settled
  cases hNow : Tick.succ? now with
  | none => simp only [consume, takePending, hNow, bind, Except.bind]
  | some horizon =>
      rw [consume_eq hNow]
      cases e.latestBefore horizon with
      | none => exact nextTaskTime_retire e
      | some last =>
          cases Tick.succ? e.nextTaskId with
          | none => rfl
          | some next =>
              change (e.advance last).retire.nextTaskTime = e.nextTaskTime
              rw [nextTaskTime_retire, advance, hOnce]

/-- The tick of a due task depends on nothing but the series that is left. -/
theorem Entry.time_dueTask_congr {e f : Entry} {now : Tick} (hNow : now < Int64.maxValue)
    (heId : e.nextTaskId < Int64.maxValue) (hfId : f.nextTaskId < Int64.maxValue)
    (hActive : f.isActive = e.isActive) (hStop : f.stop = e.stop) (hInterval : f.interval = e.interval)
    (hNext : f.nextTaskTime = e.nextTaskTime) :
    (f.dueTask now).map Task.time = (e.dueTask now).map Task.time := by
  obtain ⟨horizon, hHorizon⟩ := exists_succ hNow
  have hLatest : f.latestBefore horizon = e.latestBefore horizon := by
    simp only [latestBefore, remainingTimes, hActive, hStop, hInterval, hNext]
  rw [time_dueTask hHorizon heId, time_dueTask hHorizon hfId, hLatest]

/-- An entry that takes no part gives nothing and stays as it is. -/
theorem Entry.rests {e : Entry} (hIdle : e.isActive = false) (now : Tick) :
    e.dueTask now = none ∧ e.settled now = e := by
  unfold dueTask settled
  cases hConsume : e.consume now with
  | error fault => exact ⟨rfl, rfl⟩
  | ok outcome =>
      obtain ⟨task, f⟩ := outcome
      have hConsumes := consumes_of_consume hConsume
      have hNone : task = none := by
        cases task with
        | none => rfl
        | some τ =>
            have hActive := (hConsumes.takes τ rfl).isActive
            rw [hIdle] at hActive
            cases hActive
      refine ⟨hNone, ?_⟩
      obtain ⟨hTime, hId, -⟩ := hConsumes.idle hNone
      cases hConsumes.moves with
      | mk nextTaskTime nextTaskId isActive hOn =>
          have hOff : isActive = e.isActive := by
            rw [hIdle] at hOn ⊢
            exact Bool.eq_false_iff.mpr fun h => Bool.false_ne_true (hOn h)
          obtain rfl : nextTaskTime = e.nextTaskTime := hTime
          obtain rfl : nextTaskId = e.nextTaskId := hId
          subst hOff
          rfl

namespace EntryRow

/-- The row that a pass leaves of this one. -/
def settle (row : EntryRow) (now : Tick) : EntryRow :=
  if row.activeFlag = 1 then row.withCursor (row.toEntry.settled now) else row

/-- The task that a pass makes of this row. -/
def due (row : EntryRow) (now : Tick) : Option Task :=
  if row.activeFlag = 1 then row.toEntry.dueTask now else none

def IsReadable (row : EntryRow) : Prop := row.read = .ok row.toEntry

theorem isReadable_iff {row : EntryRow} :
    row.IsReadable ↔ row.priority.toInt32.toInt64 = row.priority := by
  rw [IsReadable, read_eq_ok_iff, and_iff_left rfl]

theorem IsReadable.withCursor {row : EntryRow} (h : row.IsReadable) (f : Entry) :
    (row.withCursor f).IsReadable := by
  rw [isReadable_iff] at h ⊢
  unfold EntryRow.withCursor
  split <;> exact h

theorem toEntry_ofEntry (e : Entry) : (ofEntry e).toEntry = e :=
  (read_eq_ok_iff.mp (read_ofEntry e)).2

theorem isReadable_ofEntry (e : Entry) : (ofEntry e).IsReadable := by
  rw [IsReadable, toEntry_ofEntry, read_ofEntry]

theorem activeFlag_ofEntry (e : Entry) : (ofEntry e).activeFlag = 1 ↔ e.isActive = true := by
  cases hActive : e.isActive <;> simp [ofEntry, flag, hActive]

theorem due_ofEntry (e : Entry) (now : Tick) : (ofEntry e).due now = e.dueTask now := by
  rw [due, toEntry_ofEntry]
  simp only [activeFlag_ofEntry]
  split
  · rfl
  · rename_i hIdle
    exact (Entry.rests (Bool.eq_false_iff.mpr hIdle) now).1.symm

theorem withCursor_ofEntry {e f : Entry} (h : e.Moves f) (hActive : e.isActive = true) :
    (ofEntry e).withCursor f = ofEntry f := by
  cases h with
  | mk nextTaskTime nextTaskId isActive hOn => simp [withCursor, ofEntry, flag, hActive]

theorem settle_ofEntry (e : Entry) (now : Tick) : (ofEntry e).settle now = ofEntry (e.settled now) := by
  rw [settle, toEntry_ofEntry]
  simp only [activeFlag_ofEntry]
  split
  · rename_i hActive
    exact withCursor_ofEntry (e.moves_settled now) hActive
  · rename_i hIdle
    rw [(Entry.rests (Bool.eq_false_iff.mpr hIdle) now).2]

theorem nextTaskId_withCursor_lt {row : EntryRow} {f : Entry} {bound : Int}
    (hRow : row.nextTaskId.toInt < bound) (h : f.nextTaskId.toInt < bound) :
    (row.withCursor f).nextTaskId.toInt < bound := by
  unfold withCursor
  split
  · exact h
  · change (if row.nextTaskId ≤ f.nextTaskId then f.nextTaskId else row.nextTaskId).toInt < bound
    split
    · exact h
    · exact hRow

theorem entryName_of_due {row : EntryRow} {now : Tick} {τ : Task} (h : row.due now = some τ) :
    τ.entryName = row.name := by
  unfold due at h
  split at h
  · exact Entry.entryName_of_dueTask h
  · cases h

/-- A row with the series that an entry has left is due with that entry. -/
theorem exists_due {row : EntryRow} {e : Entry} {now : Tick} {τ : Task} (hNow : now < Int64.maxValue)
    (hEntryId : e.nextTaskId < Int64.maxValue) (hRowId : row.nextTaskId < Int64.maxValue)
    (hFlag : row.activeFlag = 1) (hStop : row.stop = e.stop) (hInterval : row.interval = e.interval)
    (hNext : row.nextTaskTime = e.nextTaskTime) (hDue : e.dueTask now = some τ) :
    ∃ σ, row.due now = some σ ∧ σ.time = τ.time := by
  have hActive : row.toEntry.isActive = e.isActive := by
    rw [((Entry.consumes_of_dueTask hDue).takes τ rfl).isActive]
    simp [toEntry, hFlag]
  have hTime := Entry.time_dueTask_congr (f := row.toEntry) hNow hEntryId hRowId hActive hStop
    hInterval hNext
  rw [hDue, Option.map_some, Option.map_eq_some_iff] at hTime
  rwa [due, if_pos hFlag]

theorem isReadable_withUpdate (row : EntryRow) (f : Entry) : (row.withUpdate f).IsReadable :=
  isReadable_iff.mpr (congrArg Int32.toInt64 (Int32.toInt32_toInt64 f.priority))

theorem modifiedAt_withCursor (row : EntryRow) (f : Entry) :
    (row.withCursor f).modifiedAt = row.modifiedAt := by
  unfold EntryRow.withCursor
  split <;> rfl

end EntryRow

namespace Scene

/-- Entries by name, as far as they are stored. -/
abbrev Rows : Type := String → Option EntryRow

/-- The rows after the cursor of an entry was saved. -/
def Rows.save (rows : Rows) (f : Entry) : Rows := fun name =>
  if name = f.name then (rows name).map (·.withCursor f) else rows name

theorem Rows.foldl_save_of_notMem {entries : List Entry} {rows : Rows} {name : String}
    (h : ∀ e ∈ entries, e.name ≠ name) : entries.foldl Rows.save rows name = rows name := by
  induction entries generalizing rows with
  | nil => rfl
  | cons e rest ih =>
      rw [List.foldl_cons, ih fun other hOther => h other (List.mem_cons_of_mem e hOther), save,
        if_neg (h e List.mem_cons_self).symm]

/-- Among entries of different names, each is saved in its own row. -/
theorem Rows.foldl_save_of_mem {entries : List Entry} (rows : Rows) {e : Entry}
    (hNodup : (entries.map Entry.name).Nodup) (h : e ∈ entries) :
    entries.foldl Rows.save rows e.name = (rows e.name).map (·.withCursor e) := by
  induction entries generalizing rows with
  | nil => cases h
  | cons first rest ih =>
      obtain ⟨hFirst, hRest⟩ := List.nodup_cons.mp hNodup
      rw [List.foldl_cons]
      rcases List.mem_cons.mp h with rfl | h
      · have hOthers : ∀ other ∈ rest, other.name ≠ e.name := fun other hOther same =>
          hFirst (same ▸ List.mem_map_of_mem hOther)
        rw [foldl_save_of_notMem hOthers, save, if_pos rfl]
      · have hOther : e.name ≠ first.name := fun same => hFirst (same ▸ List.mem_map_of_mem h)
        rw [ih _ hRest h, save, if_neg hOther]

theorem Rows.foldl_save_readable {entries : List Entry} {rows : Rows} {name : String}
    (h : ∃ row, rows name = some row ∧ row.IsReadable) :
    ∃ row, entries.foldl Rows.save rows name = some row ∧ row.IsReadable := by
  induction entries generalizing rows with
  | nil => exact h
  | cons e rest ih =>
      refine ih ?_
      obtain ⟨row, hRow, hRead⟩ := h
      rw [save, hRow]
      split
      · exact ⟨_, rfl, hRead.withCursor e⟩
      · exact ⟨row, rfl, hRead⟩

/-- Entries that were read from the stored versions. -/
def Rows.Match (rows : Rows) (entries : List Entry) : Prop :=
  ∀ e ∈ entries, ∀ row, rows e.name = some row → row.modifiedAt = e.modifiedAt

namespace Rows.Match

variable {rows : Rows} {entries : List Entry} {e : Entry}

theorem tail (h : rows.Match (e :: entries)) : rows.Match entries :=
  fun other hOther => h other (List.mem_cons_of_mem e hOther)

theorem save (h : rows.Match entries) (f : Entry) : (rows.save f).Match entries := by
  intro e hEntry row hRow
  unfold Rows.save at hRow
  split at hRow
  · obtain ⟨old, hOld, rfl⟩ := Option.map_eq_some_iff.mp hRow
    rw [EntryRow.modifiedAt_withCursor]
    exact h e hEntry old hOld
  · exact h e hEntry row hRow

end Rows.Match

variable {rows : Rows} {clock : Tick}

/-- The tasks of a pass: each that is due, none for two entries, in order. -/
structure RunsDue (rows : Rows) (now : Tick) (tasks : List Task) : Prop where
  sorted : tasks.Pairwise (· ≤ ·)
  nodup : (tasks.map Task.entryName).Nodup
  mem_iff : ∀ τ, τ ∈ tasks ↔ ∃ row, rows τ.entryName = some row ∧ row.due now = some τ

/-- Each entry has at most the one task that is due of its row. -/
theorem RunsDue.filter_eq {now : Tick} {tasks : List Task} {name : String} {row : EntryRow}
    (h : RunsDue rows now tasks) (hRow : rows name = some row)
    (hName : ∀ τ, row.due now = some τ → τ.entryName = name) :
    tasks.filter (·.entryName == name) = (row.due now).toList := by
  have hMem (τ : Task) : τ ∈ tasks.filter (·.entryName == name) ↔ row.due now = some τ := by
    rw [List.mem_filter, h.mem_iff, beq_iff_eq]
    constructor
    · rintro ⟨⟨other, hOther, hDue⟩, rfl⟩
      obtain rfl := Option.some.inj (hOther.symm.trans hRow)
      exact hDue
    · intro hDue
      exact ⟨⟨row, (hName τ hDue).symm ▸ hRow, hDue⟩, hName τ hDue⟩
  have hNodup : ((tasks.filter (·.entryName == name)).map Task.entryName).Nodup :=
    h.nodup.sublist (List.filter_sublist.map _)
  generalize tasks.filter (·.entryName == name) = found at hMem hNodup
  match found with
  | [] =>
      cases hDue : row.due now with
      | none => rfl
      | some τ => exact absurd ((hMem τ).mpr hDue) List.not_mem_nil
  | [τ] => rw [(hMem τ).mp List.mem_cons_self, Option.toList_some]
  | a :: b :: rest =>
      have ha := (hMem a).mp List.mem_cons_self
      have hb := (hMem b).mp (List.mem_cons_of_mem a List.mem_cons_self)
      obtain rfl := Option.some.inj (ha.symm.trans hb)
      exact absurd List.mem_cons_self (List.nodup_cons.mp hNodup).1

/-- The queue of what is due of some entries. -/
def dueTasks (entries : List Entry) (now : Tick) : List Task :=
  (TaskQueue.ofList (entries.flatMap fun e => (e.dueTask now).toList)).toList

theorem mem_dueTasks {entries : List Entry} {now : Tick} {τ : Task} :
    τ ∈ dueTasks entries now ↔ ∃ e ∈ entries, e.dueTask now = some τ := by
  rw [dueTasks, TaskQueue.mem_ofList, List.mem_flatMap]
  simp only [Option.mem_toList]

theorem names_dueTasks {entries : List Entry} (hNodup : (entries.map Entry.name).Nodup) :
    ((dueTasks entries clock).map Task.entryName).Nodup := by
  have hPerm : (dueTasks entries clock).Perm (entries.flatMap fun e => (e.dueTask clock).toList) :=
    TaskQueue.perm_ofList _
  rw [(hPerm.map _).nodup_iff]
  refine List.Nodup.sublist ?_ hNodup
  clear hPerm hNodup
  induction entries with
  | nil => exact List.Sublist.refl _
  | cons e rest ih =>
      rw [List.flatMap_cons, List.map_append, List.map_cons]
      cases hTask : e.dueTask clock with
      | none => exact ih.cons _
      | some τ =>
          rw [Option.toList_some, List.map_cons, Entry.entryName_of_dueTask hTask]
          exact ih.cons_cons _

/-- Rows that can be read, their ids below a bound. -/
def Rows.Below (bound : Int) (rows : Rows) : Prop :=
  ∀ name row, rows name = some row → row.IsReadable ∧ row.nextTaskId.toInt < bound

/-- What a pass needs of the rows to come to its end. -/
def Rows.IsOpen (rows : Rows) : Prop :=
  rows.Below Int64.maxValue.toInt

/-- What a pass needs of the active rows to come to its end. -/
def Rows.Yields (rows : Rows) (now : Tick) : Prop :=
  ∀ name row, rows name = some row → row.activeFlag = 1 → row.IsReadable ∧ row.toEntry.Yields now

theorem Rows.IsOpen.yields (hNow : clock < Int64.maxValue) (h : rows.IsOpen) : rows.Yields clock :=
  fun name row hRow _ => ⟨(h name row hRow).1,
    Entry.consume_eq_ok hNow (Int64.lt_iff_toInt_lt.mpr (h name row hRow).2)⟩

namespace Rows.Below

variable {bound : Int} {entries : List Entry} {f : Entry}

theorem mono {other : Int} (hBound : bound ≤ other) (h : rows.Below bound) : rows.Below other :=
  fun name row hRow => (h name row hRow).imp_right fun hId => Int.lt_of_lt_of_le hId hBound

theorem save (hId : f.nextTaskId.toInt < bound) (h : rows.Below bound) : (rows.save f).Below bound := by
  intro name row hRow
  unfold Rows.save at hRow
  split at hRow
  · obtain ⟨old, hOld, rfl⟩ := Option.map_eq_some_iff.mp hRow
    obtain ⟨hRead, hOldId⟩ := h name old hOld
    exact ⟨hRead.withCursor f, EntryRow.nextTaskId_withCursor_lt hOldId hId⟩
  · exact h name row hRow

theorem of_writeUpdate {s t : Store} {name : String} (hRewrites : s.Rewrites name (·.withUpdate f) t)
    (h : Rows.Below bound s.row?) : Rows.Below bound t.row? := by
  intro name row hRow
  rcases hRewrites.source hRow with ⟨-, hRow⟩ | ⟨-, old, hOld, rfl⟩
  · exact h name row hRow
  · exact ⟨EntryRow.isReadable_withUpdate old f, (h _ old hOld).2⟩

theorem foldl_save (hIds : ∀ f ∈ entries, f.nextTaskId.toInt < bound) (h : rows.Below bound) :
    (entries.foldl Rows.save rows).Below bound := by
  induction entries generalizing rows with
  | nil => exact h
  | cons f rest ih =>
      exact ih (fun other hOther => hIds other (List.mem_cons_of_mem f hOther))
        (h.save (hIds f List.mem_cons_self))

/-- A pass hands out at most one id of each row. -/
theorem settle (hNow : clock < Int64.maxValue) (hBound : bound ≤ Int64.maxValue.toInt)
    (h : rows.Below bound) :
    Rows.Below (bound + 1) fun name => (rows name).map (·.settle clock) := by
  intro name row hRow
  obtain ⟨old, hOld, rfl⟩ := Option.map_eq_some_iff.mp hRow
  obtain ⟨hRead, hId⟩ := h name old hOld
  unfold EntryRow.settle
  split
  · have hLeft : old.toEntry.nextTaskId < Int64.maxValue :=
      Int64.lt_iff_toInt_lt.mpr (Int.lt_of_lt_of_le hId hBound)
    have hSettled := Entry.nextTaskId_settled hNow hLeft
    refine ⟨hRead.withCursor _, EntryRow.nextTaskId_withCursor_lt (by omega) ?_⟩
    exact Int.lt_of_le_of_lt hSettled (Int.add_lt_add_right hId 1)
  · exact ⟨hRead, by omega⟩

end Rows.Below

/-- A snapshot of all active rows. -/
structure Lists (rows : Rows) (entries : List Entry) : Prop where
  nodup : (entries.map Entry.name).Nodup
  mem_iff : ∀ e, e ∈ entries ↔ ∃ row, rows e.name = some row ∧ row.activeFlag = 1 ∧ row.toEntry = e

namespace Lists

variable {entries : List Entry}

/-- What a snapshot comes to is saved in the rows that it was made of, whatever they are by then. -/
theorem foldl_save_of_mem (h : Lists rows entries) (now : Tick) (others : Rows) {e : Entry}
    (hEntry : e ∈ entries) : (entries.map (·.settled now)).foldl Rows.save others e.name =
      (others e.name).map (·.withCursor (e.settled now)) := by
  have hSaved := Rows.foldl_save_of_mem others (Entry.names_settled entries now ▸ h.nodup)
    (List.mem_map_of_mem (f := (·.settled now)) hEntry)
  rwa [(e.moves_settled now).name_eq] at hSaved

theorem foldl_save (h : Lists rows entries) (hName : ∀ name row, rows name = some row → row.name = name) :
    (entries.map (·.settled clock)).foldl Rows.save rows =
      fun name => (rows name).map (·.settle clock) := by
  have hSettled (e : Entry) : (e.settled clock).name = e.name := (e.moves_settled clock).name_eq
  funext name
  cases hRow : rows name with
  | none =>
      rw [Rows.foldl_save_of_notMem, hRow, Option.map_none]
      intro f hf same
      obtain ⟨e, hEntry, rfl⟩ := List.mem_map.mp hf
      obtain ⟨row, hFound, -⟩ := (h.mem_iff e).mp hEntry
      rw [← hSettled e, same, hRow] at hFound
      cases hFound
  | some row =>
      have hRowName := hName name row hRow
      rw [Option.map_some, EntryRow.settle]
      split
      · rename_i hActive
        have hEntry : row.toEntry ∈ entries := (h.mem_iff row.toEntry).mpr ⟨row, by
          show rows row.name = some row
          rw [hRowName, hRow], hActive, rfl⟩
        have hSaved := h.foldl_save_of_mem clock rows hEntry
        change (entries.map (·.settled clock)).foldl Rows.save rows row.name =
          (rows row.name).map _ at hSaved
        rw [hRowName, hRow] at hSaved
        exact hSaved
      · rename_i hIdle
        rw [Rows.foldl_save_of_notMem, hRow]
        intro f hf same
        obtain ⟨e, hEntry, rfl⟩ := List.mem_map.mp hf
        obtain ⟨other, hFound, hActive, -⟩ := (h.mem_iff e).mp hEntry
        rw [← hSettled e, same, hRow] at hFound
        obtain rfl := Option.some.inj hFound
        exact hIdle hActive

theorem row (h : Lists rows entries) {e : Entry} (hEntry : e ∈ entries) :
    ∃ row, rows e.name = some row ∧ row.toEntry = e := by
  obtain ⟨row, hRow, -, hSame⟩ := (h.mem_iff e).mp hEntry
  exact ⟨row, hRow, hSame⟩

theorem yields (h : Lists rows entries) (hYields : rows.Yields clock) {e : Entry} (hEntry : e ∈ entries) :
    e.Yields clock := by
  obtain ⟨row, hRow, hActive, rfl⟩ := (h.mem_iff e).mp hEntry
  exact (hYields _ row hRow hActive).2

theorem readable (h : Lists rows entries) (hYields : rows.Yields clock) {e : Entry}
    (hEntry : e ∈ entries) : ∃ row, rows e.name = some row ∧ row.IsReadable := by
  obtain ⟨row, hRow, hActive, -⟩ := (h.mem_iff e).mp hEntry
  exact ⟨row, hRow, (hYields _ row hRow hActive).1⟩

/-- What a snapshot comes to hands out at most one id of each row, whatever the rows are by then. -/
theorem below_foldl_save {others : Rows} {bound : Int} (h : Lists rows entries)
    (hNow : clock < Int64.maxValue) (hBound : bound ≤ Int64.maxValue.toInt) (hRows : rows.Below bound)
    (hOthers : others.Below bound) :
    Rows.Below (bound + 1) ((entries.map (·.settled clock)).foldl Rows.save others) := by
  refine (hOthers.mono (by omega)).foldl_save fun f hf => ?_
  obtain ⟨e, hEntry, rfl⟩ := List.mem_map.mp hf
  obtain ⟨row, hRow, rfl⟩ := h.row hEntry
  have hId : row.nextTaskId.toInt < bound := (hRows _ row hRow).2
  have hLeft : row.toEntry.nextTaskId < Int64.maxValue :=
    Int64.lt_iff_toInt_lt.mpr (Int.lt_of_lt_of_le hId hBound)
  exact Int.lt_of_le_of_lt (Entry.nextTaskId_settled hNow hLeft) (Int.add_lt_add_right hId 1)

theorem matching (h : Lists rows entries) : rows.Match entries := by
  intro e hEntry row hRow
  obtain ⟨other, hOther, -, rfl⟩ := (h.mem_iff e).mp hEntry
  obtain rfl := Option.some.inj (hOther.symm.trans hRow)
  rfl

theorem runsDue (h : Lists rows entries) (hName : ∀ name row, rows name = some row → row.name = name) :
    RunsDue rows clock (dueTasks entries clock) := by
  refine ⟨(TaskQueue.ofList _).sorted, names_dueTasks h.nodup, fun τ => ?_⟩
  rw [mem_dueTasks]
  constructor
  · rintro ⟨e, hEntry, hTask⟩
    obtain ⟨row, hRow, hActive, rfl⟩ := (h.mem_iff e).mp hEntry
    exact ⟨row, Entry.entryName_of_dueTask hTask ▸ hRow, by rw [EntryRow.due, if_pos hActive, hTask]⟩
  · rintro ⟨row, hRow, hDue⟩
    unfold EntryRow.due at hDue
    split at hDue
    · rename_i hActive
      refine ⟨row.toEntry, (h.mem_iff row.toEntry).mpr ⟨row, ?_, hActive, rfl⟩, hDue⟩
      show rows row.name = some row
      rw [hName _ row hRow, hRow]
    · cases hDue

end Lists

theorem below_of_stocks {store : Store} {entries : List Entry} (hStock : store.Stocks entries) :
    Rows.Below 2 store.row? := by
  intro name row hRow
  obtain ⟨e, hEntry, -, rfl⟩ := hStock.source name row hRow
  refine ⟨EntryRow.isReadable_ofEntry e, ?_⟩
  change e.nextTaskId.toInt < 2
  rw [(hStock.fresh e hEntry).nextTaskId_eq]
  decide

theorem exists_dueTask {e : Entry} (hFresh : e.IsFresh) (hStart : e.start ≤ clock)
    (hNow : clock < Int64.maxValue) :
    ∃ τ, e.dueTask clock = some τ := by
  cases hDue : e.dueTask clock with
  | some τ => exact ⟨τ, rfl⟩
  | none =>
      have hNone := ((e.consumes_settled hNow hFresh.nextTaskId_lt).idle hDue).2.2 e.start hStart
      exact absurd (hFresh.offers_iff.mpr hFresh.hasTick_start) hNone

end Scene

end TickScheduler
