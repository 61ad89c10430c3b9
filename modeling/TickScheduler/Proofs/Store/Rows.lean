import TickScheduler.Proofs.Store.Lookup
/-!
The entries of a store, seen through their names. Each operation is described by what it does to the
row of one name; an operation that succeeds leaves every other row and, unless it is about results, all
results alone.
-/
namespace TickScheduler

theorem EntryRow.read_eq_ok_iff {row : EntryRow} {e : Entry} :
    row.read = .ok e ↔ row.priority.toInt32.toInt64 = row.priority ∧ row.toEntry = e := by
  unfold read
  split <;> rename_i readable <;> simp [readable]

/-- What an entry is stored as reads back as the same entry. -/
theorem EntryRow.read_ofEntry (e : Entry) : (ofEntry e).read = .ok e := by
  rw [read_eq_ok_iff]
  cases e with
  | mk name action priority start stop interval isActive =>
      refine ⟨congrArg Int32.toInt64 (Int32.toInt32_toInt64 priority), ?_⟩
      cases isActive <;> simp [ofEntry, toEntry, flag]

theorem EntryRow.le_nextTaskId_withCursor (row : EntryRow) (f : Entry) :
    f.nextTaskId ≤ (row.withCursor f).nextTaskId := by
  unfold withCursor
  split
  · exact Int64.le_refl _
  · change f.nextTaskId ≤ if row.nextTaskId ≤ f.nextTaskId then f.nextTaskId else row.nextTaskId
    split
    · exact Int64.le_refl _
    · rename_i hGreater
      exact Int64.le_of_lt (Int64.not_le.mp hGreater)

/-- A cursor that is saved over another version is lost, but for the id. -/
theorem EntryRow.withCursor_of_other {row : EntryRow} {f : Entry} (h : row.modifiedAt ≠ f.modifiedAt) :
    row.withCursor f = { row with nextTaskId := max row.nextTaskId f.nextTaskId } :=
  if_neg h

theorem EntryRow.nextTaskId_le_withCursor {row : EntryRow} {f : Entry}
    (h : row.modifiedAt ≠ f.modifiedAt) : row.nextTaskId ≤ (row.withCursor f).nextTaskId := by
  rw [withCursor_of_other h]
  change row.nextTaskId ≤ if row.nextTaskId ≤ f.nextTaskId then f.nextTaskId else row.nextTaskId
  split
  · assumption
  · exact Int64.le_refl _

/-- A counter that is not ahead of the cursor comes to where the cursor is. -/
theorem EntryRow.nextTaskId_withCursor {row : EntryRow} {f : Entry} (h : row.nextTaskId ≤ f.nextTaskId) :
    (row.withCursor f).nextTaskId = f.nextTaskId := by
  unfold withCursor
  split
  · rfl
  · exact if_pos h

/-- A series that starts over does so in the future. -/
theorem Entry.lt_of_updatedTaskTime {e updated : Entry} {now time : Tick}
    (hOther : ¬ (updated.start = e.start ∧ updated.interval = e.interval))
    (h : e.updatedTaskTime updated now = .ok time) : now < time := by
  rw [updatedTaskTime, if_neg hOther, earliestTick] at h
  cases hNext : Tick.succ? now with
  | none => simp [hNext, Except.map] at h
  | some next =>
      simp only [hNext, Except.map, Except.ok.injEq] at h
      subst h
      have hSucc := Tick.succ?_eq_some_iff.mp hNext
      have hLater : now < next := Int64.lt_iff_toInt_lt.mpr (by omega)
      change now < if updated.start ≤ next then next else updated.start
      split
      · exact hLater
      · rename_i hStart
        exact Std.lt_trans hLater (Int64.not_le.mp hStart)

namespace Store

/-- The stored row of an entry. -/
def row? (s : Store) (name : String) : Option EntryRow :=
  s.entries.bind (·.find? name)

variable {s t : Store} {name : String} {row : EntryRow} {e : Entry}

@[simp] theorem row?_empty (name : String) : empty.row? name = none := rfl

theorem row?_congr (h : t.entries = s.entries) (name : String) : t.row? name = s.row? name := by
  rw [row?, row?, h]

theorem name_of_row? (h : s.row? name = some row) : row.name = name := by
  obtain ⟨table, -, found⟩ := Option.bind_eq_some_iff.mp h
  exact Table.key_of_find? found

theorem entryTable_eq_ok_iff {table : Table EntryRow EntryRow.name} :
    s.entryTable = .ok table ↔ s.entries = some table := by
  unfold entryTable
  split <;> rename_i h <;> simp [h]

theorem entryRow_eq_ok_iff : s.entryRow name = .ok row ↔ s.row? name = some row := by
  unfold entryRow entryTable row?
  cases s.entries with
  | none => simp [bind, Except.bind]
  | some table =>
      simp only [bind, Except.bind, Option.bind_some]
      cases table.find? name <;> simp [pure, Except.pure, throw, throwThe, MonadExceptOf.throw]

/-- An entry is read from the row of its name. -/
theorem getEntry_eq_ok_iff :
    s.getEntry name = .ok e ↔ ∃ row, s.row? name = some row ∧ row.read = .ok e := by
  simp only [← entryRow_eq_ok_iff]
  unfold getEntry
  cases s.entryRow name <;> simp [bind, Except.bind]

/-- The id is one that the entry has handed out, as far as its counter tells. -/
def CountsPast (s : Store) (name : String) (id : TaskId) : Prop :=
  ∀ row, s.row? name = some row → id < row.nextTaskId

theorem CountsPast.mono {id : TaskId} (h : s.CountsPast name id)
    (hRaised : ∀ now, t.row? name = some now →
      ∃ row, s.row? name = some row ∧ row.nextTaskId ≤ now.nextTaskId) : t.CountsPast name id := by
  intro now hNow
  obtain ⟨row, hRow, hLe⟩ := hRaised now hNow
  exact Std.lt_of_lt_of_le (h row hRow) hLe

/-- One store comes from another by a change of the row of one name, if there is one. -/
structure Rewrites (s : Store) (name : String) (change : EntryRow → EntryRow) (t : Store) : Prop where
  row?_eq : ∀ other, t.row? other = if other = name then (s.row? other).map change else s.row? other
  results_eq : t.results = s.results

namespace Rewrites

variable {change : EntryRow → EntryRow}

theorem other (h : s.Rewrites name change t) {n : String} (hn : n ≠ name) : t.row? n = s.row? n := by
  rw [h.row?_eq, if_neg hn]

theorem same (h : s.Rewrites name change t) : t.row? name = (s.row? name).map change := by
  rw [h.row?_eq, if_pos rfl]

theorem found (h : s.Rewrites name change t) (hRow : s.row? name = some row) :
    t.row? name = some (change row) := by
  rw [h.same, hRow, Option.map_some]

/-- Every row of the new store is an old one or the changed one. -/
theorem source (h : s.Rewrites name change t) {n : String} (found : t.row? n = some row) :
    (n ≠ name ∧ s.row? n = some row) ∨
      (n = name ∧ ∃ old, s.row? name = some old ∧ row = change old) := by
  by_cases hn : n = name
  · subst hn
    rw [h.same, Option.map_eq_some_iff] at found
    obtain ⟨old, hOld, rfl⟩ := found
    exact .inr ⟨rfl, old, hOld, rfl⟩
  · rw [h.other hn] at found
    exact .inl ⟨hn, found⟩

/-- Rows neither come nor go. -/
theorem isSome_row? (h : s.Rewrites name change t) (n : String) :
    (t.row? n).isSome = (s.row? n).isSome := by
  rw [h.row?_eq]
  split <;> simp

end Rewrites

private theorem rewrites_modify {table : Table EntryRow EntryRow.name} (h : s.entries = some table)
    (change : EntryRow → EntryRow) (same : ∀ row, (change row).name = row.name) :
    s.Rewrites name change { s with entries := some (table.modify name change same) } where
  row?_eq other := by
    simp only [row?, h, Option.bind_some]
    exact table.find?_modify name change same other
  results_eq := rfl

theorem rewrites_of_saveCursor (h : s.saveCursor e = .ok t) : s.Rewrites e.name (·.withCursor e) t := by
  unfold saveCursor at h
  cases hTable : s.entryTable with
  | error fault => simp [hTable, bind, Except.bind] at h
  | ok table =>
      simp only [hTable, bind, Except.bind, pure, Except.pure, Except.ok.injEq] at h
      subst h
      exact rewrites_modify (entryTable_eq_ok_iff.mp hTable) _ _

theorem rewrites_of_writeUpdate (h : s.writeUpdate e = .ok t) :
    s.Rewrites e.name (·.withUpdate e) t := by
  unfold writeUpdate at h
  cases hTable : s.entryTable with
  | error fault => simp [hTable, bind, Except.bind] at h
  | ok table =>
      simp only [hTable, bind, Except.bind, pure, Except.pure, Except.ok.injEq] at h
      subst h
      exact rewrites_modify (entryTable_eq_ok_iff.mp hTable) _ _

theorem rewrites_of_deactivate {stamp : String} (h : s.deactivate name stamp = .ok t) :
    s.Rewrites name (·.deactivated stamp) t := by
  unfold deactivate at h
  cases hTable : s.entryTable with
  | error fault => simp [hTable, bind, Except.bind] at h
  | ok table =>
      cases hRow : s.entryRow name with
      | error fault => simp [hTable, hRow, bind, Except.bind] at h
      | ok row =>
          simp only [hTable, hRow, bind, Except.bind, pure, Except.pure, Except.ok.injEq] at h
          subst h
          exact rewrites_modify (entryTable_eq_ok_iff.mp hTable) _ _

/-- A cursor can be saved as long as there is a table to save it in. -/
theorem exists_saveCursor (h : s.entries.isSome = true) (e : Entry) :
    ∃ t, s.saveCursor e = .ok t ∧ t.entries.isSome = true := by
  obtain ⟨table, hTable⟩ := Option.isSome_iff_exists.mp h
  simp [saveCursor, entryTable, hTable, bind, Except.bind, pure, Except.pure]

/-- An update can be written as long as there is a table to write it in. -/
theorem exists_writeUpdate (h : s.entries.isSome = true) (e : Entry) :
    ∃ t, s.writeUpdate e = .ok t ∧ t.entries.isSome = true := by
  obtain ⟨table, hTable⟩ := Option.isSome_iff_exists.mp h
  simp [writeUpdate, entryTable, hTable, bind, Except.bind, pure, Except.pure]

@[simp] theorem mapError_ok {ε ε' α : Type} (f : ε → ε') (x : α) : (Except.ok x).mapError f = .ok x :=
  rfl

@[simp] theorem mapError_error {ε ε' α : Type} (f : ε → ε') (e : ε) :
    (Except.error e : Except ε α).mapError f = .error (f e) :=
  rfl

/-- An update of an entry is one reading and one writing. -/
theorem updateEntry_eq_ok_iff {updated u : Entry} {now : Tick} {stamp : String} :
    s.updateEntry updated now stamp = .ok (u, t) ↔
      Entry.checkTiming updated.start updated.stop updated.interval = .ok () ∧
        ∃ e, s.getEntry updated.name = .ok e ∧ e.applyUpdate updated now stamp = .ok u ∧
          s.writeUpdate u = .ok t := by
  unfold updateEntry
  cases hTiming : Entry.checkTiming updated.start updated.stop updated.interval with
  | error fault => simp [bind, Except.bind]
  | ok =>
      cases hStored : s.getEntry updated.name with
      | error fault => simp [bind, Except.bind]
      | ok e =>
          cases hUpdate : e.applyUpdate updated now stamp with
          | error fault => simp [bind, Except.bind, hUpdate]
          | ok f =>
              cases hWrite : s.writeUpdate f with
              | error fault =>
                  simp only [bind, Except.bind, mapError_ok, mapError_error, hUpdate, hWrite]
                  grind
              | ok store =>
                  simp only [bind, Except.bind, mapError_ok, pure, Except.pure, hUpdate, hWrite]
                  grind

/-- What an update makes of a stored entry. Its cursor stays where it is, or starts over after `now`. -/
structure Updates (s : Store) (updated : Entry) (now : Tick) (row : EntryRow) (u : Entry) (t : Store) :
    Prop where
  stored : s.row? updated.name = some row
  read : s.getEntry updated.name = .ok row.toEntry
  rewrites : s.Rewrites updated.name (·.withUpdate u) t
  start_eq : u.start = updated.start
  interval_eq : u.interval = updated.interval
  isActive_eq : u.isActive = updated.isActive
  kept : updated.start = row.start ∧ updated.interval = row.interval → u.nextTaskTime = row.nextTaskTime
  restarted : ¬ (updated.start = row.start ∧ updated.interval = row.interval) → now < u.nextTaskTime

theorem updates_of_updateEntry {updated u : Entry} {now : Tick} {stamp : String}
    (h : s.updateEntry updated now stamp = .ok (u, t)) : ∃ row, s.Updates updated now row u t := by
  obtain ⟨-, e, hRead, hApply, hWrite⟩ := updateEntry_eq_ok_iff.mp h
  obtain ⟨row, hRow, hEntry⟩ := getEntry_eq_ok_iff.mp hRead
  obtain ⟨-, rfl⟩ := EntryRow.read_eq_ok_iff.mp hEntry
  unfold Entry.applyUpdate at hApply
  cases hTime : row.toEntry.updatedTaskTime updated now with
  | error fault =>
      rw [hTime] at hApply
      cases hApply
  | ok nextTaskTime =>
      rw [hTime] at hApply
      obtain rfl := Except.ok.inj hApply
      have hName : row.toEntry.name = updated.name := name_of_row? hRow
      have hRewrites := rewrites_of_writeUpdate hWrite
      rw [hName] at hRewrites
      refine ⟨row, hRow, hRead, hRewrites, rfl, rfl, rfl, fun hSame => ?_,
        fun hOther => Entry.lt_of_updatedTaskTime hOther hTime⟩
      exact Except.ok.inj (hTime.symm.trans (if_pos hSame))

/-- An entry is added under a name that no row has. -/
structure Gains (s : Store) (e : Entry) (t : Store) : Prop where
  absent : s.row? e.name = none
  row?_eq : ∀ other, t.row? other = if other = e.name then some (.ofEntry e) else s.row? other
  entries : t.entries.isSome = true
  results_eq : t.results = s.results

theorem gains_of_insertEntry (h : s.insertEntry e = .ok t) : s.Gains e t := by
  unfold insertEntry at h
  cases hTable : s.entryTable with
  | error fault => simp [hTable, bind, Except.bind] at h
  | ok table =>
      have hEntries := entryTable_eq_ok_iff.mp hTable
      cases hRow : table.find? e.name with
      | some row =>
          simp [hTable, hRow, bind, Except.bind, Table.contains, throw, throwThe, MonadExceptOf.throw]
            at h
      | none =>
          simp only [hTable, hRow, bind, Except.bind, Table.contains, pure, Except.pure,
            Option.isSome_none, Bool.false_eq_true, if_false, Except.ok.injEq] at h
          subst h
          refine ⟨?_, fun other => ?_, rfl, rfl⟩
          · simpa only [row?, hEntries, Option.bind_some] using hRow
          · simp only [row?, hEntries, Option.bind_some]
            exact table.find?_put (.ofEntry e) other

theorem exists_insertEntry (hTable : s.entries.isSome = true) (hAbsent : s.row? e.name = none) :
    ∃ t, s.insertEntry e = .ok t := by
  obtain ⟨table, hTable⟩ := Option.isSome_iff_exists.mp hTable
  rw [row?, hTable, Option.bind_some] at hAbsent
  simp [insertEntry, entryTable, hTable, Table.contains, hAbsent, bind, Except.bind, pure, Except.pure]

/-- Entries of different names can be added unless one of them is stored already. -/
theorem exists_insertEntries {entries : List Entry} (hTable : s.entries.isSome = true)
    (hNodup : (entries.map Entry.name).Nodup) (hAbsent : ∀ e ∈ entries, s.row? e.name = none) :
    ∃ t, entries.foldlM insertEntry s = .ok t := by
  induction entries generalizing s with
  | nil => exact ⟨s, rfl⟩
  | cons e rest ih =>
      obtain ⟨hFirst, hRest⟩ := List.nodup_cons.mp hNodup
      obtain ⟨u, hInsert⟩ := exists_insertEntry hTable (hAbsent e List.mem_cons_self)
      have hGains := gains_of_insertEntry hInsert
      have hStill : ∀ other ∈ rest, u.row? other.name = none := by
        intro other hOther
        rw [hGains.row?_eq, if_neg]
        · exact hAbsent other (List.mem_cons_of_mem e hOther)
        · exact fun same => hFirst (same ▸ List.mem_map_of_mem hOther)
      obtain ⟨t, hAll⟩ := ih hGains.entries hRest hStill
      exact ⟨t, by rw [List.foldlM_cons, hInsert]; exact hAll⟩

/-- Entries that were added one after the other are all stored as they are, and nothing was lost. -/
theorem rows_of_insertEntries {entries : List Entry} (h : entries.foldlM insertEntry s = .ok t) :
    (∀ name row, s.row? name = some row → t.row? name = some row) ∧
      (∀ e ∈ entries, t.row? e.name = some (.ofEntry e)) ∧
      ∀ name row, t.row? name = some row → s.row? name = some row ∨ ∃ e ∈ entries, e.name = name := by
  induction entries generalizing s with
  | nil =>
      cases h
      exact ⟨fun _ _ => id, nofun, fun _ _ => .inl⟩
  | cons e rest ih =>
      rw [List.foldlM_cons] at h
      cases hFirst : s.insertEntry e with
      | error fault => simp [hFirst, bind, Except.bind] at h
      | ok u =>
          rw [hFirst] at h
          obtain ⟨hKept, hStored, hSource⟩ := ih h
          have hGains := gains_of_insertEntry hFirst
          refine ⟨fun name row hRow => hKept name row ?_, fun other hOther => ?_, fun name row hRow => ?_⟩
          · rw [hGains.row?_eq, if_neg, hRow]
            rintro rfl
            rw [hGains.absent] at hRow
            cases hRow
          · rcases List.mem_cons.mp hOther with rfl | hOther
            · exact hKept _ _ (by rw [hGains.row?_eq, if_pos rfl])
            · exact hStored other hOther
          · rcases hSource name row hRow with hRow | ⟨other, hOther, hName⟩
            · rw [hGains.row?_eq] at hRow
              split at hRow
              · rename_i hName
                exact .inr ⟨e, List.mem_cons_self, hName.symm⟩
              · exact .inl hRow
            · exact .inr ⟨other, List.mem_cons_of_mem e hOther, hName⟩

/-- Adding entries leaves both tables in place. -/
theorem tables_of_insertEntries {entries : List Entry} (h : entries.foldlM insertEntry s = .ok t)
    (hEntries : s.entries.isSome = true) : t.entries.isSome = true ∧ t.results = s.results := by
  induction entries generalizing s with
  | nil =>
      cases h
      exact ⟨hEntries, rfl⟩
  | cons e rest ih =>
      rw [List.foldlM_cons] at h
      cases hFirst : s.insertEntry e with
      | error fault => simp [hFirst, bind, Except.bind] at h
      | ok u =>
          rw [hFirst] at h
          have hGains := gains_of_insertEntry hFirst
          obtain ⟨hSome, hResults⟩ := ih h hGains.entries
          exact ⟨hSome, hResults.trans hGains.results_eq⟩

private theorem mapM_read_eq_ok {rows : List EntryRow} {entries : List Entry}
    (h : rows.mapM EntryRow.read = .ok entries) : rows.map EntryRow.toEntry = entries ∧
      ∀ row ∈ rows, row.read = .ok row.toEntry := by
  induction rows generalizing entries with
  | nil =>
      cases h
      exact ⟨rfl, nofun⟩
  | cons row rest ih =>
      rw [List.mapM_cons] at h
      cases hRow : row.read with
      | error fault => simp [hRow, bind, Except.bind] at h
      | ok e =>
          cases hRest : rest.mapM EntryRow.read with
          | error fault => simp [hRow, hRest, bind, Except.bind] at h
          | ok others =>
              simp only [hRow, hRest, bind, Except.bind, pure, Except.pure, Except.ok.injEq] at h
              obtain ⟨rfl, readable⟩ := ih hRest
              have hEntry := (EntryRow.read_eq_ok_iff.mp hRow).2
              subst hEntry h
              refine ⟨rfl, fun other member => ?_⟩
              rcases List.mem_cons.mp member with rfl | member
              · exact hRow
              · exact readable other member

private theorem mapM_read_of_readable {rows : List EntryRow}
    (h : ∀ row ∈ rows, row.read = .ok row.toEntry) :
    rows.mapM EntryRow.read = .ok (rows.map EntryRow.toEntry) := by
  induction rows with
  | nil => rfl
  | cons row rest ih =>
      rw [List.mapM_cons, h row List.mem_cons_self,
        ih fun other member => h other (List.mem_cons_of_mem row member)]
      rfl

private theorem nodup_names {table : Table EntryRow EntryRow.name} :
    (table.rows.map EntryRow.name).Nodup := by
  rw [List.Nodup, List.pairwise_map]
  refine table.sorted.imp fun {a b} before same => ?_
  rw [same, Std.compare_self] at before
  cases before

theorem activeEntries_congr (h : t.entries = s.entries) : t.activeEntries = s.activeEntries := by
  rw [activeEntries, activeEntries, entryTable, entryTable, h]

/-- The active entries are those of the rows whose flag is one, no two of one name. -/
theorem mem_activeEntries {entries : List Entry} (h : s.activeEntries = .ok entries) :
    (entries.map Entry.name).Nodup ∧ ∀ e, e ∈ entries ↔
      ∃ row, s.row? e.name = some row ∧ row.activeFlag = 1 ∧ row.read = .ok e := by
  unfold activeEntries at h
  cases hTable : s.entryTable with
  | error fault => simp [hTable, bind, Except.bind] at h
  | ok table =>
      have hEntries := entryTable_eq_ok_iff.mp hTable
      simp only [hTable, bind, Except.bind] at h
      obtain ⟨rfl, readable⟩ := mapM_read_eq_ok h
      constructor
      · rw [List.map_map]
        exact (List.filter_sublist.map _).nodup nodup_names
      · intro e
        simp only [List.mem_map, List.mem_filter, beq_iff_eq, row?, hEntries, Option.bind_some,
          Table.find?_eq_some_iff]
        constructor
        · rintro ⟨row, ⟨member, active⟩, rfl⟩
          exact ⟨row, ⟨member, rfl⟩, active, readable row (List.mem_filter.mpr ⟨member, by simpa⟩)⟩
        · rintro ⟨row, ⟨member, -⟩, active, hRead⟩
          exact ⟨row, ⟨member, active⟩, (EntryRow.read_eq_ok_iff.mp hRead).2⟩

/-- The active entries can be read only if each of their rows can. -/
theorem read_of_activeEntries {entries : List Entry} (h : s.activeEntries = .ok entries)
    (hRow : s.row? name = some row) (hActive : row.activeFlag = 1) : row.read = .ok row.toEntry := by
  unfold activeEntries at h
  cases hTable : s.entryTable with
  | error fault => simp [hTable, bind, Except.bind] at h
  | ok table =>
      rw [row?, entryTable_eq_ok_iff.mp hTable, Option.bind_some, Table.find?_eq_some_iff] at hRow
      simp only [hTable, bind, Except.bind] at h
      exact (mapM_read_eq_ok h).2 row (List.mem_filter.mpr ⟨hRow.1, by simpa⟩)

/-- The active entries can be read if each of their rows can. -/
theorem exists_activeEntries (h : s.entries.isSome = true)
    (readable : ∀ name row, s.row? name = some row → row.activeFlag = 1 → row.read = .ok row.toEntry) :
    ∃ entries, s.activeEntries = .ok entries := by
  obtain ⟨table, hEntries⟩ := Option.isSome_iff_exists.mp h
  refine ⟨(table.rows.filter (·.activeFlag == 1)).map EntryRow.toEntry, ?_⟩
  simp only [activeEntries, entryTable_eq_ok_iff.mpr hEntries, bind, Except.bind]
  apply mapM_read_of_readable
  intro row member
  obtain ⟨member, active⟩ := List.mem_filter.mp member
  have found : s.row? row.name = some row := by
    rw [row?, hEntries]
    exact Table.find?_key_eq_some_iff.mpr member
  exact readable row.name row found (by simpa using active)

end Store

end TickScheduler
