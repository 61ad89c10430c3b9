import TickScheduler.Proofs.Store.Lookup
/-!
The results of a store, seen through entry and task id. Recording a result adds that one and may
drop others of the same entry, but as long as any are kept at all the newest one stays.
-/
namespace TickScheduler.Store

/-- The stored row of a result. -/
def result? (s : Store) (key : ResultKey) : Option ResultRow :=
  s.results.bind (·.find? key)

/-- A result of this task is stored. -/
def HasResult (s : Store) (name : String) (id : TaskId) : Prop :=
  (s.result? ⟨name, id⟩).isSome = true

variable {s t : Store} {name : String} {id : TaskId}

@[simp] theorem result?_empty (key : ResultKey) : empty.result? key = none := rfl

theorem result?_congr (h : t.results = s.results) (key : ResultKey) : t.result? key = s.result? key := by
  rw [result?, result?, h]

theorem hasResult_congr (h : t.results = s.results) : t.HasResult name id ↔ s.HasResult name id := by
  rw [HasResult, HasResult, result?_congr h]

theorem resultTable_eq_ok_iff {table : Table ResultRow ResultRow.key} :
    s.resultTable = .ok table ↔ s.results = some table := by
  unfold resultTable
  split <;> rename_i h <;> simp [h]

section Table

variable {table : Table ResultRow ResultRow.key} {row : ResultRow}

theorem mem_resultsOf : row ∈ resultsOf table name ↔ row ∈ table.rows ∧ row.key.entryName = name := by
  simp [resultsOf]

theorem compare_resultKey {a b : ResultKey} (h : a.entryName = b.entryName) :
    compare a b = .lt ↔ a.taskId < b.taskId := by
  rw [← Std.compare_eq_lt]
  change (compare a.entryName b.entryName).then (compare a.taskId b.taskId) = .lt ↔ _
  rw [h, Std.compare_self, Ordering.eq_then]

/-- Newer results have higher ids. -/
theorem resultsOf_sorted : (resultsOf table name).Pairwise fun a b => b.key.taskId < a.key.taskId := by
  rw [resultsOf, List.pairwise_reverse]
  have h := table.sorted.sublist (List.filter_sublist (p := fun row => row.key.entryName == name))
  refine h.imp_of_mem fun {a b} inA inB before => ?_
  have hA : a.key.entryName = name := by simpa using (List.mem_filter.mp inA).2
  have hB : b.key.entryName = name := by simpa using (List.mem_filter.mp inB).2
  exact (compare_resultKey (hA.trans hB.symm)).mp before

/-- The head of the results of an entry is the stored one with the highest id. -/
theorem head_resultsOf {newest : ResultRow} (h : (resultsOf table name).head? = some newest) :
    newest.key.entryName = name ∧ table.find? newest.key = some newest ∧
      ∀ row ∈ resultsOf table name, row.key.taskId ≤ newest.key.taskId := by
  obtain ⟨member, hName⟩ := mem_resultsOf.mp (List.mem_of_head? h)
  refine ⟨hName, Table.find?_key_eq_some_iff.mpr member, fun row hRow => ?_⟩
  have sorted : (resultsOf table name).Pairwise fun a b => b.key.taskId < a.key.taskId := resultsOf_sorted
  cases hRows : resultsOf table name with
  | nil => simp [hRows] at h
  | cons first rest =>
      rw [hRows] at h hRow sorted
      obtain rfl := Option.some.inj h
      rcases List.mem_cons.mp hRow with rfl | later
      · exact Int64.le_refl _
      · exact Int64.le_of_lt ((List.pairwise_cons.mp sorted).1 row later)

/-- An entry with a result has a newest one. -/
theorem exists_head_resultsOf (h : table.find? ⟨name, id⟩ = some row) :
    ∃ newest, (resultsOf table name).head? = some newest ∧ id ≤ newest.key.taskId := by
  obtain ⟨member, hKey⟩ := Table.find?_eq_some_iff.mp h
  have hMem : row ∈ resultsOf table name := mem_resultsOf.mpr ⟨member, by rw [hKey]⟩
  cases hHead : (resultsOf table name).head? with
  | none =>
      rw [List.head?_eq_none_iff] at hHead
      simp [hHead] at hMem
  | some newest =>
      have hLe := (head_resultsOf hHead).2.2 row hMem
      rw [hKey] at hLe
      exact ⟨newest, rfl, hLe⟩

theorem head?_limitRows {limit : Nat} (h : limit ≠ 0) (rows : List ResultRow) :
    (limitRows limit rows).head? = rows.head? := by
  unfold limitRows
  split
  · rw [List.head?_take, if_neg h]
  · rfl

/-- What is left of a table after old results of an entry were dropped. -/
theorem find?_prune {keep : Nat} {key : ResultKey} :
    (prune table name keep).find? key = (table.find? key).filter fun row =>
      row.key.entryName != name ||
        ((limitRows keep (resultsOf table name)).map (·.key.taskId)).contains row.key.taskId :=
  Table.find?_filter table _ key

/-- The newest result survives unless none is to be kept. -/
theorem find?_prune_newest {keep : Nat} {newest : ResultRow} (some_kept : keep ≠ 0)
    (h : (resultsOf table name).head? = some newest) :
    (prune table name keep).find? newest.key = some newest := by
  have hKept : newest ∈ limitRows keep (resultsOf table name) :=
    List.mem_of_head? ((head?_limitRows some_kept _).trans h)
  rw [find?_prune, (head_resultsOf h).2.1, Option.filter_some, if_pos]
  simp only [List.contains_iff_mem, List.mem_map, Bool.or_eq_true]
  exact .inr ⟨newest, hKept, rfl⟩

end Table

/-- The id returned is the highest one that the entry has a result for. -/
theorem lastTaskId_spec {last : Option TaskId} (h : s.lastTaskId name = .ok last) :
    (∀ i, last = some i → s.HasResult name i) ∧
      ∀ i, s.HasResult name i → ∃ top, last = some top ∧ i ≤ top := by
  unfold lastTaskId at h
  cases hTable : s.resultTable with
  | error fault => simp [hTable, bind, Except.bind] at h
  | ok table =>
      have hResults := resultTable_eq_ok_iff.mp hTable
      simp only [hTable, bind, Except.bind, pure, Except.pure, Except.ok.injEq, List.head?_map] at h
      subst h
      constructor
      · intro i hi
        obtain ⟨newest, hHead, rfl⟩ := Option.map_eq_some_iff.mp hi
        obtain ⟨hName, hFound, -⟩ := head_resultsOf hHead
        rw [HasResult, result?, hResults, ← hName]
        exact Option.isSome_of_mem hFound
      · intro i hi
        rw [HasResult, result?, hResults] at hi
        obtain ⟨row, hRow⟩ := Option.isSome_iff_exists.mp hi
        obtain ⟨newest, hHead, hLe⟩ := exists_head_resultsOf hRow
        exact ⟨newest.key.taskId, by rw [hHead, Option.map_some], hLe⟩

/-- What recording a result does. `kept` says that the newest result stays, whichever that is. -/
structure Records (s : Store) (r : TaskResult) (keep : Nat) (t : Store) : Prop where
  entries_eq : t.entries = s.entries
  other : ∀ key, key.entryName ≠ r.entryName → t.result? key = s.result? key
  source : ∀ key row, t.result? key = some row →
    (key = ⟨r.entryName, r.taskId⟩ ∧ row = .ofResult r) ∨
      (key ≠ ⟨r.entryName, r.taskId⟩ ∧ s.result? key = some row)
  kept : keep ≠ 0 → ∀ i, i = r.taskId ∨ s.HasResult r.entryName i →
    ∃ top, i ≤ top ∧ t.HasResult r.entryName top
  dropped : keep = 0 → ∀ i, ¬ t.HasResult r.entryName i

theorem records_of_recordResult {r : TaskResult} {keep : Nat} (h : s.recordResult r keep = .ok t) :
    s.Records r keep t := by
  unfold recordResult at h
  cases hTable : s.resultTable with
  | error fault => simp [hTable, bind, Except.bind] at h
  | ok table =>
      have hResults := resultTable_eq_ok_iff.mp hTable
      simp only [hTable, bind, Except.bind, pure, Except.pure, Except.ok.injEq] at h
      subst h
      have hOld (key : ResultKey) : s.result? key = table.find? key := by
        rw [result?, hResults, Option.bind_some]
      have hPut (key : ResultKey) : (table.put (.ofResult r)).find? key =
          if key = ⟨r.entryName, r.taskId⟩ then some (.ofResult r) else table.find? key :=
        table.find?_put (.ofResult r) key
      refine ⟨rfl, fun key hKey => ?_, fun key row found => ?_, fun some_kept i hi => ?_,
        fun none_kept i hi => ?_⟩
      · have hNe : key ≠ ⟨r.entryName, r.taskId⟩ := fun same => hKey (congrArg ResultKey.entryName same)
        rw [hOld, result?, Option.bind_some, find?_prune, hPut, if_neg hNe]
        cases hRow : table.find? key with
        | none => rfl
        | some row =>
            have hRowKey : row.key = key := Table.key_of_find? hRow
            simp [Option.filter, hRowKey, hKey]
      · rw [result?, Option.bind_some, find?_prune, Option.filter_eq_some_iff, hPut] at found
        by_cases hNe : key = ⟨r.entryName, r.taskId⟩
        · rw [if_pos hNe] at found
          exact .inl ⟨hNe, (Option.some.inj found.1).symm⟩
        · rw [if_neg hNe] at found
          exact .inr ⟨hNe, by rw [hOld]; exact found.1⟩
      · -- the newest of all results, the new one among them, is kept, and no id is higher
        have hFound : ∃ row, (table.put (.ofResult r)).find? ⟨r.entryName, i⟩ = some row := by
          rw [hPut]
          split
          · exact ⟨_, rfl⟩
          · rename_i hNe
            rcases hi with rfl | hi
            · exact absurd rfl hNe
            · rw [HasResult, hOld] at hi
              exact Option.isSome_iff_exists.mp hi
        obtain ⟨row, hRow⟩ := hFound
        obtain ⟨newest, hHead, hLe⟩ := exists_head_resultsOf hRow
        have hKey : newest.key = ⟨r.entryName, newest.key.taskId⟩ := by
          rw [← (head_resultsOf hHead).1]
        refine ⟨newest.key.taskId, hLe, ?_⟩
        rw [HasResult, result?, Option.bind_some, ← hKey, find?_prune_newest some_kept hHead]
        rfl
      · obtain ⟨row, hRow⟩ := Option.isSome_iff_exists.mp hi
        rw [result?, Option.bind_some, find?_prune, Option.filter_eq_some_iff] at hRow
        have hKey : row.key = ⟨r.entryName, i⟩ := Table.key_of_find? hRow.1
        simp [none_kept, limitRows, hKey] at hRow

/-- A result can be recorded as long as there is a table for it. -/
theorem exists_recordResult (h : s.results.isSome = true) (r : TaskResult) (keep : Nat) :
    ∃ t, s.recordResult r keep = .ok t ∧ t.results.isSome = true := by
  obtain ⟨table, hTable⟩ := Option.isSome_iff_exists.mp h
  simp [recordResult, resultTable, hTable, bind, Except.bind, pure, Except.pure]

/-- There is no other way to record one. -/
theorem tables_of_recordResult {r : TaskResult} {keep : Nat} (h : s.recordResult r keep = .ok t) :
    s.results.isSome = true ∧ t.results.isSome = true := by
  unfold recordResult at h
  cases hTable : s.resultTable with
  | error fault => simp [hTable, bind, Except.bind] at h
  | ok table =>
      simp only [hTable, bind, Except.bind, pure, Except.pure, Except.ok.injEq] at h
      subst h
      exact ⟨Option.isSome_of_mem (resultTable_eq_ok_iff.mp hTable), rfl⟩

end TickScheduler.Store
