import Mathlib.Data.Finset.Card
import TickScheduler.Proofs.Results.Recording
import TickScheduler.Proofs.Timestamp.RoundTrip
/-!
Retention of results. However many results of an entry are recorded, and in whatever order, those that stay
are the ones of its largest task ids, each as it was recorded last: to drop what is too old after every call
comes to the same as to drop it once in the end.
-/
namespace TickScheduler

/-- The largest of some ids, up to a number of them; a number that does not fit 63 bits is no limit. -/
def largest (count : Nat) (ids : Finset TaskId) : Finset TaskId :=
  ids.filter fun id => 0x8000000000000000 ≤ count ∨ (ids.filter (id < ·)).card < count

namespace ResultRow

variable {rows : List ResultRow} {row : ResultRow}

/-- The ids of some results. -/
def ids (rows : List ResultRow) : Finset TaskId :=
  (rows.map (·.key.taskId)).toFinset

theorem mem_ids {id : TaskId} : id ∈ ids rows ↔ ∃ row ∈ rows, row.key.taskId = id := by
  simp [ids]

/-- The first results are those with few newer ones. -/
theorem mem_take_iff (h : rows.Pairwise IsNewer) (count : Nat) :
    row ∈ rows.take count ↔ row ∈ rows ∧ (rows.filter (row.key.taskId < ·.key.taskId)).length < count := by
  induction h generalizing count with
  | nil => simp
  | @cons head rest hFirst hRest ih =>
      simp only [IsNewer] at hFirst
      cases count with
      | zero => simp
      | succ count =>
          rw [List.take_succ_cons, List.mem_cons, ih count, List.mem_cons, List.filter_cons]
          by_cases hHead : row = head
          · have hNone : rest.filter (head.key.taskId < ·.key.taskId) = [] :=
              List.filter_eq_nil_iff.mpr fun other hOther => by simpa using Int64.le_of_lt (hFirst other hOther)
            simp [hHead, hNone]
          · have hOlder (hRow : row ∈ rest) : row.key.taskId < head.key.taskId := hFirst row hRow
            simp only [hHead, false_or]
            refine and_congr_right fun hRow => ?_
            simp [hOlder hRow]

/-- How many results are newer than one is told by the ids. -/
theorem length_filter_newer (h : rows.Pairwise IsNewer) (id : TaskId) :
    (rows.filter (id < ·.key.taskId)).length = ((ids rows).filter (id < ·)).card := by
  have hNodup : ((rows.filter (id < ·.key.taskId)).map (·.key.taskId)).Nodup := by
    refine List.pairwise_map.mpr ((h.filter _).imp fun {a b} hNewer hSame => ?_)
    simp only [IsNewer, hSame] at hNewer
    exact Int64.lt_irrefl hNewer
  rw [← List.length_map (·.key.taskId), ← List.toFinset_card_of_nodup hNodup]
  congr 1
  ext other
  simp only [ids, List.mem_toFinset, List.mem_map, List.mem_filter, Finset.mem_filter, decide_eq_true_eq]
  constructor
  · rintro ⟨row, ⟨hRow, hNewer⟩, rfl⟩
    exact ⟨⟨row, hRow, rfl⟩, hNewer⟩
  · rintro ⟨⟨row, hRow, rfl⟩, hNewer⟩
    exact ⟨row, ⟨hRow, hNewer⟩, rfl⟩

/-- The results within a limit are those of the largest ids. -/
theorem mem_limitRows_iff (h : rows.Pairwise IsNewer) (limit : Nat) :
    row ∈ Store.limitRows limit rows ↔ row ∈ rows ∧ row.key.taskId ∈ largest limit (ids rows) := by
  have hId (hRow : row ∈ rows) : row.key.taskId ∈ ids rows := mem_ids.mpr ⟨row, hRow, rfl⟩
  unfold Store.limitRows largest
  rw [Finset.mem_filter, ← length_filter_newer h]
  split
  · rename_i hLimit
    rw [mem_take_iff h]
    refine and_congr_right fun hRow => ?_
    simp only [hId hRow, Nat.not_le.mpr hLimit, false_or, true_and]
  · rename_i hNone
    simp only [Nat.not_lt.mp hNone, true_or, and_true]
    exact (and_iff_left_of_imp hId).symm

theorem ids_limitRows (h : rows.Pairwise IsNewer) (limit : Nat) :
    ids (Store.limitRows limit rows) = largest limit (ids rows) := by
  ext id
  simp only [mem_ids, mem_limitRows_iff h]
  constructor
  · rintro ⟨row, ⟨-, hLargest⟩, rfl⟩
    exact hLargest
  · intro hLargest
    obtain ⟨row, hRow, rfl⟩ := mem_ids.mp (Finset.filter_subset _ _ hLargest)
    exact ⟨row, ⟨hRow, hLargest⟩, rfl⟩

end ResultRow

/-! ### Numbers -/

namespace Numbering

variable {Key : Type} [DecidableEq Key] {n : Numbering Key} {key other : Key}

theorem find?_restrict (n : Numbering Key) {isKept : Key → Bool} (h : isKept key = true) :
    (n.restrict isKept).find? key = n.find? key := by
  obtain ⟨numbers, last⟩ := n
  unfold find? restrict
  dsimp only
  induction numbers with
  | nil => rfl
  | cons head rest ih =>
      obtain ⟨k, number⟩ := head
      rw [List.filter_cons]
      dsimp only
      by_cases hKey : key = k
      · subst hKey
        simp [h]
      · have hNot : (key == k) = false := beq_eq_false_iff_ne.mpr hKey
        cases isKept k <;> simp [List.lookup_cons, hNot, ih]

/-- Another row's number does not change with a new one. -/
theorem find?_give_of_ne (n : Numbering Key) (h : key ≠ other) : (n.give other).find? key = n.find? key := by
  unfold give find?
  dsimp only
  split
  · rfl
  · simp [List.lookup_cons, beq_eq_false_iff_ne.mpr h]

end Numbering

/-! ### Tables -/

namespace Store

variable {s t u : Store} {table : Table ResultRow ResultRow.key} {name : String} {calls others : List TaskResult}
  {keep : Nat} {row : ResultRow} {key : ResultKey}

/-- A table with results put in one after the other, and none dropped. -/
def merged (table : Table ResultRow ResultRow.key) (calls : List TaskResult) : Table ResultRow ResultRow.key :=
  calls.foldl (fun table r => table.put (.ofResult r)) table

/-- A table with results recorded one after the other. -/
def recordedAll (table : Table ResultRow ResultRow.key) (calls : List TaskResult) (keep : Nat) :
    Table ResultRow ResultRow.key :=
  calls.foldl (fun table r => recorded table (.ofResult r) keep) table

@[simp] theorem limitRows_limitRows {α : Type} (limit : Nat) (rows : List α) :
    limitRows limit (limitRows limit rows) = limitRows limit rows := by
  unfold limitRows
  split
  · rw [List.take_take, Nat.min_self]
  · rfl

theorem resultsOf_recorded_ofResult {r : TaskResult} (hOwn : r.entryName = name) :
    resultsOf (recorded table (.ofResult r) keep) name =
      limitRows keep ((ResultRow.ofResult r).putNewest (resultsOf table name)) := by
  rw [resultsOf_recorded]
  exact if_pos hOwn

theorem resultsOf_put_ofResult {r : TaskResult} (hOwn : r.entryName = name) :
    resultsOf (table.put (.ofResult r)) name = (ResultRow.ofResult r).putNewest (resultsOf table name) := by
  rw [resultsOf_put]
  exact if_pos hOwn

/-- What is dropped after a call is not missed by those that follow. -/
theorem limitRows_recordedAll (hOwn : ∀ r ∈ calls, r.entryName = name) {table merge : Table ResultRow ResultRow.key}
    (h : limitRows keep (resultsOf table name) = limitRows keep (resultsOf merge name)) :
    limitRows keep (resultsOf (recordedAll table calls keep) name) =
      limitRows keep (resultsOf (merged merge calls) name) := by
  induction calls generalizing table merge with
  | nil => exact h
  | cons r rest ih =>
      obtain ⟨hFirst, hRest⟩ := List.forall_mem_cons.mp hOwn
      refine ih hRest ?_
      calc
        _ = limitRows keep ((ResultRow.ofResult r).putNewest (limitRows keep (resultsOf table name))) := by
          rw [resultsOf_recorded_ofResult hFirst, limitRows_limitRows, ResultRow.limitRows_putNewest_limitRows]
        _ = limitRows keep ((ResultRow.ofResult r).putNewest (limitRows keep (resultsOf merge name))) := by rw [h]
        _ = _ := by rw [ResultRow.limitRows_putNewest_limitRows, resultsOf_put_ofResult hFirst]

/-- After a call no more results are left than are to be kept. -/
theorem resultsOf_recordedAll_limited (hOwn : ∀ r ∈ calls, r.entryName = name)
    (h : calls = [] → limitRows keep (resultsOf table name) = resultsOf table name) :
    limitRows keep (resultsOf (recordedAll table calls keep) name) = resultsOf (recordedAll table calls keep) name := by
  induction calls generalizing table with
  | nil => exact h rfl
  | cons r rest ih =>
      obtain ⟨hFirst, hRest⟩ := List.forall_mem_cons.mp hOwn
      refine ih hRest fun _ => ?_
      rw [resultsOf_recorded_ofResult hFirst, limitRows_limitRows]

/-- To drop what is too old after every call comes to the same as to drop it once in the end. -/
theorem resultsOf_recordedAll (hOwn : ∀ r ∈ calls, r.entryName = name) (hCalls : calls ≠ []) :
    resultsOf (recordedAll table calls keep) name = limitRows keep (resultsOf (merged table calls) name) := by
  rw [← resultsOf_recordedAll_limited hOwn fun hNone => absurd hNone hCalls, limitRows_recordedAll hOwn rfl]

/-- The results of other entries stay as they are. -/
theorem resultsOf_recordedAll_of_other {other : String} (hOwn : ∀ r ∈ calls, r.entryName = name)
    (hOther : other ≠ name) : resultsOf (recordedAll table calls keep) other = resultsOf table other := by
  induction calls generalizing table with
  | nil => rfl
  | cons r rest ih =>
      obtain ⟨hFirst, hRest⟩ := List.forall_mem_cons.mp hOwn
      refine (ih hRest).trans ?_
      rw [resultsOf_recorded]
      exact if_neg fun hSame => hOther (hSame.symm.trans hFirst)

theorem mem_ids_resultsOf {id : TaskId} :
    id ∈ ResultRow.ids (resultsOf table name) ↔ (table.find? ⟨name, id⟩).isSome = true := by
  simp only [ResultRow.mem_ids, Option.isSome_iff_exists, find?_eq_some_iff_mem_resultsOf]
  refine exists_congr fun row => and_congr_right fun hRow => ?_
  have hName := (mem_resultsOf.mp hRow).2
  exact ⟨fun hId => congrArg₂ ResultKey.mk hName hId, congrArg ResultKey.taskId⟩

/-- The last of some results for a task. -/
def lastOf (calls : List TaskResult) (key : ResultKey) : Option TaskResult :=
  calls.reverse.find? fun r => (⟨r.entryName, r.taskId⟩ : ResultKey) = key

/-- For a task of their entry, it is the last of those with its id. -/
theorem lastOf_eq (hOwn : ∀ r ∈ calls, r.entryName = name) (id : TaskId) :
    lastOf calls ⟨name, id⟩ = (calls.filter (·.taskId = id)).getLast? := by
  rw [lastOf, ← List.head?_filter, List.filter_reverse, List.head?_reverse]
  congr 1
  refine List.filter_congr fun r hr => ?_
  simp [hOwn r hr]

theorem isSome_lastOf (hOwn : ∀ r ∈ calls, r.entryName = name) (id : TaskId) :
    (lastOf calls ⟨name, id⟩).isSome = true ↔ id ∈ calls.map (·.taskId) := by
  simp only [lastOf, List.find?_isSome, List.mem_reverse, decide_eq_true_eq, ResultKey.mk.injEq, List.mem_map]
  exact exists_congr fun r => and_congr_right fun hr => and_iff_right (hOwn r hr)

/-- Of the results for a task, the one that was put in last is found. -/
theorem find?_merged (table : Table ResultRow ResultRow.key) (calls : List TaskResult) (key : ResultKey) :
    (merged table calls).find? key = ((lastOf calls key).map .ofResult).or (table.find? key) := by
  induction calls generalizing table with
  | nil => rfl
  | cons r rest ih =>
      refine (ih _).trans ?_
      rw [Table.find?_put, lastOf, lastOf, List.reverse_cons, List.find?_append]
      cases rest.reverse.find? fun r => (⟨r.entryName, r.taskId⟩ : ResultKey) = key with
      | some later => rfl
      | none =>
          by_cases hKey : (⟨r.entryName, r.taskId⟩ : ResultKey) = key
          · have hSame : key = (ResultRow.ofResult r).key := hKey.symm
            simp [hKey, hSame]
          · have hOther : ¬ key = (ResultRow.ofResult r).key := fun hSame => hKey hSame.symm
            simp [hKey, hOther]

/-! ### Stores -/

/-- The ids that an entry has results for. -/
def resultIds (s : Store) (name : String) : Finset TaskId :=
  s.results.elim ∅ fun table => ResultRow.ids (resultsOf table name)

theorem resultIds_of_table (hTable : s.results = some table) (name : String) :
    s.resultIds name = ResultRow.ids (resultsOf table name) := by
  rw [resultIds, hTable, Option.elim_some]

theorem mem_resultIds {id : TaskId} : id ∈ s.resultIds name ↔ s.HasResult name id := by
  unfold resultIds HasResult result?
  cases s.results with
  | none => simp
  | some table => exact mem_ids_resultsOf

/-- The ids that an entry has results for, or that some calls record one for. -/
def knownIds (s : Store) (name : String) (calls : List TaskResult) : Finset TaskId :=
  s.resultIds name ∪ (calls.map (·.taskId)).toFinset

/-- The result of a task after some calls: what was recorded last, or else what was stored before. -/
def latest? (s : Store) (calls : List TaskResult) (key : ResultKey) : Option ResultRow :=
  ((lastOf calls key).map .ofResult).or (s.result? key)

/-- Records results one after the other. -/
def recordResults (s : Store) (calls : List TaskResult) (keep : Nat) : Except Error Store :=
  calls.foldlM (fun s r => s.recordResult r keep) s

/-- What is left when results of one entry were recorded one after the other. -/
structure Retains (s : Store) (name : String) (calls : List TaskResult) (keep : Nat) (t : Store) : Prop where
  /-- Of all ids, those recorded and those there before, the largest are left. -/
  resultIds_eq : t.resultIds name = largest keep (s.knownIds name calls)
  /-- Each of them has the result that was recorded last for it. -/
  result?_eq : ∀ id, t.result? ⟨name, id⟩ =
    if id ∈ largest keep (s.knownIds name calls) then s.latest? calls ⟨name, id⟩ else none
  /-- The results of other entries are what they were. -/
  other_eq : ∀ key, key.entryName ≠ name → t.result? key = s.result? key
  number_eq : ∀ key, key.entryName ≠ name → (s.result? key).isSome = true →
    t.resultNumbers.find? key = s.resultNumbers.find? key
  entries_eq : t.entries = s.entries
  /-- A listing reads the results of the largest ids, from the largest down, up to one that cannot be read. -/
  listResults_eq : ∀ limit, ∃ rows : List ResultRow, rows.Pairwise ResultRow.IsNewer ∧
    (∀ row, row ∈ rows ↔ row.key.entryName = name ∧
      row.key.taskId ∈ largest limit (largest keep (s.knownIds name calls)) ∧ s.latest? calls row.key = some row) ∧
    t.listResults name limit = rows.mapM ResultRow.read
  lastTaskId_eq : ∃ last, t.lastTaskId name = .ok last ∧
    (last = none ↔ largest keep (s.knownIds name calls) = ∅) ∧
    ∀ id, last = some id → id ∈ largest keep (s.knownIds name calls) ∧
      ∀ other ∈ largest keep (s.knownIds name calls), other ≤ id

theorem results_of_recordResults (hTable : s.results = some table) (calls : List TaskResult) (keep : Nat) :
    ∃ t, s.recordResults calls keep = .ok t ∧ t.results = some (recordedAll table calls keep) ∧
      t.entries = s.entries := by
  induction calls generalizing s table with
  | nil => exact ⟨s, rfl, hTable, rfl⟩
  | cons r rest ih =>
      obtain ⟨mid, hMid, -⟩ := exists_recordResult (Option.isSome_of_mem hTable) r keep
      obtain ⟨before, hBefore, hAfter⟩ := results_of_recordResult hMid
      obtain rfl := Option.some.inj (hTable.symm.trans hBefore)
      obtain ⟨t, ht, hResults, hEntries⟩ := ih hAfter
      refine ⟨t, ?_, hResults, hEntries.trans (records_of_recordResult hMid).entries_eq⟩
      rw [recordResults, List.foldlM_cons, hMid]
      exact ht

theorem number_of_recordResult {r : TaskResult} (h : s.recordResult r keep = .ok t)
    (hOther : key.entryName ≠ r.entryName) (hKept : (s.result? key).isSome = true) :
    t.resultNumbers.find? key = s.resultNumbers.find? key := by
  have hStill := (records_of_recordResult h).other key hOther
  have hNe : key ≠ ⟨r.entryName, r.taskId⟩ := fun hSame => hOther (congrArg ResultKey.entryName hSame)
  unfold recordResult at h
  cases hTable : s.resultTable with
  | error fault => simp [hTable, bind, Except.bind] at h
  | ok table =>
      simp only [hTable, bind, Except.bind, pure, Except.pure, Except.ok.injEq] at h
      subst h
      rw [← hStill] at hKept
      refine (Numbering.find?_restrict _ ?_).trans (Numbering.find?_give_of_ne _ hNe)
      exact hKept

theorem number_of_recordResults (h : s.recordResults calls keep = .ok t) (hOwn : ∀ r ∈ calls, r.entryName = name)
    (hOther : key.entryName ≠ name) (hKept : (s.result? key).isSome = true) :
    t.resultNumbers.find? key = s.resultNumbers.find? key := by
  induction calls generalizing s with
  | nil =>
      obtain rfl := Except.ok.inj h
      rfl
  | cons r rest ih =>
      obtain ⟨hFirst, hRest⟩ := List.forall_mem_cons.mp hOwn
      rw [recordResults, List.foldlM_cons] at h
      cases hMid : s.recordResult r keep with
      | error fault =>
          rw [hMid] at h
          cases h
      | ok mid =>
          rw [hMid] at h
          have hNe : key.entryName ≠ r.entryName := fun hSame => hOther (hSame.trans hFirst)
          have hStill := (records_of_recordResult hMid).other key hNe
          rw [ih h hRest (by rwa [hStill]), number_of_recordResult hMid hNe hKept]

theorem find?_merged_eq_latest? (hTable : s.results = some table) (calls : List TaskResult) (key : ResultKey) :
    (merged table calls).find? key = s.latest? calls key := by
  rw [find?_merged, latest?, result?, hTable, Option.bind_some]

theorem ids_merged (hTable : s.results = some table) (hOwn : ∀ r ∈ calls, r.entryName = name) :
    ResultRow.ids (resultsOf (merged table calls) name) = s.knownIds name calls := by
  ext id
  rw [mem_ids_resultsOf, find?_merged_eq_latest? hTable, latest?, Option.isSome_or, Option.isSome_map,
    Bool.or_eq_true, isSome_lastOf hOwn, knownIds, Finset.mem_union, mem_resultIds, List.mem_toFinset, or_comm]
  rfl

/-- What calls leave of the results of their entry. -/
theorem mem_resultsOf_recordedAll (hTable : s.results = some table) (hOwn : ∀ r ∈ calls, r.entryName = name)
    (hCalls : calls ≠ []) : row ∈ resultsOf (recordedAll table calls keep) name ↔
      row.key.entryName = name ∧ row.key.taskId ∈ largest keep (s.knownIds name calls) ∧
        s.latest? calls row.key = some row := by
  have hMerged : row ∈ resultsOf (merged table calls) name ↔
      row.key.entryName = name ∧ s.latest? calls row.key = some row := by
    rw [mem_resultsOf, ← Table.find?_key_eq_some_iff, find?_merged_eq_latest? hTable, and_comm]
  rw [resultsOf_recordedAll hOwn hCalls, ResultRow.mem_limitRows_iff pairwise_resultsOf, hMerged,
    ids_merged hTable hOwn, and_assoc, and_congr_right fun _ => and_comm]

theorem ids_recordedAll (hTable : s.results = some table) (hOwn : ∀ r ∈ calls, r.entryName = name)
    (hCalls : calls ≠ []) : ResultRow.ids (resultsOf (recordedAll table calls keep) name) =
      largest keep (s.knownIds name calls) := by
  rw [resultsOf_recordedAll hOwn hCalls, ResultRow.ids_limitRows pairwise_resultsOf, ids_merged hTable hOwn]

theorem find?_recordedAll (hTable : s.results = some table) (hOwn : ∀ r ∈ calls, r.entryName = name)
    (hCalls : calls ≠ []) (id : TaskId) : (recordedAll table calls keep).find? ⟨name, id⟩ =
      if id ∈ largest keep (s.knownIds name calls) then s.latest? calls ⟨name, id⟩ else none := by
  have hFound (row : ResultRow) : (recordedAll table calls keep).find? ⟨name, id⟩ = some row ↔
      id ∈ largest keep (s.knownIds name calls) ∧ s.latest? calls ⟨name, id⟩ = some row := by
    rw [find?_eq_some_iff_mem_resultsOf, mem_resultsOf_recordedAll hTable hOwn hCalls]
    constructor
    · rintro ⟨⟨-, hLargest, hLatest⟩, hKey⟩
      rw [hKey] at hLargest hLatest
      exact ⟨hLargest, hLatest⟩
    · rintro ⟨hLargest, hLatest⟩
      have hKey : row.key = ⟨name, id⟩ := by
        rw [← find?_merged_eq_latest? hTable] at hLatest
        exact Table.key_of_find? hLatest
      rw [hKey]
      exact ⟨⟨rfl, hLargest, hLatest⟩, rfl⟩
  refine Option.ext fun row => ?_
  rw [hFound]
  split
  · rename_i hLargest
    exact and_iff_right hLargest
  · rename_i hDropped
    exact iff_of_false (fun h => hDropped h.1) nofun

theorem retains_of_recordResults (hTable : s.results = some table) (hOwn : ∀ r ∈ calls, r.entryName = name)
    (hCalls : calls ≠ []) (h : s.recordResults calls keep = .ok t) : s.Retains name calls keep t := by
  obtain ⟨u, hu, hResults, hEntries⟩ := results_of_recordResults hTable calls keep
  obtain rfl := Except.ok.inj (h.symm.trans hu)
  have hIds : t.resultIds name = largest keep (s.knownIds name calls) := by
    rw [resultIds_of_table hResults, ids_recordedAll hTable hOwn hCalls]
  refine ⟨hIds, fun id => ?_, fun key hOther => ?_, fun key => number_of_recordResults h hOwn, hEntries,
    fun limit => ?_, ?_⟩
  · rw [result?, hResults, Option.bind_some, find?_recordedAll hTable hOwn hCalls]
  · rw [result?, result?, hResults, hTable, Option.bind_some, Option.bind_some]
    exact find?_congr_of_resultsOf (resultsOf_recordedAll_of_other hOwn hOther)
  · refine ⟨limitRows limit (resultsOf (recordedAll table calls keep) name),
      pairwise_resultsOf.sublist limitRows_sublist, fun row => ?_, ?_⟩
    · rw [ResultRow.mem_limitRows_iff pairwise_resultsOf, ids_recordedAll hTable hOwn hCalls,
        mem_resultsOf_recordedAll hTable hOwn hCalls]
      have hKept (hLimit : row.key.taskId ∈ largest limit (largest keep (s.knownIds name calls))) :
          row.key.taskId ∈ largest keep (s.knownIds name calls) := Finset.filter_subset _ _ hLimit
      constructor
      · rintro ⟨⟨hName, -, hLatest⟩, hLimit⟩
        exact ⟨hName, hLimit, hLatest⟩
      · rintro ⟨hName, hLimit, hLatest⟩
        exact ⟨⟨hName, hKept hLimit, hLatest⟩, hLimit⟩
    · rw [listResults, resultTable_eq_ok_iff.mpr hResults]
      rfl
  · have hLast : t.lastTaskId name =
        .ok ((resultsOf (recordedAll table calls keep) name).map (·.key.taskId)).head? := by
      rw [lastTaskId, resultTable_eq_ok_iff.mpr hResults]
      rfl
    obtain ⟨hStored, hHighest⟩ := lastTaskId_spec hLast
    refine ⟨_, hLast, ?_, fun id hId => ⟨?_, fun other hOther => ?_⟩⟩
    · rw [← ids_recordedAll hTable hOwn hCalls, List.head?_eq_none_iff, ResultRow.ids, List.toFinset_eq_empty_iff]
    · rw [← hIds, mem_resultIds]
      exact hStored id hId
    · rw [← hIds, mem_resultIds] at hOther
      obtain ⟨top, hTop, hLe⟩ := hHighest other hOther
      rwa [← Option.some.inj (hId.symm.trans hTop)] at hLe

/-- The order of calls on different ids makes no difference. -/
theorem recordedAll_congr (hOwn : ∀ r ∈ calls, r.entryName = name) (hCalls : calls ≠ [])
    (hSame : ∀ id, others.filter (·.taskId = id) = calls.filter (·.taskId = id)) :
    recordedAll table others keep = recordedAll table calls keep := by
  have hMem (r : TaskResult) : r ∈ others ↔ r ∈ calls := by
    have hOne : r ∈ others.filter (·.taskId = r.taskId) ↔ r ∈ calls.filter (·.taskId = r.taskId) := by
      rw [hSame r.taskId]
    simpa using hOne
  have hOthersOwn : ∀ r ∈ others, r.entryName = name := fun r hr => hOwn r ((hMem r).mp hr)
  have hOthers : others ≠ [] := by
    obtain ⟨r, hr⟩ := List.exists_mem_of_ne_nil calls hCalls
    exact List.ne_nil_of_mem ((hMem r).mpr hr)
  -- both are what is left of a store with that table
  let before : Store := { entries := none, results := some table }
  have hIds : before.knownIds name others = before.knownIds name calls := by
    ext id
    simp [knownIds, hMem]
  refine eq_of_resultsOf fun other => ?_
  by_cases hName : other = name
  · subst hName
    refine pairwise_resultsOf.eq_of_mem_iff pairwise_resultsOf fun row => ?_
    have hTable : before.results = some table := rfl
    rw [mem_resultsOf_recordedAll hTable hOthersOwn hOthers, mem_resultsOf_recordedAll hTable hOwn hCalls, hIds]
    refine and_congr_right fun hKey => and_congr_right fun _ => ?_
    have hRow : row.key = ⟨other, row.key.taskId⟩ := by rw [← hKey]
    rw [latest?, latest?, hRow, lastOf_eq hOthersOwn, lastOf_eq hOwn, hSame]
  · rw [resultsOf_recordedAll_of_other hOthersOwn hName, resultsOf_recordedAll_of_other hOwn hName]

/-- A task that was started half a second into 1970. -/
def errand (id : TaskId) : TaskResult :=
  .inProgress "errand" id ⟨0, 500000000, .inl (by decide)⟩

/-- A row with a status that is none. -/
def lostRow : ResultRow :=
  { ResultRow.ofResult (errand 1) with status := "lost" }

def lossy : Store :=
  { entries := some .empty, results := some (Table.empty.put lostRow) }

end Store

end TickScheduler
