import Mathlib.Data.List.Sort
import TickScheduler.Proofs.Engine.Course
import TickScheduler.Proofs.Store.Results
/-!
Recording results in another order. A result is put in its place among those of its entry, newest first, and
of these only the first ones are kept. As long as no two results are of one task, what is kept in the end is
the same in every order: what is dropped once is not among the first ones later either.
-/
namespace TickScheduler

namespace ResultRow

/-- Among the results of one entry, the one with the higher id is newer. -/
def IsNewer (a b : ResultRow) : Prop :=
  b.key.taskId < a.key.taskId

instance : Std.Irrefl IsNewer where
  irrefl _ := Int64.lt_irrefl

instance : Std.Antisymm IsNewer where
  antisymm _ _ h hOther := (Int64.lt_asymm h hOther).elim

/-- Puts a result in its place among those of its entry, newest first. -/
def putNewest (row : ResultRow) : List ResultRow → List ResultRow
  | [] => [row]
  | head :: rest =>
    if head.key.taskId < row.key.taskId then row :: head :: rest
    else if head.key.taskId = row.key.taskId then row :: rest
    else head :: putNewest row rest

variable {x y row : ResultRow} {rows : List ResultRow}

theorem mem_putNewest (h : rows.Pairwise IsNewer) :
    y ∈ putNewest x rows ↔ y = x ∨ (y ∈ rows ∧ y.key.taskId ≠ x.key.taskId) := by
  induction h with
  | nil => simp [putNewest]
  | @cons head rest hFirst _ ih =>
      simp only [IsNewer] at hFirst
      unfold putNewest
      split
      · grind
      · split <;> grind

theorem pairwise_putNewest (h : rows.Pairwise IsNewer) : (putNewest x rows).Pairwise IsNewer := by
  induction h with
  | nil => exact List.pairwise_singleton _ _
  | @cons head rest hFirst hRest ih =>
      have hMem (y : ResultRow) (hy : y ∈ putNewest x rest) : y = x ∨ y ∈ rest :=
        ((mem_putNewest hRest).mp hy).imp_right And.left
      simp only [IsNewer] at hFirst
      unfold putNewest
      split
      · refine .cons (fun y hy => ?_) (.cons hFirst hRest)
        simp only [IsNewer]
        grind
      · split
        · refine .cons (fun y hy => ?_) hRest
          simp only [IsNewer]
          grind
        · refine .cons (fun y hy => ?_) ih
          simp only [IsNewer]
          grind

/-- What is not among the first ones is not among them later. -/
theorem take_putNewest_take (keep : Nat) (x : ResultRow) (rows : List ResultRow) :
    (putNewest x (rows.take keep)).take keep = (putNewest x rows).take keep := by
  induction rows generalizing keep with
  | nil => rw [List.take_nil]
  | cons head rest ih =>
      cases keep with
      | zero => rfl
      | succ keep =>
          rw [List.take_succ_cons]
          unfold putNewest
          split
          · cases keep with
            | zero => rfl
            | succ keep =>
                simp only [List.take_succ_cons, List.take_take, Nat.min_eq_left (Nat.le_succ keep)]
          · split
            · simp only [List.take_succ_cons, List.take_take, Nat.min_self]
            · rw [List.take_succ_cons, List.take_succ_cons, ih]

theorem putNewest_comm (h : x.key.taskId ≠ y.key.taskId) (rows : List ResultRow) :
    putNewest x (putNewest y rows) = putNewest y (putNewest x rows) := by
  induction rows with
  | nil =>
      simp only [putNewest]
      grind
  | cons head rest ih =>
      simp only [putNewest]
      grind [putNewest]

theorem limitRows_putNewest_limitRows (keep : Nat) (x : ResultRow) (rows : List ResultRow) :
    Store.limitRows keep (putNewest x (Store.limitRows keep rows)) =
      Store.limitRows keep (putNewest x rows) := by
  unfold Store.limitRows
  split
  · exact take_putNewest_take keep x rows
  · rfl

end ResultRow

/-- A table is determined by its rows, whatever their order. -/
theorem Table.eq_of_mem_iff {Row Key : Type} [Ord Key] [Std.TransOrd Key] {key : Row → Key}
    {t u : Table Row key} (h : ∀ row, row ∈ t.rows ↔ row ∈ u.rows) : t = u := by
  have : Std.Irrefl fun a b : Row => compare (key a) (key b) = .lt :=
    ⟨fun _ hSelf => nomatch Std.compare_self.symm.trans hSelf⟩
  have : Std.Antisymm fun a b : Row => compare (key a) (key b) = .lt :=
    ⟨fun _ _ hOne hOther => nomatch (Std.OrientedCmp.gt_of_lt hOne).symm.trans hOther⟩
  obtain ⟨rows, hRows⟩ := t
  obtain ⟨others, hOthers⟩ := u
  obtain rfl : rows = others := hRows.eq_of_mem_iff hOthers h
  rfl

namespace Store

variable {t u : Table ResultRow ResultRow.key} {name : String}

theorem pairwise_resultsOf : (resultsOf t name).Pairwise ResultRow.IsNewer :=
  resultsOf_sorted

/-- A table of results is determined by the results of each entry. -/
theorem eq_of_resultsOf (h : ∀ name, resultsOf t name = resultsOf u name) : t = u := by
  refine Table.eq_of_mem_iff fun row => ?_
  have hOne : row ∈ resultsOf t row.key.entryName ↔ row ∈ resultsOf u row.key.entryName := by
    rw [h row.key.entryName]
  simpa [mem_resultsOf] using hOne

theorem find?_eq_some_iff_mem_resultsOf {key : ResultKey} {row : ResultRow} :
    t.find? key = some row ↔ row ∈ resultsOf t key.entryName ∧ row.key = key := by
  rw [Table.find?_eq_some_iff, mem_resultsOf]
  exact ⟨fun ⟨hRow, hKey⟩ => ⟨⟨hRow, congrArg _ hKey⟩, hKey⟩, fun ⟨⟨hRow, _⟩, hKey⟩ => ⟨hRow, hKey⟩⟩

theorem find?_congr_of_resultsOf {key : ResultKey}
    (h : resultsOf t key.entryName = resultsOf u key.entryName) : t.find? key = u.find? key :=
  Option.ext fun row => by rw [find?_eq_some_iff_mem_resultsOf, find?_eq_some_iff_mem_resultsOf, h]

theorem resultsOf_put (t : Table ResultRow ResultRow.key) (row : ResultRow) (name : String) :
    resultsOf (t.put row) name =
      if row.key.entryName = name then row.putNewest (resultsOf t name) else resultsOf t name := by
  have hMem (other : ResultRow) : other ∈ (t.put row).rows ↔
      other = row ∨ (other ∈ t.rows ∧ other.key ≠ row.key) := by
    have hBefore : t.find? other.key = some other ↔ other ∈ t.rows := Table.find?_key_eq_some_iff
    rw [← Table.find?_key_eq_some_iff, Table.find?_put, ← hBefore]
    grind
  split
  · rename_i hName
    refine pairwise_resultsOf.eq_of_mem_iff (ResultRow.pairwise_putNewest pairwise_resultsOf) fun other => ?_
    rw [ResultRow.mem_putNewest pairwise_resultsOf, mem_resultsOf, mem_resultsOf, hMem]
    have hKey (hOther : other.key.entryName = name) :
        other.key = row.key ↔ other.key.taskId = row.key.taskId :=
      ⟨congrArg ResultKey.taskId, congrArg₂ ResultKey.mk (hOther.trans hName.symm)⟩
    grind
  · rename_i hName
    refine pairwise_resultsOf.eq_of_mem_iff pairwise_resultsOf fun other => ?_
    rw [mem_resultsOf, mem_resultsOf, hMem]
    grind

theorem limitRows_sublist {α : Type} {limit : Nat} {rows : List α} : (limitRows limit rows).Sublist rows := by
  unfold limitRows
  split
  · exact List.take_sublist _ _
  · exact .refl _

theorem resultsOf_prune (t : Table ResultRow ResultRow.key) (name : String) (keep : Nat) (other : String) :
    resultsOf (prune t name keep) other =
      if name = other then limitRows keep (resultsOf t name) else resultsOf t other := by
  have hSublist : (limitRows keep (resultsOf t name)).Sublist (resultsOf t name) := limitRows_sublist
  have hMem (row : ResultRow) : row ∈ (prune t name keep).rows ↔ row ∈ t.rows ∧
      (row.key.entryName = name → row ∈ limitRows keep (resultsOf t name)) := by
    simp only [prune, Table.filter, List.mem_filter, Bool.or_eq_true, bne_iff_ne, List.contains_iff_mem,
      List.mem_map]
    refine and_congr_right fun hRow => ?_
    have hKept : (∃ kept ∈ limitRows keep (resultsOf t name), kept.key.taskId = row.key.taskId) →
        row.key.entryName = name → row ∈ limitRows keep (resultsOf t name) := by
      rintro ⟨kept, hKept, hId⟩ hName
      obtain ⟨hStored, hOf⟩ := mem_resultsOf.mp (hSublist.subset hKept)
      rwa [← Table.eq_of_key_eq hStored hRow (congrArg₂ ResultKey.mk (hOf.trans hName.symm) hId)]
    grind
  split
  · rename_i hName
    refine pairwise_resultsOf.eq_of_mem_iff (pairwise_resultsOf.sublist hSublist) fun row => ?_
    rw [mem_resultsOf, hMem]
    have hOwn (hRow : row ∈ limitRows keep (resultsOf t name)) := mem_resultsOf.mp (hSublist.subset hRow)
    grind
  · rename_i hName
    refine pairwise_resultsOf.eq_of_mem_iff pairwise_resultsOf fun row => ?_
    rw [mem_resultsOf, mem_resultsOf, hMem]
    grind

/-- The table after a result was stored over one of the same task, if only the newest are kept. -/
def recorded (t : Table ResultRow ResultRow.key) (row : ResultRow) (keep : Nat) :
    Table ResultRow ResultRow.key :=
  prune (t.put row) row.key.entryName keep

theorem resultsOf_recorded (t : Table ResultRow ResultRow.key) (row : ResultRow) (keep : Nat)
    (name : String) :
    resultsOf (recorded t row keep) name =
      if row.key.entryName = name then limitRows keep (row.putNewest (resultsOf t name))
      else resultsOf t name := by
  rw [recorded, resultsOf_prune, resultsOf_put, resultsOf_put]
  split
  · rename_i hName
    rw [if_pos rfl, hName]
  · rfl

/-- Of results of different tasks it does not matter which is recorded first. -/
theorem recorded_comm {x y : ResultRow} (h : x.key ≠ y.key) (t : Table ResultRow ResultRow.key) (keep : Nat) :
    recorded (recorded t x keep) y keep = recorded (recorded t y keep) x keep := by
  refine eq_of_resultsOf fun name => ?_
  simp only [resultsOf_recorded]
  by_cases hX : x.key.entryName = name
  · by_cases hY : y.key.entryName = name
    · have hId : y.key.taskId ≠ x.key.taskId :=
        fun hSame => h (congrArg₂ ResultKey.mk (hX.trans hY.symm) hSame.symm)
      simp only [if_pos hX, if_pos hY, ResultRow.limitRows_putNewest_limitRows, ResultRow.putNewest_comm hId]
    · simp only [if_pos hX, if_neg hY]
  · simp only [if_neg hX]

theorem results_of_recordResult {s t : Store} {result : TaskResult} {keep : Nat}
    (h : s.recordResult result keep = .ok t) :
    ∃ table, s.results = some table ∧ t.results = some (recorded table (.ofResult result) keep) := by
  unfold recordResult at h
  cases hTable : s.resultTable with
  | error fault => simp [hTable, bind, Except.bind] at h
  | ok table =>
      simp only [hTable, bind, Except.bind, pure, Except.pure, Except.ok.injEq] at h
      subst h
      exact ⟨table, resultTable_eq_ok_iff.mp hTable, rfl⟩

end Store

/-! ### Finalisations -/

namespace FinalRequest

/-- What a request does to the table of results. -/
def write (t : Table ResultRow ResultRow.key) : FinalRequest → Table ResultRow ResultRow.key
  | record result keep => Store.recorded t (.ofResult result) keep
  | notify _ _ => t

/-- A request that is about certain tasks, and keeps so many results of an entry. -/
def IsAbout (keep : Nat) (P : String → TaskId → Prop) : FinalRequest → Prop
  | record result kept => P result.entryName result.taskId ∧ kept = keep
  | notify _ _ => True

variable {keep : Nat} {P Q : String → TaskId → Prop} {r other : FinalRequest} {others : List FinalRequest}

theorem IsAbout.mono (hP : ∀ name id, P name id → Q name id) (h : r.IsAbout keep P) : r.IsAbout keep Q := by
  cases r with
  | record result kept => exact ⟨hP _ _ h.1, h.2⟩
  | notify => exact trivial

theorem IsAbout.and (h : r.IsAbout keep P) (hOther : r.IsAbout keep Q) :
    r.IsAbout keep fun name id => P name id ∧ Q name id := by
  cases r with
  | record result kept => exact ⟨⟨h.1, hOther.1⟩, h.2⟩
  | notify => exact trivial

theorem isAbout_of_closes {name : String} {id : TaskId} (hIs : P name id) (h : r.Closes name id keep) :
    r.IsAbout keep P := by
  cases r with
  | record result kept =>
      obtain ⟨rfl, rfl, -, rfl⟩ := h
      exact ⟨hIs, rfl⟩
  | notify => exact trivial

/-- It does not matter which of two requests comes first. -/
def Commutes (r other : FinalRequest) : Prop :=
  ∀ t, write (write t r) other = write (write t other) r

theorem Commutes.symm (h : r.Commutes other) : other.Commutes r :=
  fun t => (h t).symm

theorem IsAbout.commutes (h : r.IsAbout keep P) (hOther : other.IsAbout keep fun name id => ¬ P name id) :
    r.Commutes other := by
  intro t
  cases r with
  | notify => rfl
  | record result kept =>
      cases other with
      | notify => rfl
      | record result' kept' =>
          obtain ⟨hIs, rfl⟩ := h
          obtain ⟨hIsNot, rfl⟩ := hOther
          refine Store.recorded_comm (fun hSame => hIsNot ?_) t kept'
          obtain ⟨hName, hId⟩ := ResultKey.mk.inj hSame
          rwa [← hName, ← hId]

theorem foldl_write_comm (h : ∀ other ∈ others, r.Commutes other) (t : Table ResultRow ResultRow.key) :
    others.foldl write (write t r) = write (others.foldl write t) r := by
  induction others generalizing t with
  | nil => rfl
  | cons other rest ih =>
      rw [List.forall_mem_cons] at h
      rw [List.foldl_cons, List.foldl_cons, h.1 t, ih h.2]

end FinalRequest

end TickScheduler
