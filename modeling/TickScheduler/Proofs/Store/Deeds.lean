import TickScheduler.Proofs.Store.Results
import TickScheduler.Proofs.Store.Rows
/-!
What clients and actions do to entries. An update is seen as its second half only: what was made of an
earlier reading, however old that is, is written over the stored entry.
-/
namespace TickScheduler

inductive Deed where
  | insert (e : Entry)
  | write (update : Entry)
  | deactivate (name stamp : String)
  | delete (name : String)

namespace Deed

/-- The entry that a deed is about. -/
def name : Deed → String
  | insert e => e.name
  | write update => update.name
  | deactivate name _ => name
  | delete name => name

/-- What the new version of the entry is called. -/
def stamp? : Deed → Option String
  | insert e => some e.modifiedAt
  | write update => some update.modifiedAt
  | deactivate _ stamp => some stamp
  | delete _ => none

/-- What a deed leaves in the row of its entry: its version, and what it writes of the cursor. -/
def Leaves : Deed → EntryRow → Prop
  | insert e, row | write e, row =>
      row.modifiedAt = e.modifiedAt ∧ row.nextTaskTime = e.nextTaskTime ∧
        row.activeFlag = EntryRow.flag e.isActive
  | deactivate _ stamp, row => row.modifiedAt = stamp ∧ row.activeFlag = 0
  | delete _, _ => False

def apply : Deed → Store → Except Error Store
  | insert e, s => s.insertEntry e
  | write update, s => s.writeUpdate update
  | deactivate name stamp, s => s.deactivate name stamp
  | delete name, s => s.deleteEntry name

end Deed

namespace Store

variable {s t : Store} {name : String}

/-- An entry is removed together with its results. -/
structure Drops (s : Store) (name : String) (t : Store) : Prop where
  present : (s.row? name).isSome = true
  row?_eq : ∀ other, t.row? other = if other = name then none else s.row? other
  result?_eq : ∀ key, t.result? key = if key.entryName = name then none else s.result? key
  isSome_results : t.results.isSome = s.results.isSome

theorem drops_of_deleteEntry (h : s.deleteEntry name = .ok t) : s.Drops name t := by
  unfold deleteEntry at h
  cases hEntries : s.entryTable with
  | error fault => simp [hEntries, bind, Except.bind] at h
  | ok entries =>
      cases hRow : s.entryRow name with
      | error fault => simp [hEntries, hRow, bind, Except.bind] at h
      | ok row =>
          cases hResults : s.resultTable with
          | error fault => simp [hEntries, hRow, hResults, bind, Except.bind] at h
          | ok results =>
              simp only [hEntries, hRow, hResults, bind, Except.bind, pure, Except.pure,
                Except.ok.injEq] at h
              subst h
              replace hEntries := entryTable_eq_ok_iff.mp hEntries
              replace hResults := resultTable_eq_ok_iff.mp hResults
              refine ⟨Option.isSome_of_mem (entryRow_eq_ok_iff.mp hRow), fun other => ?_, fun key => ?_,
                by rw [hResults, Option.isSome_some, Option.isSome_some]⟩
              · simp only [row?, hEntries, Option.bind_some, Table.find?_filter]
                cases hFound : entries.find? other with
                | none => simp
                | some found =>
                    have hName : found.name = other := Table.key_of_find? hFound
                    simp [Option.filter, hName]
              · simp only [result?, hResults, Option.bind_some, Table.find?_filter]
                cases hFound : results.find? key with
                | none => simp
                | some found =>
                    have hKey : found.key = key := Table.key_of_find? hFound
                    simp [Option.filter, hKey]

end Store

namespace Deed

variable {s t : Store} {deed : Deed}

/-- The rows of other entries stay as they are. -/
theorem row?_of_ne {name : String} (h : deed.apply s = .ok t) (hName : name ≠ deed.name) :
    t.row? name = s.row? name := by
  cases deed with
  | insert e => exact ((Store.gains_of_insertEntry h).row?_eq name).trans (if_neg hName)
  | write update => exact (Store.rewrites_of_writeUpdate h).other hName
  | deactivate => exact (Store.rewrites_of_deactivate h).other hName
  | delete => exact ((Store.drops_of_deleteEntry h).row?_eq name).trans (if_neg hName)

theorem Leaves.stamp?_eq {row : EntryRow} (h : deed.Leaves row) : deed.stamp? = some row.modifiedAt := by
  cases deed with
  | insert | write | deactivate => exact congrArg some h.1.symm
  | delete => exact h.elim

theorem Leaves.congr {row now : EntryRow} (hVersion : now.modifiedAt = row.modifiedAt)
    (hTime : now.nextTaskTime = row.nextTaskTime) (hFlag : now.activeFlag = row.activeFlag)
    (h : deed.Leaves row) : deed.Leaves now := by
  cases deed with
  | insert | write => exact ⟨hVersion.trans h.1, hTime.trans h.2.1, hFlag.trans h.2.2⟩
  | deactivate => exact ⟨hVersion.trans h.1, hFlag.trans h.2⟩
  | delete => exact h

theorem leaves_of_apply {row : EntryRow} (h : deed.apply s = .ok t) (hRow : t.row? deed.name = some row) :
    deed.Leaves row := by
  cases deed with
  | insert e =>
      have hNew := ((Store.gains_of_insertEntry h).row?_eq e.name).trans (if_pos rfl)
      cases hRow.symm.trans hNew
      exact ⟨rfl, rfl, rfl⟩
  | write update =>
      obtain ⟨old, -, rfl⟩ :=
        Option.map_eq_some_iff.mp ((Store.rewrites_of_writeUpdate h).same.symm.trans hRow)
      exact ⟨rfl, rfl, rfl⟩
  | deactivate =>
      obtain ⟨old, -, rfl⟩ :=
        Option.map_eq_some_iff.mp ((Store.rewrites_of_deactivate h).same.symm.trans hRow)
      exact ⟨rfl, rfl⟩
  | delete gone =>
      have hNone := ((Store.drops_of_deleteEntry h).row?_eq gone).trans (if_pos rfl)
      cases hNone.symm.trans hRow

/-- A row is gone only if it was deleted. -/
theorem isSome_row? {name : String} (h : deed.apply s = .ok t) (hKept : deed ≠ .delete name)
    (hRow : (s.row? name).isSome = true) : (t.row? name).isSome = true := by
  by_cases hName : name = deed.name
  · subst hName
    cases deed with
    | insert e => rw [(Store.gains_of_insertEntry h).row?_eq, name, if_pos rfl, Option.isSome_some]
    | write update => exact ((Store.rewrites_of_writeUpdate h).isSome_row? _).trans hRow
    | deactivate => exact ((Store.rewrites_of_deactivate h).isSome_row? _).trans hRow
    | delete => exact absurd rfl hKept
  · rwa [row?_of_ne h hName]

/-- No deed moves the counter of an entry that stays. -/
theorem nextTaskId_of_apply {name : String} {row : EntryRow} (h : deed.apply s = .ok t)
    (hRow : t.row? name = some row) :
    (∃ old, s.row? name = some old ∧ row.nextTaskId = old.nextTaskId) ∨
      ∃ e, deed = .insert e ∧ name = e.name ∧ s.row? name = none ∧ row = .ofEntry e := by
  by_cases hName : name = deed.name
  · subst hName
    cases deed with
    | insert e =>
        have hGains := Store.gains_of_insertEntry h
        have hNew := (hGains.row?_eq e.name).trans (if_pos rfl)
        exact .inr ⟨e, rfl, rfl, hGains.absent, Option.some.inj (hRow.symm.trans hNew)⟩
    | write update =>
        obtain ⟨old, hOld, rfl⟩ :=
          Option.map_eq_some_iff.mp ((Store.rewrites_of_writeUpdate h).same.symm.trans hRow)
        exact .inl ⟨old, hOld, rfl⟩
    | deactivate =>
        obtain ⟨old, hOld, rfl⟩ :=
          Option.map_eq_some_iff.mp ((Store.rewrites_of_deactivate h).same.symm.trans hRow)
        exact .inl ⟨old, hOld, rfl⟩
    | delete gone =>
        have hNone := ((Store.drops_of_deleteEntry h).row?_eq gone).trans (if_pos rfl)
        cases hNone.symm.trans hRow
  · exact .inl ⟨row, (row?_of_ne h hName).symm.trans hRow, rfl⟩

/-- Results are dropped only with their entry. -/
theorem results_eq (h : deed.apply s = .ok t) (hKept : ∀ name, deed ≠ .delete name) :
    t.results = s.results := by
  cases deed with
  | insert e => exact (Store.gains_of_insertEntry h).results_eq
  | write update => exact (Store.rewrites_of_writeUpdate h).results_eq
  | deactivate => exact (Store.rewrites_of_deactivate h).results_eq
  | delete name => exact absurd rfl (hKept name)

/-- The results of an entry that is not deleted stay as they are. -/
theorem result?_of_kept {key : ResultKey} (h : deed.apply s = .ok t) (hKept : deed ≠ .delete key.entryName) :
    t.result? key = s.result? key := by
  by_cases hAny : ∀ name, deed ≠ .delete name
  · exact Store.result?_congr (results_eq h hAny) key
  · obtain ⟨gone, rfl⟩ : ∃ gone, deed = .delete gone := by simpa using hAny
    refine ((Store.drops_of_deleteEntry h).result?_eq key).trans (if_neg fun hSame => hKept ?_)
    rw [hSame]

/-- No deed takes the table of results away. -/
theorem isSome_results (h : deed.apply s = .ok t) : t.results.isSome = s.results.isSome := by
  by_cases hKept : ∀ name, deed ≠ .delete name
  · rw [results_eq h hKept]
  · obtain ⟨gone, rfl⟩ : ∃ gone, deed = .delete gone := by simpa using hKept
    exact (Store.drops_of_deleteEntry h).isSome_results

/-- No deed brings results in. -/
theorem hasResult_of_apply {name : String} {id : TaskId} (h : deed.apply s = .ok t)
    (hResult : t.HasResult name id) : s.HasResult name id := by
  by_cases hKept : ∀ name, deed ≠ .delete name
  · exact (Store.hasResult_congr (results_eq h hKept)).mp hResult
  · obtain ⟨gone, rfl⟩ : ∃ gone, deed = .delete gone := by simpa using hKept
    rw [Store.HasResult, (Store.drops_of_deleteEntry h).result?_eq] at hResult
    split at hResult
    · cases hResult
    · exact hResult

end Deed

/-! ### Changes of entries do not look at results -/

namespace Store

variable {s t : Store}

/-- The entries of one store with the results of another. -/
def withResultsOf (s other : Store) : Store :=
  { s with results := other.results, resultNumbers := other.resultNumbers }

theorem eq_withResultsOf (h : t.entries = s.entries) : t = s.withResultsOf t := by
  obtain ⟨entries, results, numbers⟩ := t
  obtain rfl := h
  rfl

theorem getEntry_congr (h : t.entries = s.entries) (name : String) : t.getEntry name = s.getEntry name := by
  rw [getEntry, entryRow, entryTable, h]
  rfl

theorem saveCursor_withResultsOf (s other : Store) (e : Entry) :
    (s.withResultsOf other).saveCursor e = (s.saveCursor e).map (·.withResultsOf other) := by
  obtain ⟨entries, results, numbers⟩ := s
  cases entries <;> rfl

end Store

theorem Deed.apply_withResultsOf {deed : Deed} (hKept : ∀ name, deed ≠ .delete name) (s other : Store) :
    deed.apply (s.withResultsOf other) = (deed.apply s).map (·.withResultsOf other) := by
  obtain ⟨entries, results, numbers⟩ := s
  cases deed with
  | delete name => exact absurd rfl (hKept name)
  | write => cases entries <;> rfl
  | insert e =>
      cases entries with
      | none => rfl
      | some table =>
          simp only [apply, Store.insertEntry, Store.entryTable, Store.withResultsOf, bind, Except.bind]
          cases table.contains e.name <;> rfl
  | deactivate name stamp =>
      cases entries with
      | none => rfl
      | some table =>
          simp only [apply, Store.deactivate, Store.entryRow, Store.entryTable, Store.withResultsOf, bind,
            Except.bind]
          cases table.find? name <;> rfl

end TickScheduler
