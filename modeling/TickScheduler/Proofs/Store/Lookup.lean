import TickScheduler.Store
/-!
Tables seen through their keys. Every change of a table is a law about which row is found under which
key, so that no later proof looks at the order of the rows.
-/
namespace TickScheduler.Table

variable {Row Key : Type} [Ord Key] {key : Row → Key} [DecidableEq Key]

@[simp] theorem find?_empty (k : Key) : (empty : Table Row key).find? k = none := rfl

theorem key_of_find? {t : Table Row key} {k : Key} {row : Row} (h : t.find? k = some row) :
    key row = k := by
  simpa using List.find?_some h

theorem mem_of_find? {t : Table Row key} {k : Key} {row : Row} (h : t.find? k = some row) :
    row ∈ t.rows :=
  List.mem_of_find?_eq_some h

theorem find?_map (t : Table Row key) (change : Row → Row)
    (same : ∀ row, key (change row) = key row) (k : Key) :
    (t.map change same).find? k = (t.find? k).map change := by
  simp only [find?, map, List.find?_map, Function.comp_def, same]

/-- Changing the row of one key leaves the rows of all others alone. -/
theorem find?_modify (t : Table Row key) (k : Key) (change : Row → Row)
    (same : ∀ row, key (change row) = key row) (other : Key) :
    (t.modify k change same).find? other =
      if other = k then (t.find? other).map change else t.find? other := by
  unfold modify
  rw [find?_map]
  cases h : t.find? other with
  | none => simp
  | some row =>
      have hKey := key_of_find? h
      by_cases hk : other = k <;> simp [hKey, hk]

variable [Std.TransOrd Key]

omit [DecidableEq Key] in
private theorem key_ne_of_before {a b : Row} (before : compare (key a) (key b) = .lt) :
    key b ≠ key a := by
  intro h
  rw [h, Std.compare_self] at before
  cases before

omit [DecidableEq Key] in
/-- No two rows of a table have one key. -/
theorem eq_of_key_eq {t : Table Row key} {a b : Row} (ha : a ∈ t.rows) (hb : b ∈ t.rows)
    (h : key a = key b) : a = b := by
  obtain ⟨rows, sorted⟩ := t
  change a ∈ rows at ha
  change b ∈ rows at hb
  induction sorted with
  | nil => cases ha
  | cons first _ ih =>
      rcases List.mem_cons.mp ha with rfl | inA <;> rcases List.mem_cons.mp hb with rfl | inB
      · rfl
      · exact absurd h.symm (key_ne_of_before (first b inB))
      · exact absurd h (key_ne_of_before (first a inA))
      · exact ih inA inB

/-- Exactly the rows of a table are found, each under its key. -/
theorem find?_key_eq_some_iff {t : Table Row key} {row : Row} :
    t.find? (key row) = some row ↔ row ∈ t.rows := by
  refine ⟨mem_of_find?, fun member => ?_⟩
  cases h : t.find? (key row) with
  | none =>
      have hNone := List.find?_eq_none.mp h row member
      simp at hNone
  | some other => exact congrArg some (eq_of_key_eq (mem_of_find? h) member (key_of_find? h))

theorem find?_eq_some_iff {t : Table Row key} {k : Key} {row : Row} :
    t.find? k = some row ↔ row ∈ t.rows ∧ key row = k := by
  constructor
  · exact fun h => ⟨mem_of_find? h, key_of_find? h⟩
  · rintro ⟨member, rfl⟩
    exact find?_key_eq_some_iff.mpr member

theorem find?_filter (t : Table Row key) (keep : Row → Bool) (k : Key) :
    (t.filter keep).find? k = (t.find? k).filter keep := by
  ext row
  rw [find?_eq_some_iff, Option.filter_eq_some_iff, find?_eq_some_iff]
  simp only [filter, List.mem_filter]
  exact and_right_comm

variable [Std.LawfulEqOrd Key]

omit [DecidableEq Key] in
private theorem mem_putSorted {row other : Row} {rows : List Row}
    (sorted : rows.Pairwise fun a b => compare (key a) (key b) = .lt) :
    other ∈ putSorted key row rows ↔ other = row ∨ (other ∈ rows ∧ key other ≠ key row) := by
  induction sorted with
  | nil => simp [putSorted]
  | @cons head rest first _ ih =>
      have hHead : ∀ b ∈ rest, key b ≠ key head := fun b hb => key_ne_of_before (first b hb)
      unfold putSorted
      split
      · rename_i before
        -- the new row comes before every other one, so none of them has its key
        have hRest : ∀ b ∈ head :: rest, key b ≠ key row := by
          intro b hb
          rcases List.mem_cons.mp hb with rfl | hb
          · exact key_ne_of_before before
          · exact key_ne_of_before (Std.TransCmp.lt_trans before (first b hb))
        simp only [List.mem_cons] at hRest ⊢
        grind
      · rename_i same
        have hKey := Std.LawfulEqCmp.eq_of_compare same
        simp only [List.mem_cons]
        grind
      · rename_i after
        have hKey : key row ≠ key head := key_ne_of_before (Std.OrientedCmp.lt_of_gt after)
        simp only [List.mem_cons, ih]
        grind

theorem find?_put (t : Table Row key) (row : Row) (k : Key) :
    (t.put row).find? k = if k = key row then some row else t.find? k := by
  ext other
  rw [find?_eq_some_iff, put, mem_putSorted t.sorted]
  split
  · rename_i hk
    subst hk
    simp only [Option.some.injEq]
    grind
  · rw [find?_eq_some_iff]
    grind

end TickScheduler.Table
