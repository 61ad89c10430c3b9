import TickScheduler.Tick
/-!
A task is one run of an entry's action at one tick. Tasks have a total order, the order in which
they run: by time, then by priority value, and the remaining fields only break ties. Two tasks that
compare equal are the same task.
-/
namespace TickScheduler

/-- Numbers the tasks of one entry, from 1 upwards. -/
abbrev TaskId := Int64

structure Task where
  time : Tick
  /-- A lower value runs first among tasks of one tick. -/
  priority : Int32
  action : String
  entryName : String
  /-- `none` for a task that is only announced. -/
  taskId : Option TaskId
deriving DecidableEq, Repr

namespace Task

/-- Compares by time, priority, entry name, id (a missing one first) and action, in this order.
Names compare by code point, which is also the order of their UTF-8 bytes. -/
def order : Task → Task → Ordering :=
  compareLex (compareOn time) <| compareLex (compareOn priority) <|
    compareLex (compareOn entryName) <| compareLex (compareOn taskId) (compareOn action)

instance : Ord Task := ⟨order⟩

instance : Std.TransCmp order :=
  inferInstanceAs (Std.TransCmp (compareLex _ (compareLex _ (compareLex _ (compareLex _ _)))))

instance : Std.TransOrd Task := inferInstanceAs (Std.TransCmp order)

/-- Tasks that compare equal agree in every field. -/
theorem eq_of_order_eq {a b : Task} (h : order a b = .eq) : a = b := by
  simp only [order, compareLex_eq_eq, compareOn, Std.compare_eq_iff_eq] at h
  obtain ⟨ht, hp, hn, hi, ha⟩ := h
  cases a
  cases b
  simp_all

instance : Std.LawfulEqOrd Task where
  eq_of_compare := eq_of_order_eq

instance : LT Task := ltOfOrd
instance : LE Task := leOfOrd

instance (a b : Task) : Decidable (a < b) := inferInstanceAs (Decidable (compare a b = .lt))
instance (a b : Task) : Decidable (a ≤ b) := inferInstanceAs (Decidable ((compare a b).isLE))

theorem le_iff {a b : Task} : a ≤ b ↔ (compare a b).isLE = true := Iff.rfl

theorem le_trans {a b c : Task} (h : a ≤ b) (k : b ≤ c) : a ≤ c :=
  Std.TransOrd.isLE_trans h k

theorem le_total (a b : Task) : a ≤ b ∨ b ≤ a := by
  have swapped : compare b a = (compare a b).swap := Std.OrientedCmp.eq_swap
  rw [le_iff, le_iff, swapped]
  cases compare a b <;> simp

theorem le_antisymm {a b : Task} (h : a ≤ b) (k : b ≤ a) : a = b :=
  Std.LawfulEqCmp.eq_of_compare (Std.OrientedCmp.isLE_antisymm h k)

end Task

end TickScheduler
