import TickScheduler.Task
/-!
The queue of tasks: a multiset kept as its sorted list. Every operation keeps the list sorted, so
`toList` is the order in which repeated `pop?` hands the tasks out, and it depends on which tasks
are in the queue and not on how they came there.
-/
namespace TickScheduler

structure TaskQueue where
  /-- The tasks in the order in which they run. -/
  toList : List Task
  sorted : toList.Pairwise (· ≤ ·)
deriving Repr

namespace TaskQueue

/-- Puts a task before the first one that it may precede. -/
def insertSorted (task : Task) : List Task → List Task
  | [] => [task]
  | head :: rest => if task ≤ head then task :: head :: rest else head :: insertSorted task rest

theorem mem_insertSorted {task other : Task} {tasks : List Task} :
    other ∈ insertSorted task tasks ↔ other = task ∨ other ∈ tasks := by
  induction tasks with
  | nil => simp [insertSorted]
  | cons head rest ih =>
    unfold insertSorted
    split
    · simp
    · simp only [List.mem_cons, ih]
      grind

theorem perm_insertSorted (task : Task) (tasks : List Task) :
    (insertSorted task tasks).Perm (task :: tasks) := by
  induction tasks with
  | nil => exact .refl _
  | cons head rest ih =>
    unfold insertSorted
    split
    · exact .refl _
    · exact (ih.cons head).trans (.swap task head rest)

theorem pairwise_insertSorted {task : Task} {tasks : List Task} (h : tasks.Pairwise (· ≤ ·)) :
    (insertSorted task tasks).Pairwise (· ≤ ·) := by
  induction tasks with
  | nil => simp [insertSorted]
  | cons head rest ih =>
    obtain ⟨first, tail⟩ := List.pairwise_cons.mp h
    unfold insertSorted
    split
    · rename_i before
      refine List.pairwise_cons.mpr ⟨fun other member => ?_, h⟩
      rcases List.mem_cons.mp member with rfl | member
      · exact before
      · exact Task.le_trans before (first other member)
    · rename_i after
      refine List.pairwise_cons.mpr ⟨fun other member => ?_, ih tail⟩
      rcases mem_insertSorted.mp member with rfl | member
      · exact (Task.le_total head other).resolve_right after
      · exact first other member

def empty : TaskQueue := ⟨[], .nil⟩

instance : Inhabited TaskQueue := ⟨empty⟩

instance : DecidableEq TaskQueue := fun a b =>
  if h : a.toList = b.toList then
    isTrue (by cases a; cases b; cases h; rfl)
  else isFalse (fun e => h (congrArg toList e))

/-- Whether one task may run before another, as a test. -/
def mayPrecede (a b : Task) : Bool := (compare a b).isLE

theorem mayPrecede_trans (a b c : Task) :
    mayPrecede a b = true → mayPrecede b c = true → mayPrecede a c = true :=
  Task.le_trans

theorem mayPrecede_total (a b : Task) : (mayPrecede a b || mayPrecede b a) = true :=
  Bool.or_eq_true_iff.mpr (Task.le_total a b)

/-- The queue that holds exactly the tasks of a list. -/
def ofList (tasks : List Task) : TaskQueue where
  toList := tasks.mergeSort mayPrecede
  sorted := List.pairwise_mergeSort mayPrecede_trans mayPrecede_total tasks

theorem perm_ofList (tasks : List Task) : (ofList tasks).toList.Perm tasks :=
  List.mergeSort_perm tasks mayPrecede

theorem mem_ofList {tasks : List Task} {task : Task} : task ∈ (ofList tasks).toList ↔ task ∈ tasks :=
  (perm_ofList tasks).mem_iff

def size (q : TaskQueue) : Nat := q.toList.length

def isEmpty (q : TaskQueue) : Bool := q.toList.isEmpty

/-- Adds one task. -/
def push (q : TaskQueue) (task : Task) : TaskQueue :=
  ⟨insertSorted task q.toList, pairwise_insertSorted q.sorted⟩

/-- The task that `pop?` would take. -/
def peek? (q : TaskQueue) : Option Task :=
  q.toList.head?

/-- Takes the first task off. -/
def pop? (q : TaskQueue) : Option (Task × TaskQueue) :=
  match q with
  | ⟨[], _⟩ => none
  | ⟨task :: rest, sorted⟩ => some (task, ⟨rest, (List.pairwise_cons.mp sorted).2⟩)

/-- Removes one task equal to the given one, and tells whether there was one. -/
def cancel (q : TaskQueue) (task : Task) : Bool × TaskQueue :=
  (q.toList.contains task, ⟨q.toList.erase task, q.sorted.sublist List.erase_sublist⟩)

end TaskQueue

end TickScheduler
