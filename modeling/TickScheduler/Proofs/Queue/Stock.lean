import Mathlib.Data.Multiset.Sort
import TickScheduler.Proofs.Queue.Order
import TickScheduler.TaskQueue
/-!
What a history of calls leaves in a queue: its stock, the tasks entered and not yet popped or cancelled,
each as often as it was entered. A keeper is anything that answers the calls of a queue; it keeps stock if
what it holds changes as the stock does and every reply is the one that the stock demands. Then it answers
every sequence of calls as any other keeper of stock does (`Keeper.KeepsStock.run_eq`).
-/
namespace TickScheduler

namespace TaskQueue

/-- A call of a queue. -/
inductive Call where
  | enter (time : Tick) (priority : Int32) (action entryName : String) (taskId : Option TaskId)
  | push (task : Task)
  | pop
  | peek
  | cancel (task : Task)
  | clear
  | toList
deriving DecidableEq, Repr

/-- What a call returns. -/
inductive Reply where
  | done
  | task (task : Option Task)
  | found (found : Bool)
  | tasks (tasks : List Task)
deriving DecidableEq, Repr

/-- The reply that a stock demands. -/
def demanded (stock : Multiset Task) : Call → Reply
  | .enter .. | .push _ | .clear => .done
  | .pop | .peek => .task stock.sort.head?
  | .cancel task => .found (task ∈ stock)
  | .toList => .tasks stock.sort

/-- What a call and its reply make of a stock. -/
def restock (stock : Multiset Task) : Call × Reply → Multiset Task
  | (.enter time priority action entryName taskId, _) =>
      { time, priority, action, entryName, taskId } ::ₘ stock
  | (.push task, _) => task ::ₘ stock
  | (.pop, .task (some task)) | (.cancel task, .found true) => stock.erase task
  | (.clear, _) => 0
  | _ => stock

/-- What is left of some tasks after a history of calls and their replies. -/
def stock (tasks : Multiset Task) (history : List (Call × Reply)) : Multiset Task :=
  history.foldl restock tasks

/-- Every call of a history has got the reply that the stock left by the calls before it demands. -/
def Answered (tasks : Multiset Task) (history : List (Call × Reply)) : Prop :=
  ∀ before call reply rest, history = before ++ (call, reply) :: rest →
    reply = demanded (stock tasks before) call

/-- Something that answers the calls of a queue. -/
structure Keeper (State : Type) where
  start : List Task → State
  answer : Call → State → Reply × State

namespace Keeper

variable {State Other : Type} (k : Keeper State)

/-- What comes of calls one after the other: what was asked and replied, and the last state. -/
def run : List Call → State → List (Call × Reply) × State
  | [], s => ([], s)
  | call :: rest, s =>
      let (reply, t) := k.answer call s
      let (history, last) := run rest t
      ((call, reply) :: history, last)

theorem run_cons (call : Call) (rest : List Call) (s : State) :
    k.run (call :: rest) s =
      ((call, (k.answer call s).1) :: (k.run rest (k.answer call s).2).1,
        (k.run rest (k.answer call s).2).2) :=
  rfl

/-- What was asked and replied, from some tasks on. -/
def history (tasks : List Task) (calls : List Call) : List (Call × Reply) :=
  (k.run calls (k.start tasks)).1

/-- What is held changes as the stock does, and every reply is the one that it demands. -/
structure KeepsStock (k : Keeper State) (held : State → Multiset Task) : Prop where
  held_start (tasks : List Task) : held (k.start tasks) = tasks
  reply (call : Call) (s : State) : (k.answer call s).1 = demanded (held s) call
  held_after (call : Call) (s : State) :
    held (k.answer call s).2 = restock (held s) (call, (k.answer call s).1)

namespace KeepsStock

variable {k} {j : Keeper Other} {held : State → Multiset Task} {holds : Other → Multiset Task}

theorem held_run (hk : k.KeepsStock held) (calls : List Call) (s : State) :
    held (k.run calls s).2 = stock (held s) (k.run calls s).1 := by
  induction calls generalizing s with
  | nil => rfl
  | cons call rest ih =>
      rw [run_cons, stock, List.foldl_cons, ← hk.held_after call s]
      exact ih _

theorem answered_run (hk : k.KeepsStock held) (calls : List Call) (s : State) :
    Answered (held s) (k.run calls s).1 := by
  induction calls generalizing s with
  | nil => simp [Answered, run]
  | cons call rest ih =>
      rw [run_cons]
      rintro (_ | ⟨first, before⟩) asked reply later hSplit
      · obtain ⟨hHere, -⟩ := List.cons.inj hSplit
        obtain ⟨rfl, rfl⟩ := Prod.mk.inj hHere
        exact hk.reply call s
      · obtain ⟨rfl, hLater⟩ := List.cons.inj hSplit
        rw [stock, List.foldl_cons, ← hk.held_after call s]
        exact ih _ before asked reply later hLater

/-- Keepers of one stock reply alike. -/
theorem run_eq (hk : k.KeepsStock held) (hj : j.KeepsStock holds) (calls : List Call) {s : State}
    {t : Other} (hSame : held s = holds t) : (k.run calls s).1 = (j.run calls t).1 := by
  induction calls generalizing s t with
  | nil => rfl
  | cons call rest ih =>
      have hReply : (k.answer call s).1 = (j.answer call t).1 := by rw [hk.reply, hj.reply, hSame]
      have hAfter : held (k.answer call s).2 = holds (j.answer call t).2 := by
        rw [hk.held_after, hj.held_after, hReply, hSame]
      rw [run_cons, run_cons, hReply, ih hAfter]

/-- Popping as often as there are tasks hands them all out in their order. -/
theorem pops (hk : k.KeepsStock held) {tasks : List Task} {s : State} (hList : (held s).sort = tasks) :
    (k.run (List.replicate tasks.length .pop) s).1 = tasks.map (fun task => (.pop, .task (some task))) := by
  induction tasks generalizing s with
  | nil => rfl
  | cons task rest ih =>
      have hReply : (k.answer .pop s).1 = .task (some task) := by rw [hk.reply, demanded, hList]; rfl
      have hRest : (held (k.answer .pop s).2).sort = rest := by
        have hHeld : held s = task ::ₘ rest := by rw [← (held s).sort_eq (· ≤ ·), hList]; rfl
        have hSorted : (task :: rest).Pairwise (· ≤ ·) := hList ▸ (held s).pairwise_sort _
        rw [hk.held_after, hReply, restock, hHeld, Multiset.erase_cons_head, Multiset.coe_sort]
        exact List.mergeSort_of_pairwise (by simpa using (List.pairwise_cons.mp hSorted).2)
      rw [List.length_cons, List.replicate_succ, run_cons, hReply, List.map_cons, ih hRest]

end KeepsStock

end Keeper

/-! ### The queue -/

/-- The tasks of a queue. -/
def contents (q : TaskQueue) : Multiset Task := q.toList

theorem sort_contents (q : TaskQueue) : q.contents.sort = q.toList :=
  (Multiset.coe_eq_coe.mp (q.contents.sort_eq _)).eq_of_pairwise (fun _ _ _ _ => Task.le_antisymm)
    (q.contents.pairwise_sort _) q.sorted

theorem contents_ofList (tasks : List Task) : (ofList tasks).contents = tasks :=
  Multiset.coe_eq_coe.mpr (perm_ofList tasks)

theorem contents_push (q : TaskQueue) (task : Task) : (q.push task).contents = task ::ₘ q.contents :=
  Multiset.coe_eq_coe.mpr (perm_insertSorted task q.toList)

theorem eq_of_contents_eq {q r : TaskQueue} (h : q.contents = r.contents) : q = r := by
  have hList : q.toList = r.toList := by rw [← sort_contents, h, sort_contents]
  cases q
  cases r
  cases hList
  rfl

/-- Sorting tasks comes to the same as putting them into the queue one by one. -/
theorem ofList_eq : ofList = fun tasks => tasks.foldr (fun task queue => queue.push task) empty := by
  funext tasks
  apply eq_of_contents_eq
  induction tasks with
  | nil => exact contents_ofList []
  | cons task rest ih =>
      rw [List.foldr_cons, contents_push, ← ih, contents_ofList, contents_ofList]
      rfl

theorem mem_of_peek? {tasks : List Task} {task : Task} (hPeek : (ofList tasks).peek? = some task) :
    task ∈ tasks :=
  mem_ofList.mp (List.mem_of_mem_head? hPeek)

theorem le_of_peek? {tasks : List Task} {task : Task} (hPeek : (ofList tasks).peek? = some task) :
    ∀ other ∈ tasks, task ≤ other := by
  intro other hOther
  obtain ⟨rest, hList⟩ := List.head?_eq_some_iff.mp hPeek
  have hSorted := (ofList tasks).sorted
  rw [← mem_ofList, hList] at hOther
  rw [hList] at hSorted
  obtain rfl | hRest := List.mem_cons.mp hOther
  · exact (Task.le_total _ _).elim id id
  · exact (List.pairwise_cons.mp hSorted).1 other hRest

theorem eq_nil_of_peek? {tasks : List Task} (hPeek : (ofList tasks).peek? = none) : tasks = [] := by
  have hNone : (ofList tasks).toList = [] := List.head?_eq_none_iff.mp hPeek
  simpa [← mem_ofList, hNone] using List.eq_nil_iff_forall_not_mem (l := tasks)

/-- The calls as the queue answers them. -/
def keeper : Keeper TaskQueue where
  start := ofList
  answer
    | .enter time priority action entryName taskId, q =>
        (.done, q.push { time, priority, action, entryName, taskId })
    | .push task, q => (.done, q.push task)
    | .pop, q =>
        match q.pop? with
        | none => (.task none, q)
        | some (task, rest) => (.task (some task), rest)
    | .peek, q => (.task q.peek?, q)
    | .cancel task, q =>
        let (found, rest) := q.cancel task
        (.found found, rest)
    | .clear, _ => (.done, .empty)
    | .toList, q => (.tasks q.toList, q)

theorem keepsStock : keeper.KeepsStock contents where
  held_start := contents_ofList
  reply call q := by
    cases call with
    | enter | push | clear => rfl
    | pop =>
        rw [demanded, sort_contents]
        obtain ⟨_ | ⟨task, rest⟩, sorted⟩ := q <;> rfl
    | peek => rw [demanded, sort_contents]; rfl
    | cancel task => simp [demanded, keeper, cancel, contents]
    | toList => rw [demanded, sort_contents]; rfl
  held_after call q := by
    cases call with
    | enter | push => exact contents_push _ _
    | clear | peek | toList => rfl
    | pop => obtain ⟨_ | ⟨task, rest⟩, sorted⟩ := q <;> simp [keeper, pop?, restock, contents]
    | cancel task =>
        by_cases hHeld : task ∈ q.toList
        · simp [keeper, cancel, restock, contents, hHeld]
        · simp [keeper, cancel, restock, contents, hHeld, List.erase_of_not_mem]

end TaskQueue

end TickScheduler
