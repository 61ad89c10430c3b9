import Mathlib.Data.List.Perm.Basic
import Mathlib.Order.OrderDual
import TickScheduler.Proofs.Queue.Stock
/-!
The queue kept in a heap that hands out a greatest element, with the order of tasks turned round. Where the
heap puts what it holds, and which of several greatest elements it takes, is left open. Listing pops a copy
until it is empty, and cancelling looks through the items in the heap's own order, takes one out by putting
the last in its place, and builds the heap anew. Main statement: the queue is a multiset in the order of
tasks, whether it is kept sorted or in a heap (`TaskQueue.sorted_multiset`).
-/
namespace TickScheduler

/-- A heap of elements: what its operations do to the items in it. -/
structure Heap (α : Type) [LE α] where
  Carrier : Type
  /-- The items, in an order of the heap's own. -/
  items : Carrier → List α
  ofList : List α → Carrier
  push : α → Carrier → Carrier
  peek? : Carrier → Option α
  pop? : Carrier → Option (α × Carrier)
  items_ofList (xs : List α) : (items (ofList xs)).Perm xs
  items_push (x : α) (h : Carrier) : (items (push x h)).Perm (x :: items h)
  items_of_peek?_none (h : Carrier) : peek? h = none → items h = []
  greatest_of_peek?_some (h : Carrier) (x : α) : peek? h = some x → x ∈ items h ∧ ∀ y ∈ items h, y ≤ x
  items_of_pop?_none (h : Carrier) : pop? h = none → items h = []
  items_of_pop?_some (h : Carrier) (x : α) (rest : Carrier) :
    pop? h = some (x, rest) → (items h).Perm (x :: items rest)
  greatest_of_pop?_some (h : Carrier) (x : α) (rest : Carrier) :
    pop? h = some (x, rest) → ∀ y ∈ items h, y ≤ x

/-- Takes the item at an index out of a list and puts the last one there. -/
def swapRemove {α : Type} (xs : List α) (index : Nat) : List α :=
  match xs.getLast? with
  | none => []
  | some last => (xs.set index last).dropLast

theorem perm_swapRemove {α : Type} {xs : List α} {index : Nat} (hIndex : index < xs.length) :
    xs.Perm (xs[index] :: swapRemove xs index) := by
  refine (List.getElem_cons_eraseIdx_perm hIndex).symm.trans (List.Perm.cons _ ?_)
  obtain rfl | ⟨init, last, rfl⟩ := List.eq_nil_or_concat' xs
  · simp at hIndex
  obtain hInit | rfl : index < init.length ∨ index = init.length := by
    rw [List.length_append, List.length_singleton] at hIndex
    omega
  · have hSwap : swapRemove (init ++ [last]) index = init.set index last := by
      simp [swapRemove, List.set_append_left _ _ hInit]
    rw [hSwap, List.eraseIdx_append_of_lt_length hInit]
    exact (List.perm_append_singleton _ _).trans (List.set_perm_cons_eraseIdx hInit last).symm
  · simp [swapRemove, List.eraseIdx_append_of_length_le]

namespace Heap

open TaskQueue OrderDual

variable (H : Heap Taskᵒᵈ)

/-- Pops until nothing is left. -/
def drain (h : H.Carrier) : List Task :=
  match hPop : H.pop? h with
  | none => []
  | some (task, rest) =>
      have : (H.items rest).length < (H.items h).length := by
        simp [(H.items_of_pop?_some h task rest hPop).length_eq]
      ofDual task :: drain rest
termination_by (H.items h).length

/-- Removes one task equal to the given one, and tells whether there was one. -/
def cancel (h : H.Carrier) (task : Task) : Bool × H.Carrier :=
  let items := H.items h
  match items.findIdx? (fun item => ofDual item == task) with
  | some index => (true, H.ofList (swapRemove items index))
  | none => (false, H.ofList items)

/-- The calls of a queue as they are answered over a heap. -/
def keeper : Keeper H.Carrier where
  start tasks := H.ofList (tasks.map toDual)
  answer
    | .enter time priority action entryName taskId, h =>
        (.done, H.push (toDual { time, priority, action, entryName, taskId }) h)
    | .push task, h => (.done, H.push (toDual task) h)
    | .pop, h =>
        match H.pop? h with
        | none => (.task none, h)
        | some (task, rest) => (.task (some (ofDual task)), rest)
    | .peek, h => (.task ((H.peek? h).map ofDual), h)
    | .cancel task, h =>
        let (found, rest) := H.cancel h task
        (.found found, rest)
    | .clear, _ => (.done, H.ofList [])
    | .toList, h => (.tasks (H.drain h), h)

/-- The tasks in a heap. -/
def held (h : H.Carrier) : Multiset Task := (H.items h).map ofDual

variable {H}

theorem held_ofList (items : List Taskᵒᵈ) : H.held (H.ofList items) = items.map ofDual :=
  Multiset.coe_eq_coe.mpr ((H.items_ofList items).map ofDual)

theorem held_push (task : Task) (h : H.Carrier) : H.held (H.push (toDual task) h) = task ::ₘ H.held h :=
  Multiset.coe_eq_coe.mpr ((H.items_push (toDual task) h).map ofDual)

theorem held_eq_zero {h : H.Carrier} (hItems : H.items h = []) : H.held h = 0 := by simp [held, hItems]

theorem held_of_pop? {h rest : H.Carrier} {task : Taskᵒᵈ} (hPop : H.pop? h = some (task, rest)) :
    H.held h = ofDual task ::ₘ H.held rest :=
  Multiset.coe_eq_coe.mpr ((H.items_of_pop?_some h task rest hPop).map ofDual)

theorem mem_held {h : H.Carrier} {task : Task} : task ∈ H.held h ↔ toDual task ∈ H.items h := by
  simp [held]

/-- The greatest item under the order turned round is the first task. -/
theorem first_le_of_greatest {h : H.Carrier} {task : Taskᵒᵈ} (hGreatest : ∀ other ∈ H.items h, other ≤ task) :
    ∀ other ∈ H.held h, ofDual task ≤ other :=
  fun _ hOther => hGreatest _ (mem_held.mp hOther)

theorem sort_held_of_pop? {h rest : H.Carrier} {task : Taskᵒᵈ} (hPop : H.pop? h = some (task, rest)) :
    (H.held h).sort = ofDual task :: (H.held rest).sort := by
  have hFirst := first_le_of_greatest (H.greatest_of_pop?_some h task rest hPop)
  rw [held_of_pop? hPop] at hFirst ⊢
  exact Multiset.sort_cons _ _ _ fun other hOther => hFirst other (Multiset.mem_cons_of_mem hOther)

theorem peek?_eq (h : H.Carrier) : (H.peek? h).map ofDual = (H.held h).sort.head? := by
  cases hPeek : H.peek? h with
  | none => simp [held_eq_zero (H.items_of_peek?_none h hPeek)]
  | some task =>
      obtain ⟨hMem, hGreatest⟩ := H.greatest_of_peek?_some h task hPeek
      have hHeld : ofDual task ∈ H.held h := mem_held.mpr hMem
      obtain ⟨others, hOthers⟩ := Multiset.exists_cons_of_mem hHeld
      have hFirst := first_le_of_greatest hGreatest
      rw [hOthers] at hFirst ⊢
      rw [Multiset.sort_cons _ _ _ fun other hOther => hFirst other (Multiset.mem_cons_of_mem hOther)]
      rfl

theorem drain_eq (h : H.Carrier) : H.drain h = (H.held h).sort := by
  fun_induction drain H h with
  | case1 h hPop => simp [held_eq_zero (H.items_of_pop?_none h hPop)]
  | case2 h task rest hPop _ ih => rw [sort_held_of_pop? hPop, ih]

/-- Cancelling takes one copy out or finds none. -/
theorem cancel_cases (h : H.Carrier) (task : Task) :
    (∃ rest, H.cancel h task = (true, H.ofList rest) ∧ (H.items h).Perm (toDual task :: rest)) ∨
      H.cancel h task = (false, H.ofList (H.items h)) ∧ toDual task ∉ H.items h := by
  cases hIndex : (H.items h).findIdx? (fun item => ofDual item == task) with
  | some index =>
      obtain ⟨hLess, hFound, -⟩ := List.findIdx?_eq_some_iff_getElem.mp hIndex
      refine .inl ⟨swapRemove (H.items h) index, by simp only [cancel, hIndex], ?_⟩
      rw [← eq_of_beq hFound]
      exact perm_swapRemove hLess
  | none =>
      refine .inr ⟨by simp only [cancel, hIndex], fun hMem => ?_⟩
      simpa using List.findIdx?_eq_none_iff.mp hIndex _ hMem

theorem cancel_fst (h : H.Carrier) (task : Task) : (H.cancel h task).1 = decide (task ∈ H.held h) := by
  rw [eq_comm, Bool.eq_iff_iff, decide_eq_true_iff, mem_held]
  obtain ⟨rest, hCancel, hPerm⟩ | ⟨hCancel, hMissing⟩ := cancel_cases h task
  · simp [hCancel, hPerm.mem_iff]
  · simp [hCancel, hMissing]

theorem held_cancel (h : H.Carrier) (task : Task) : H.held (H.cancel h task).2 = (H.held h).erase task := by
  obtain ⟨rest, hCancel, hPerm⟩ | ⟨hCancel, hMissing⟩ := cancel_cases h task
  · have hHeld : H.held h = task ::ₘ rest.map ofDual := Multiset.coe_eq_coe.mpr (hPerm.map ofDual)
    rw [hCancel, held_ofList, hHeld, Multiset.erase_cons_head]
  · rw [hCancel, held_ofList, Multiset.erase_of_notMem (mem_held.not.mpr hMissing)]
    rfl

theorem keepsStock : H.keeper.KeepsStock H.held where
  held_start tasks := by
    rw [keeper, held_ofList, List.map_map]
    exact congrArg _ (List.map_id tasks)
  reply call h := by
    cases call with
    | enter | push | clear => rfl
    | pop =>
        rw [demanded, keeper]
        cases hPop : H.pop? h with
        | none => simp [hPop, held_eq_zero (H.items_of_pop?_none h hPop)]
        | some popped => simp [hPop, sort_held_of_pop? hPop]
    | peek => exact congrArg Reply.task (peek?_eq h)
    | cancel task => exact congrArg Reply.found (cancel_fst h task)
    | toList => exact congrArg Reply.tasks (drain_eq h)
  held_after call h := by
    cases call with
    | enter | push => exact held_push _ h
    | clear => exact held_ofList []
    | peek | toList => rfl
    | pop =>
        rw [keeper]
        cases hPop : H.pop? h with
        | none => simp [hPop, restock]
        | some popped => simp [hPop, restock, held_of_pop? hPop]
    | cancel task =>
        have hFound := cancel_fst h task
        change H.held (H.cancel h task).2 = restock (H.held h) (.cancel task, .found (H.cancel h task).1)
        rw [held_cancel, hFound]
        by_cases hMem : task ∈ H.held h
        · simp [restock, hMem]
        · simp [restock, hMem, Multiset.erase_of_notMem]

/-- Tasks in the order in which they came, looked through for the first one. -/
def bag : Heap Taskᵒᵈ where
  Carrier := List Task
  items := List.map toDual
  ofList := List.map ofDual
  push item tasks := ofDual item :: tasks
  peek? tasks := (TaskQueue.ofList tasks).peek?.map toDual
  pop? tasks := (TaskQueue.ofList tasks).peek?.map fun task => (toDual task, tasks.erase task)
  items_ofList _ := by simp
  items_push _ _ := by simp
  items_of_peek?_none tasks hPeek := by simp [eq_nil_of_peek? (Option.map_eq_none_iff.mp hPeek)]
  greatest_of_peek?_some tasks item hPeek := by
    obtain ⟨task, hFirst, rfl⟩ := Option.map_eq_some_iff.mp hPeek
    exact ⟨List.mem_map_of_mem (mem_of_peek? hFirst), List.forall_mem_map.mpr (le_of_peek? hFirst)⟩
  items_of_pop?_none tasks hPop := by simp [eq_nil_of_peek? (Option.map_eq_none_iff.mp hPop)]
  items_of_pop?_some tasks item rest hPop := by
    obtain ⟨task, hPeek, ⟨⟩⟩ := Option.map_eq_some_iff.mp hPop
    exact (List.perm_cons_erase (mem_of_peek? hPeek)).map toDual
  greatest_of_pop?_some tasks item rest hPop := by
    obtain ⟨task, hPeek, ⟨⟩⟩ := Option.map_eq_some_iff.mp hPop
    exact List.forall_mem_map.mpr (le_of_peek? hPeek)

end Heap

namespace TaskQueue

/-- The queue is a multiset in the order of tasks, which is the order of their keys and in which only equal
tasks compare equal. Whatever is entered, pushed, popped, peeked at, cancelled, cleared and listed, every
reply is the one that the tasks then left demand, over any heap and in the queue kept sorted. The list of
the queue is what is left, sorted; popping as often as it is long hands out that list; and two histories
lead to the same list exactly if they leave the same tasks, as many of each. -/
theorem sorted_multiset (H : Heap Taskᵒᵈ) (tasks : List Task) (calls : List Call) :
    let history := keeper.history tasks calls
    let queue := (keeper.run calls (keeper.start tasks)).2
    let left := stock tasks history
    (∀ a b : Task, (a < b ↔ a.key < b.key) ∧ (compare a b = .eq ↔ a = b)) ∧
      H.keeper.history tasks calls = history ∧
      Answered tasks history ∧
      queue.toList = left.sort ∧
      (keeper.run (List.replicate queue.toList.length .pop) queue).1 =
        queue.toList.map (fun task => (.pop, .task (some task))) ∧
      ∀ others more, (keeper.run more (keeper.start others)).2.toList = queue.toList ↔
        stock others (keeper.history others more) = left := by
  intro history queue left
  have hList (tasks : List Task) (calls : List Call) :
      (keeper.run calls (keeper.start tasks)).2.toList = (stock tasks (keeper.history tasks calls)).sort := by
    rw [← sort_contents, keepsStock.held_run, keepsStock.held_start]
    rfl
  refine ⟨fun a b => ⟨Task.key_lt_iff.symm, Task.compare_eq_iff⟩, ?_, ?_, hList tasks calls, ?_, ?_⟩
  · exact Heap.keepsStock.run_eq keepsStock calls (by rw [Heap.keepsStock.held_start, keepsStock.held_start])
  · have hAnswered := keepsStock.answered_run calls (keeper.start tasks)
    rwa [keepsStock.held_start] at hAnswered
  · exact keepsStock.pops (sort_contents queue)
  · intro others more
    rw [hList others more, hList tasks calls]
    refine ⟨fun h => ?_, congrArg _⟩
    rw [← Multiset.sort_eq left (· ≤ ·), ← h, Multiset.sort_eq]

theorem sorted_multiset_of_bag :
    let task (time : Tick) : Task :=
      { time, priority := 10, action := "beep", entryName := "patrol", taskId := none }
    let calls : List Call := [.cancel (task 1), .pop, .push (task 2), .peek, .cancel (task 1), .toList]
    Heap.bag.keeper.history [task 3, task 1, task 1] calls =
      calls.zip [.found true, .task (some (task 1)), .done, .task (some (task 2)), .found false,
        .tasks [task 2, task 3]] := by
  intro task calls
  refine (sorted_multiset Heap.bag _ calls).2.1.trans ?_
  have hStart : keeper.start = _ := ofList_eq
  rw [Keeper.history, hStart]
  decide +kernel

end TaskQueue

end TickScheduler
