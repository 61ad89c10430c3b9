import TickScheduler.Proofs.Engine.Confinement
import TickScheduler.Proofs.Engine.Rehearsal
/-!
What is left of a deleted entry. A deletion takes the results of the entry with it, and nothing that starts
later brings any back. What is already under way does: whoever has looked an entry up stores the
result of its task, in the foreground or in the background, without looking again.
-/
namespace TickScheduler

namespace Watched

variable {Memory : Type}

/-- No task of the entry has its turn, and nothing in the background is about it. -/
def IsAtRest (name : String) (s : Watched Memory) : Prop :=
  (∀ τ headway, s.course.current = some (τ, headway) → τ.entryName ≠ name) ∧
    ∀ job ∈ s.scene.jobs, job.Asks (FinalRequest.Within fun other _ => other ≠ name)

end Watched

namespace Watch

/-- Remembers which entries were deleted and not inserted again since. If deletions may not overlap with
tasks, entries are deleted at rest only. -/
def deletions (overlap : Prop) : Watch (List String) where
  heard gone _ _ _ := gone
  seen
    | gone, .delete name => name :: gone
    | gone, .insert e => gone.filter (· ≠ e.name)
    | gone, _ => gone
  allows s
    | .delete name => overlap ∨ s.IsAtRest name
    | _ => True

/-- Entries that are gone have no row, and no result is or will be stored for them. -/
structure Buried (s : Watched (List String)) : Prop where
  absent : ∀ name ∈ s.memory, s.scene.store.row? name = none
  confined : s.Confined fun name _ => name ∉ s.memory

variable {overlap faulty : Prop} {s t : Watched (List String)} {setup : LoopSetup} {restoring : Prop}

theorem Buried.begin (scene : Scene) : Buried (.begin scene []) where
  absent := nofun
  confined :=
    { results := fun _ _ _ => List.not_mem_nil
      jobs := fun _ _ => .of_forall fun r => by cases r <;> simp [FinalRequest.Within, Watched.begin]
      current := nofun }

/-- The loop stores results of entries that it has found, and those are not gone. -/
theorem Buried.hears {r : Request} {a : r.Answer} (hPermits : s.course.Permits setup restoring r)
    (hHears : (deletions overlap).Hears faulty r s a t) (h : Buried s) : Buried t := by
  have hMemory : t.memory = s.memory := hHears.memory_eq
  refine ⟨fun name hName => ?_, ?_⟩
  · exact Scene.row?_eq_none_of_answers hHears.answer (h.absent name (hMemory ▸ hName))
  · rw [hMemory]
    refine h.confined.hears hPermits hHears fun τ id e _ _ hAnswer hGone => ?_
    obtain ⟨-, row, hRow⟩ := Scene.row_of_found hAnswer
    cases (h.absent _ hGone).symm.trans hRow

/-- An entry at rest can be deleted for good. -/
theorem Buried.delete {name : String} {store : Store} (hRest : s.IsAtRest name)
    (hStore : (Deed.delete name).apply s.scene.store = .ok store) (h : Buried s) :
    Buried ⟨{ s.scene with store }, s.course, name :: s.memory⟩ := by
  have hDrops := Store.drops_of_deleteEntry hStore
  have hConfined := h.confined.deed hStore (name :: s.memory)
  refine ⟨fun other hOther => ?_, fun other id hResult => ?_, fun job hJob => ?_,
    fun τ headway id hTurn hId => ?_⟩
  · by_cases hSame : other = name
    · exact (hDrops.row?_eq other).trans (if_pos hSame)
    · have hOld := (List.mem_cons.mp hOther).resolve_left hSame
      exact ((hDrops.row?_eq other).trans (if_neg hSame)).trans (h.absent other hOld)
  · refine List.not_mem_cons_of_ne_of_not_mem (fun hSame => ?_) (hConfined.results other id hResult)
    change (store.result? ⟨other, id⟩).isSome = true at hResult
    rw [hDrops.result?_eq, if_pos hSame] at hResult
    cases hResult
  · refine ((hConfined.jobs job hJob).and (hRest.2 job hJob)).mono fun r hBoth => ?_
    cases r with
    | record => exact List.not_mem_cons_of_ne_of_not_mem hBoth.2 hBoth.1
    | notify => exact trivial
  · have hOther := hRest.1 τ headway hTurn
    exact List.not_mem_cons_of_ne_of_not_mem hOther (hConfined.current τ headway id hTurn hId)

theorem Buried.passes (hOverlap : ¬ overlap) (hPasses : (deletions overlap).Passes faulty s t)
    (h : Buried s) : Buried t := by
  cases hPasses with
  | elapse hElapses =>
      refine ⟨fun name hName => ?_, h.confined.elapses hElapses⟩
      exact (Store.row?_congr hElapses.entries_eq name).trans (h.absent name hName)
  | @deed deed store hAllowed hStore =>
      cases deed with
      | insert e =>
          have hGains := Store.gains_of_insertEntry hStore
          refine ⟨fun name hName => ?_, ?_⟩
          · obtain ⟨hOld, hNe⟩ := List.mem_filter.mp hName
            exact ((hGains.row?_eq name).trans (if_neg (by simpa using hNe))).trans (h.absent name hOld)
          · exact (h.confined.deed hStore _).mono fun name _ hOld hNew => hOld (List.mem_filter.mp hNew).1
      | write | deactivate =>
          refine ⟨fun name hName => ?_, h.confined.deed hStore _⟩
          cases hRow : store.row? name with
          | none => rfl
          | some row =>
              rcases Deed.nextTaskId_of_apply hStore hRow with ⟨old, hOld, -⟩ | ⟨e, hInsert, -⟩
              · cases (h.absent name hName).symm.trans hOld
              · cases hInsert
      | delete name => exact h.delete (hAllowed.resolve_left hOverlap) hStore

/-! ### Results that come back -/

/-- An entry that runs at the first tick. -/
def job : Entry :=
  Draft.entryFrom ⟨"job", "act", none, some 1, none, false, none, none, none⟩ 1 none "then"

/-- A pass over this entry alone, whose action deletes it. -/
def selfDeletion : Watched (List String) :=
  (deletions True).rehearse (fun _ => .returned none) (fun task => [.delete task.entryName]) [.insert job]
    ((Duty.passes 1).program {}) (.begin { store := .empty, clock := 1 } [])

/-- The task stores its result after its entry was deleted. -/
theorem leads_selfDeletion (faulty : Prop) : Program.Leads ((deletions True).conduct faulty)
    ((Duty.passes 1).program {}) (.begin { store := .empty, clock := 1 } []) (.done ()) selfDeletion := by
  have hAllows (deed : Deed) (s : Watched (List String)) : (deletions True).allows s deed := by
    cases deed <;> simp [deletions]
  exact leads_rehearse (fun _ _ _ => trivial) _ (fun _ deed _ => hAllows deed)
    (fun deed _ => hAllows deed) _ _

theorem remains_selfDeletion : selfDeletion.memory = ["job"] ∧
    (selfDeletion.scene.store.result? ⟨"job", 1⟩).isSome = true := by
  decide +kernel

/-- A deleted entry has no results until it is inserted again, as long as no entry is deleted while a task
of it is under way. -/
theorem no_remains_iff (overlap : Prop) :
    (∀ (scene : Scene) (setup : LoopSetup) (duty : Duty) (rest : Program Request Request.Answer Unit)
      (t : Watched (List String)),
      Program.Leads ((deletions overlap).conduct True) (duty.program setup) (.begin scene []) rest t →
        ∀ name ∈ t.memory, ∀ id, ¬ t.scene.store.HasResult name id) ↔ ¬ overlap := by
  constructor
  · intro hAll hOverlap
    obtain rfl : overlap = True := eq_true hOverlap
    obtain ⟨hGone, hResult⟩ := remains_selfDeletion
    exact hAll _ _ _ _ _ (leads_selfDeletion True) "job" (hGone ▸ List.mem_singleton.mpr rfl) 1 hResult
  · intro hOverlap scene setup duty rest t hLeads name hName id hResult
    obtain ⟨hBuried, -⟩ := of_leads Buried (Buried.passes hOverlap)
      (fun hPermits _ => Buried.hears hPermits) hLeads duty.obeys_program .nil (Buried.begin scene)
    exact hBuried.confined.results name id hResult hName

/-- Even if nothing fails and nobody else is there, an entry that deletes itself leaves a result. -/
theorem remains_of_job_that_deletes_itself : ∃ scene t, Program.Leads ((deletions True).conduct False)
    ((Duty.passes 1).program {}) (.begin scene []) (.done ()) t ∧
      "job" ∈ t.memory ∧ t.scene.store.HasResult "job" 1 := by
  obtain ⟨hGone, hResult⟩ := remains_selfDeletion
  exact ⟨_, _, leads_selfDeletion False, hGone ▸ List.mem_singleton.mpr rfl, hResult⟩

end Watch

end TickScheduler
