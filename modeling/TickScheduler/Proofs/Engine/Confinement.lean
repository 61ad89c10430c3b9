import TickScheduler.Proofs.Engine.Watch
/-!
Where results can come from. A result is stored only for the task whose turn it is, or from the
background, for a task whose turn it was. So if both are confined to certain tasks, all results are.
-/
namespace TickScheduler

/-- A request that stores no result but of certain tasks. -/
def FinalRequest.Within (P : String → TaskId → Prop) : FinalRequest → Prop
  | .record result _ => P result.entryName result.taskId
  | .notify _ _ => True

variable {P Q : String → TaskId → Prop} {faulty : Prop}

theorem FinalRequest.within_of_closes {name : String} {id : TaskId} {keep : Nat} (h : P name id)
    {r : FinalRequest} (hCloses : r.Closes name id keep) : r.Within P := by
  cases r with
  | record result kept =>
      obtain ⟨rfl, rfl, -, -⟩ := hCloses
      exact h
  | notify => exact trivial

namespace Scene

variable {s t : Scene}

theorem hasResult_of_answersFinal {r : FinalRequest} {a : r.Answer} (hAnswer : AnswersFinal faulty r s a t)
    (hWithin : r.Within P) (h : ∀ name id, s.store.HasResult name id → P name id) {name : String}
    {id : TaskId} (hResult : t.store.HasResult name id) : P name id := by
  cases r with
  | record result keep =>
      rcases record_cases hAnswer with ⟨store, hStore, -, rfl⟩ | ⟨_, -, rfl⟩
      · obtain ⟨row, hRow⟩ := Option.isSome_iff_exists.mp hResult
        rcases (Store.records_of_recordResult hStore).source _ _ hRow with ⟨hKey, -⟩ | ⟨-, hOld⟩
        · obtain ⟨rfl, rfl⟩ := ResultKey.mk.inj hKey
          exact hWithin
        · exact h name id (Option.isSome_of_mem hOld)
      · exact h name id hResult
  | notify =>
      obtain rfl := hAnswer
      exact h name id hResult

end Scene

namespace Watched

variable {Memory : Type}

/-- Every result that is stored or may yet be stored is of certain tasks. -/
structure Confined (P : String → TaskId → Prop) (s : Watched Memory) : Prop where
  results : ∀ name id, s.scene.store.HasResult name id → P name id
  jobs : ∀ job ∈ s.scene.jobs, job.Asks (FinalRequest.Within P)
  current : ∀ τ headway id, s.course.current = some (τ, headway) → τ.taskId = some id →
    P τ.entryName id

variable {s t : Watched Memory} {w : Watch Memory} {setup : LoopSetup} {restoring : Prop}

theorem Confined.mono (hP : ∀ name id, P name id → Q name id) (h : s.Confined P) : s.Confined Q where
  results name id hResult := hP name id (h.results name id hResult)
  jobs job hJob := (h.jobs job hJob).mono fun r hWithin => by
    cases r with
    | record => exact hP _ _ hWithin
    | notify => exact trivial
  current τ headway id hCurrent hId := hP _ _ (h.current τ headway id hCurrent hId)

theorem Confined.and (h : s.Confined P) (hOther : s.Confined Q) :
    s.Confined fun name id => P name id ∧ Q name id where
  results name id hResult := ⟨h.results name id hResult, hOther.results name id hResult⟩
  jobs job hJob := ((h.jobs job hJob).and (hOther.jobs job hJob)).mono fun r hBoth => by
    cases r with
    | record => exact hBoth
    | notify => exact trivial
  current τ headway id hCurrent hId :=
    ⟨h.current τ headway id hCurrent hId, hOther.current τ headway id hCurrent hId⟩

/-- What the loop asks the store to record is of the task whose turn it is. -/
theorem Confined.within {r : FinalRequest} (hPermits : s.course.Permits setup restoring (.final r))
    (h : s.Confined P) : r.Within P := by
  obtain ⟨τ, id, hId, ⟨hCurrent, started, rfl⟩ | ⟨hCurrent, hCloses⟩⟩ := hPermits
  · exact h.current τ .found id hCurrent hId
  · exact FinalRequest.within_of_closes (h.current τ .called id hCurrent hId) hCloses

/-- The task whose turn it is after a request had its turn before, unless its entry was looked up. -/
private theorem current_of_hears {r : Request} {a : r.Answer}
    (hPermits : s.course.Permits setup restoring r) (hHears : w.Hears faulty r s a t)
    (hFound : ∀ τ id e, s.course.ready.head? = some τ → τ.taskId = some id →
      Scene.Answers faulty (.entry τ.entryName) s.scene (.ok e) t.scene → P τ.entryName id)
    (h : s.Confined P) (τ : Task) (headway : Headway) (id : TaskId)
    (hCurrent : t.course.current = some (τ, headway)) (hId : τ.taskId = some id) :
    P τ.entryName id := by
  have hSame {f : Headway → Headway}
      (hMap : (s.course.current.map fun current => (current.1, f current.2)) = some (τ, headway)) :
      P τ.entryName id := by
    obtain ⟨⟨σ, before⟩, hBefore, hPair⟩ := Option.map_eq_some_iff.mp hMap
    obtain ⟨rfl, -⟩ := Prod.mk.inj hPair
    exact h.current σ before id hBefore hId
  rw [hHears.course_eq] at hCurrent
  cases r with
  | entry name =>
      obtain ⟨σ, rest, hReady, rfl, -⟩ := hPermits
      cases a with
      | ok e =>
          have hHead : s.course.ready.head? = some σ := by rw [hReady, List.head?_cons]
          simp only [Course.after, hHead, Option.map_some, Option.some.injEq, Prod.mk.injEq] at hCurrent
          obtain ⟨rfl, -⟩ := hCurrent
          exact hFound σ id e hHead hId hHears.answer
      | error e =>
          cases e with
          | entryNotFound => exact h.current τ headway id hCurrent hId
          | _ => cases hCurrent
  | final r =>
      cases r with
      | record result keep =>
          cases a with
          | ok => exact hSame hCurrent
          | error e => cases hCurrent
      | notify => exact h.current τ headway id hCurrent hId
  | call σ i => exact hSame (f := fun _ => .called) hCurrent
  | saveCursor e =>
      cases a with
      | ok =>
          rw [Course.after] at hCurrent
          split at hCurrent <;> exact h.current τ headway id hCurrent hId
      | error e => cases hCurrent
  | activeEntries | lastTaskId =>
      cases a with
      | ok => first | cases hCurrent | exact h.current τ headway id hCurrent hId
      | error e => cases hCurrent
  | spawn | countOutcome | setIdle => cases hCurrent
  | _ => exact h.current τ headway id hCurrent hId

/-- Whatever the loop asks for, results stay confined if the task whose turn it comes to be is. -/
theorem Confined.hears {r : Request} {a : r.Answer} (hPermits : s.course.Permits setup restoring r)
    (hHears : w.Hears faulty r s a t)
    (hFound : ∀ τ id e, s.course.ready.head? = some τ → τ.taskId = some id →
      Scene.Answers faulty (.entry τ.entryName) s.scene (.ok e) t.scene → P τ.entryName id)
    (h : s.Confined P) : t.Confined P where
  results name id hResult := by
    by_cases hFinal : ∃ r', r = .final r'
    · obtain ⟨r', rfl⟩ := hFinal
      exact Scene.hasResult_of_answersFinal hHears.answer (h.within hPermits) h.results hResult
    · have hSame := Scene.results_of_answers hHears.answer (not_exists.mp hFinal)
      exact h.results name id ((Store.hasResult_congr hSame).mp hResult)
  jobs := by
    by_cases hSpawn : ∃ job, r = .spawn job
    · obtain ⟨job, rfl⟩ := hSpawn
      obtain ⟨τ, id, hCurrent, hId, hAsks⟩ := hPermits
      have hScene : t.scene = { s.scene with jobs := s.scene.jobs ++ [job.program] } := hHears.answer
      rw [hScene]
      refine List.forall_mem_append.mpr ⟨h.jobs, List.forall_mem_singleton.mpr (hAsks.mono fun r => ?_)⟩
      exact FinalRequest.within_of_closes (h.current τ .called id hCurrent hId)
    · rw [Scene.jobs_of_answers hHears.answer (not_exists.mp hSpawn)]
      exact h.jobs
  current := current_of_hears hPermits hHears hFound h

theorem Confined.elapses {scene : Scene} (hElapses : s.scene.Elapses faulty scene)
    (h : s.Confined P) : ({ s with scene } : Watched Memory).Confined P := by
  cases hElapses with
  | work hWorks =>
      cases hWorks with
      | @step u before after r next a hJobs hAnswer =>
          have hJob := h.jobs (.ask r next) (by rw [hJobs]; simp)
          refine ⟨fun name id hResult => ?_, fun job hMem => ?_, h.current⟩
          · exact Scene.hasResult_of_answersFinal hAnswer hJob.1 h.results hResult
          · have hOld := h.jobs
            rw [hJobs] at hOld
            rcases List.mem_append.mp hMem with hMem | hMem
            · exact hOld job (List.mem_append_left _ hMem)
            rcases List.mem_cons.mp hMem with rfl | hMem
            · exact hJob.2 a
            · exact hOld job (List.mem_append_right _ (List.mem_cons_of_mem _ hMem))
      | @finish before after result hJobs =>
          refine ⟨h.results, fun job hMem => h.jobs job ?_, h.current⟩
          rw [hJobs]
          rcases List.mem_append.mp hMem with hMem | hMem
          · exact List.mem_append_left _ hMem
          · exact List.mem_append_right _ (List.mem_cons_of_mem _ hMem)
  | age hAges =>
      obtain ⟨clock, -, rfl⟩ := hAges
      exact ⟨h.results, h.jobs, h.current⟩
  | stop => exact ⟨h.results, h.jobs, h.current⟩

/-- Deeds bring no results in. -/
theorem Confined.deed {deed : Deed} {store : Store} (hStore : deed.apply s.scene.store = .ok store)
    (memory : Memory) (h : s.Confined P) :
    (⟨{ s.scene with store }, s.course, memory⟩ : Watched Memory).Confined P :=
  ⟨fun name id hResult => h.results name id (Deed.hasResult_of_apply hStore hResult), h.jobs, h.current⟩

end Watched

end TickScheduler
