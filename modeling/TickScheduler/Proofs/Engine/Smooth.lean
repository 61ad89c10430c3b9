import TickScheduler.Engine.Run
import TickScheduler.Proofs.Engine.Parts
import TickScheduler.Proofs.Entry.Consumption
/-!
When everything goes smoothly: if no answer is a failure, the loop fails only where a tick or an id would
leave its 64 bits.
-/
namespace TickScheduler

/-- Whether an answer is no failure. It is none if an entry is not there any more, nor if a report is not
delivered. -/
def Request.succeeds : (r : Request) → r.Answer → Bool
  | .entry _, .error (.entryNotFound _) => true
  | .activeEntries, .error _ | .entry _, .error _ | .saveCursor _, .error _ | .lastTaskId _, .error _
  | .final (.record _ _), .error _ | .sleep, .error _ => false
  | _, _ => true

namespace Engine

/-- Nothing fails, and nothing else is minded. -/
def smooth : Discipline Request Request.Answer Unit where
  permits _ _ := True
  sensible r a := r.succeeds a = true
  after _ _ _ := ()

/-- How a part of the loop ends as long as nothing fails. -/
def EndsWith {α : Type} (post : α → Prop) : Except Failure α → Prop
  | .ok x => post x
  | .error e => e = .overflow

/-- As long as nothing fails, the part ends well or with an overflow. -/
def Endures {α : Type} (part : Engine α) (post : α → Prop) : Prop :=
  Program.Obeys smooth (fun result _ => EndsWith post result) (ExceptT.run part) ()

variable {α β : Type} {part : Engine α} {f : α → Engine β} {post : α → Prop} {last : β → Prop}

theorem endures_pure {x : α} (h : post x) : Endures (pure x) post :=
  h

theorem endures_overflow : Endures (ofExcept (.error .overflow)) post :=
  rfl

theorem Endures.bind (h : Endures part post) (hNext : ∀ x, post x → Endures (f x) last) :
    Endures (part >>= f) last :=
  obeys_bind h (fun x _ => hNext x) fun _ _ => id

theorem endures_ask {r : Request} {f : r.Answer → Engine β}
    (hNext : ∀ a, r.succeeds a = true → Endures (f a) last) : Endures (ask r >>= f) last :=
  ⟨trivial, hNext⟩

/-- A request whose answer may be an error. -/
theorem endures_try {r : Request} {read : r.Answer → Except Error α}
    (hRead : ∀ a e, r.succeeds a = true → read a ≠ .error e)
    (hNext : ∀ x, Endures (f x) last) : Endures ((ask r >>= fun a => check (read a)) >>= f) last := by
  rw [bind_assoc]
  refine endures_ask fun a hOk => ?_
  cases hAnswer : read a with
  | ok x => exact hNext x
  | error e => exact absurd hAnswer (hRead a e hOk)

theorem endures_finalise (job : Finalisation) : Endures (finalise job) fun _ => True := by
  refine ⟨trivial, fun stored hStored => ?_⟩
  cases stored with
  | error e => cases hStored
  | ok =>
      dsimp only
      cases job.receiver with
      | none => exact trivial
      | some url =>
          refine ⟨trivial, fun delivered _ => ?_⟩
          cases delivered with
          | ok => exact trivial
          | error e =>
              dsimp only
              by_cases hSuccess : job.result.status = .success
              · rw [if_pos hSuccess]
                refine ⟨trivial, fun rewritten hRewritten => ?_⟩
                cases rewritten with
                | ok => exact trivial
                | error e => cases hRewritten
              · rw [if_neg hSuccess]
                exact trivial

end Engine

open Engine (Endures endures_ask endures_try endures_pure endures_overflow)

/-- A look at the clock fails only where a tick or an id would leave its 64 bits, and its task has an id. -/
theorem Entry.endures_consume (e : Entry) (now : Tick) :
    Endures (Engine.ofExcept (e.consume now)) fun consumed =>
      ∀ τ, consumed.1 = some τ → τ.taskId.isSome = true := by
  cases hHorizon : Tick.succ? now with
  | none =>
      have hConsume : e.consume now = .error .overflow := by
        simp [consume, takePending, hHorizon, bind, Except.bind]
      rw [hConsume]
      exact endures_overflow
  | some horizon =>
      rw [consume_eq hHorizon]
      cases e.latestBefore horizon with
      | none => rintro τ ⟨⟩
      | some last =>
          cases Tick.succ? e.nextTaskId with
          | none => exact endures_overflow
          | some next =>
              rintro τ ⟨⟩
              rfl

namespace Pass

variable {setup : LoopSetup}

theorem endures_collect (entries : List Entry) :
    Endures (collect entries) fun collected => ∀ τ ∈ collected.1, τ.taskId.isSome = true := by
  induction entries with
  | nil => exact endures_pure (List.forall_mem_nil _)
  | cons e rest ih =>
      unfold collect
      refine endures_ask fun now _ => (e.endures_consume now).bind fun consumed hId => ?_
      refine endures_try (fun a e hOk => by rintro rfl; cases hOk) fun _ => ih.bind fun others hIds => ?_
      refine endures_pure (List.forall_mem_append.mpr ⟨fun τ hτ => ?_, hIds⟩)
      exact hId τ (Option.mem_toList.mp hτ)

theorem endures_runTask {τ : Task} (hId : τ.taskId.isSome = true) :
    Endures (runTask setup τ) fun _ => True := by
  unfold runTask
  split
  · rename_i hNone
    simp [hNone] at hId
  · refine endures_ask fun answer hAnswer => ?_
    cases answer with
    | error e => cases e <;> first | exact trivial | cases hAnswer
    | ok entry =>
        dsimp only
        refine endures_ask fun started _ => ?_
        refine endures_try (fun a e hOk => by rintro rfl; cases hOk) fun _ => ?_
        refine endures_ask fun outcome _ => endures_ask fun finished _ => endures_ask fun _ _ => ?_
        split
        · exact endures_ask fun _ _ => endures_pure trivial
        · exact (Engine.endures_finalise _).bind fun _ _ => endures_pure trivial

theorem endures_runTasks {tasks : List Task} (hIds : ∀ τ ∈ tasks, τ.taskId.isSome = true) :
    Endures (runTasks setup tasks) fun _ => True := by
  induction tasks with
  | nil => exact trivial
  | cons τ rest ih =>
      obtain ⟨hId, hIds⟩ := List.forall_mem_cons.mp hIds
      unfold runTasks
      refine (endures_runTask hId).bind fun status _ => ?_
      cases status with
      | none => exact ih hIds
      | some status =>
          refine endures_ask fun failures _ => ?_
          split
          · exact ⟨trivial, fun _ _ => trivial⟩
          · exact ih hIds

theorem endures_passOver (entries : List Entry) : Endures (passOver setup entries) fun _ => True := by
  unfold passOver
  split
  · exact endures_ask fun _ _ => ⟨trivial, fun _ _ => trivial⟩
  · refine endures_ask fun _ _ => (endures_collect _).bind fun collected hIds => ?_
    refine endures_ask fun now _ => endures_ask fun _ _ => endures_runTasks fun τ hτ => hIds τ ?_
    exact TaskQueue.mem_ofList.mp hτ

end Pass

namespace Run

theorem endures_restoreTaskIds (entries : List Entry) : Endures (restoreTaskIds entries) fun _ => True := by
  induction entries with
  | nil => exact trivial
  | cons e rest ih =>
      unfold restoreTaskIds
      refine endures_try (fun a e hOk => by rintro rfl; cases hOk) fun last => ?_
      cases last with
      | none => exact ih
      | some last =>
          dsimp only
          split
          · exact endures_overflow
          · split
            · exact endures_try (fun a e hOk => by rintro rfl; cases hOk) fun _ => ih
            · exact ih

end Run

end TickScheduler
