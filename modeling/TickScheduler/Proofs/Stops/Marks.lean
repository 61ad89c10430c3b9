import TickScheduler.Proofs.Results.Lives
/-!
Rows of failures. Of what is said in a pass, the marks tell what happened to which task, and where the pass
was cut off. A task whose entry is gone is not executed, and neither counts nor ends a row. What a report
comes to does not matter: an action has succeeded or failed when it returns.
-/
namespace TickScheduler

/-- What happens to a task in its turn, or that all that would follow in the pass is cut off. -/
inductive Mark where
  /-- No entry of this name was there. -/
  | skipped (name : String)
  | executed (task : Task) (outcome : Outcome)
  /-- The loop asks for a stop. -/
  | cut
deriving DecidableEq, Repr

def Exchange.mark? : Exchange Request.Answer → Option Mark
  | ⟨.entry name, .error (.entryNotFound _)⟩ => some (.skipped name)
  | ⟨.call task _, outcome⟩ => some (.executed task outcome)
  | ⟨.stop, _⟩ => some .cut
  | _ => none

namespace Mark

/-- How an executed task ended: the verdict on its action. -/
def status? : Mark → Option TaskStatus
  | executed task outcome => some (outcome.verdict task.action).1
  | _ => none

/-- Whether a mark is about a task. -/
def IsOf : Mark → Task → Prop
  | skipped name, τ => name = τ.entryName
  | executed task _, τ => task = τ
  | cut, _ => False

def ofLog (log : List (Exchange Request.Answer)) : List Mark :=
  log.filterMap Exchange.mark?

def statuses (marks : List Mark) : List TaskStatus :=
  marks.filterMap status?

theorem ofLog_append (log more : List (Exchange Request.Answer)) :
    ofLog (log ++ more) = ofLog log ++ ofLog more :=
  List.filterMap_append

end Mark

/-- A request that neither belongs to the turn of a task nor asks for a stop. -/
def Request.IsUnmarked : Request → Prop
  | .entry _ | .call _ _ | .stop => False
  | _ => True

open Mark (ofLog statuses)

variable {setup : LoopSetup} {log : List (Exchange Request.Answer)}

theorem Mark.ofLog_eq_nil (h : ∀ x ∈ log, x.1.IsUnmarked) : ofLog log = [] := by
  refine List.filterMap_eq_nil_iff.mpr fun x hx => ?_
  obtain ⟨r, a⟩ := x
  have hUnmarked : r.IsUnmarked := h _ hx
  cases r <;> first | rfl | exact hUnmarked.elim

/-! ### Counting failures in a row -/

/-- The statuses end with so many failures, and with no more. -/
def EndsWithFailures (past : List TaskStatus) (count : Nat) : Prop :=
  ∀ n, List.replicate n .failure <:+ past ↔ n ≤ count

namespace EndsWithFailures

variable {past : List TaskStatus} {count : Nat}

theorem nil : EndsWithFailures [] 0 := by
  intro n
  rw [List.suffix_nil, List.replicate_eq_nil_iff, Nat.le_zero]

/-- One more failure makes the row longer, anything else ends it. -/
theorem concat (status : TaskStatus) (h : EndsWithFailures past count) :
    EndsWithFailures (past ++ [status]) (if status == .failure then count + 1 else 0) := by
  rintro (_ | n)
  · simp
  · have hLength : [TaskStatus.failure].length = [status].length := rfl
    rw [List.replicate_succ', List.suffix_append_inj_of_length_eq hLength, h n, List.singleton_inj]
    by_cases hFailed : status = .failure
    · simp [hFailed]
    · simp [hFailed, Ne.symm hFailed]

end EndsWithFailures

/-- As many as the limit have failed in a row. -/
def Trips (limit : Option Nat) (statuses : List TaskStatus) : Prop :=
  ∃ count ∈ limit, List.replicate count .failure <:+ statuses

theorem EndsWithFailures.trips_iff {past : List TaskStatus} {count : Nat} (h : EndsWithFailures past count)
    {limit : Option Nat} : Pass.trips limit count = true ↔ Trips limit past := by
  cases limit with
  | none => simp [Pass.trips, Trips]
  | some limit => simp [Pass.trips, Trips, h limit]

/-! ### One pass -/

/-- How a pass goes through its tasks if the tasks that were executed before have ended so. It breaks off
only if it fails. -/
inductive Goes (limit : Option Nat) (ended : Except Failure Unit) :
    List TaskStatus → List Task → List Mark → Prop where
  | finished (past : List TaskStatus) : Goes limit ended past [] []
  | failed {past : List TaskStatus} {tasks : List Task} (hEnded : ended ≠ .ok ()) : Goes limit ended past tasks []
  | skipped {past : List TaskStatus} {τ : Task} {tasks : List Task} {marks : List Mark}
      (rest : Goes limit ended past tasks marks) :
      Goes limit ended past (τ :: tasks) (.skipped τ.entryName :: marks)
  | tripped {past : List TaskStatus} {τ : Task} {tasks : List Task} {outcome : Outcome}
      (hTrips : Trips limit (past ++ [(outcome.verdict τ.action).1])) :
      Goes limit ended past (τ :: tasks) [.executed τ outcome, .cut]
  | executed {past : List TaskStatus} {τ : Task} {tasks : List Task} {marks : List Mark} {outcome : Outcome}
      (hGoesOn : ¬ Trips limit (past ++ [(outcome.verdict τ.action).1]))
      (rest : Goes limit ended (past ++ [(outcome.verdict τ.action).1]) tasks marks) :
      Goes limit ended past (τ :: tasks) (.executed τ outcome :: marks)

namespace Goes

variable {limit : Option Nat} {ended : Except Failure Unit} {past : List TaskStatus} {tasks : List Task}
  {marks : List Mark}

/-- The pass is cut off after an executed task, and then it is over. -/
theorem after_cut (h : Goes limit ended past tasks marks) {before after : List Mark}
    (hSplit : marks = before ++ .cut :: after) :
    after = [] ∧ ∃ earlier τ outcome, before = earlier ++ [.executed τ outcome] := by
  induction h generalizing before with
  | finished | failed => simp at hSplit
  | tripped =>
      obtain _ | ⟨first, more⟩ := before
      · cases hSplit
      · obtain ⟨rfl, hRest⟩ := List.cons.inj hSplit
        obtain _ | ⟨second, more⟩ := more
        · cases hRest
          exact ⟨rfl, [], _, _, rfl⟩
        · simp at hRest
  | skipped _ ih | executed _ _ ih =>
      obtain _ | ⟨first, more⟩ := before
      · cases hSplit
      · obtain ⟨rfl, hRest⟩ := List.cons.inj hSplit
        obtain ⟨hAfter, earlier, τ, outcome, rfl⟩ := ih hRest
        exact ⟨hAfter, _ :: earlier, τ, outcome, rfl⟩

/-- It is cut off after a task exactly if the row of failures that ends with this task is long enough. -/
theorem cut_iff (h : Goes limit ended past tasks marks) {before after : List Mark} {τ : Task}
    {outcome : Outcome} (hSplit : marks = before ++ .executed τ outcome :: after) :
    after = [.cut] ↔ Trips limit (past ++ statuses (before ++ [.executed τ outcome])) := by
  induction h generalizing before with
  | finished | failed => simp at hSplit
  | skipped _ ih =>
      obtain _ | ⟨first, more⟩ := before
      · cases hSplit
      · obtain ⟨rfl, hRest⟩ := List.cons.inj hSplit
        rw [ih hRest]
        rfl
  | tripped hTrips =>
      obtain _ | ⟨first, more⟩ := before
      · cases hSplit
        exact iff_of_true rfl hTrips
      · obtain ⟨-, hRest⟩ := List.cons.inj hSplit
        obtain _ | ⟨second, more⟩ := more <;> simp at hRest
  | @executed past _ _ _ _ hGoesOn rest ih =>
      obtain _ | ⟨first, more⟩ := before
      · cases hSplit
        refine iff_of_false (fun hCut => ?_) hGoesOn
        obtain ⟨-, earlier, _, _, hNone⟩ := rest.after_cut (hCut.trans (List.nil_append _).symm)
        simp at hNone
      · obtain ⟨rfl, hRest⟩ := List.cons.inj hSplit
        rw [ih hRest, List.append_assoc]
        rfl

/-- The tasks have their turn one after the other, all of them unless the pass is cut off or fails. -/
theorem served (h : Goes limit ended past tasks marks) :
    ∃ served left, tasks = served ++ left ∧ List.Forall₂ Mark.IsOf (marks.filter (· ≠ .cut)) served ∧
      (ended = .ok () → .cut ∉ marks → left = []) := by
  induction h with
  | finished => exact ⟨[], [], rfl, .nil, fun _ _ => rfl⟩
  | failed hEnded => exact ⟨[], _, rfl, .nil, fun hOk => absurd hOk hEnded⟩
  | tripped => exact ⟨[_], _, rfl, .cons rfl .nil, fun _ hNoCut => absurd (by simp) hNoCut⟩
  | skipped _ ih | executed _ _ ih =>
      obtain ⟨served, left, rfl, hServed, hLeft⟩ := ih
      refine ⟨_ :: served, left, rfl, .cons rfl hServed, fun hOk hNoCut => hLeft hOk ?_⟩
      exact fun hCut => hNoCut (List.mem_cons_of_mem _ hCut)

end Goes

/-! ### What is said about a task -/

theorem Request.OffTurn.isUnmarked {r : Request} (h : r.OffTurn) : r.IsUnmarked := by
  cases r <;> first | exact trivial | exact h.elim

theorem Mark.ofLog_of_error {name : String} {e : Error} (hFound : ∀ other, e ≠ .entryNotFound other) :
    ofLog [⟨.entry name, .error e⟩] = [] := by
  cases e with
  | entryNotFound other => exact absurd rfl (hFound other)
  | _ => rfl

theorem Finalisation.marks_exchanges (job : Finalisation) (delivery : Except Error Unit) :
    ofLog (job.exchanges delivery) = [] := by
  refine Mark.ofLog_eq_nil fun x hx => ?_
  simp only [Finalisation.exchanges, List.mem_append, List.mem_singleton, List.mem_map] at hx
  rcases hx with (rfl | ⟨url, -, rfl⟩) | hx
  · exact trivial
  · exact trivial
  · split at hx
    · obtain rfl := List.mem_singleton.mp hx
      exact trivial
    · cases hx

theorem Life.marks_turn (l : Life) : ofLog (l.turn setup) = [.executed l.task l.outcome] := by
  rw [Life.turn, Mark.ofLog_append]
  split
  · rfl
  · rw [Finalisation.marks_exchanges]
    rfl

end TickScheduler
