import TickScheduler.Proofs.Engine.Course
import TickScheduler.Proofs.Engine.Parts
/-!
Finalisations at once instead of in the background. The loop is the same in both cases, but for the one
request that puts a finalisation into the background, in whose place there is the finalisation itself.
-/
namespace TickScheduler

/-- The same loop, with finalisations in the background or at once. -/
def LoopSetup.inBackground (setup : LoopSetup) (background : Bool) : LoopSetup :=
  { setup with callback := { setup.callback with asynchronous := background } }

/-- A request that is not about results and reports, and puts nothing into the background. -/
abbrev Request.LeavesResults (r : Request) : Prop :=
  (∀ r', r ≠ .final r') ∧ ∀ job, r ≠ .spawn job

namespace Program

variable {Result Other : Type}

/-- The second program does at once what the first one puts into the background, as long as it ends
well. -/
inductive Inlines : Program Request Request.Answer Result → Program Request Request.Answer Result → Prop where
  | done (result : Result) : Inlines (.done result) (.done result)
  | ask {r : Request} {next other : r.Answer → Program Request Request.Answer Result}
      (hOther : ∀ job, r ≠ .spawn job) (h : ∀ a, Inlines (next a) (other a)) :
      Inlines (.ask r next) (.ask r other)
  | spawn {job : Finalisation} {next : Unit → Program Request Request.Answer Result}
      {rest : Except Error Unit → Program Request Request.Answer Result}
      (h : Inlines (next ()) (rest (.ok ()))) :
      Inlines (.ask (.spawn job) next) ((job.program.embed .final fun _ => id).bind rest)

variable {p q : Program Request Request.Answer Result}

theorem Inlines.refl (h : p.Asks fun r => ∀ job, r ≠ .spawn job) : Inlines p p := by
  induction p with
  | done result => exact .done result
  | ask r next ih => exact .ask h.1 fun a => ih a (h.2 a)

theorem Inlines.bind {f g : Result → Program Request Request.Answer Other} (h : Inlines p q)
    (hNext : ∀ x, Inlines (f x) (g x)) : Inlines (p.bind f) (q.bind g) := by
  induction h with
  | done result => exact hNext result
  | ask hOther _ ih => exact .ask hOther ih
  | spawn _ ih =>
      rw [bind_assoc]
      exact .spawn ih

end Program

namespace Engine

variable {α β : Type}

/-- The same for parts of the loop. -/
def Inlines (part other : Engine α) : Prop :=
  Program.Inlines (ExceptT.run part) (ExceptT.run other)

theorem Inlines.bind {part other : Engine α} {f g : α → Engine β} (h : Inlines part other)
    (hNext : ∀ x, Inlines (f x) (g x)) : Inlines (part >>= f) (other >>= g) := by
  refine Program.Inlines.bind h fun result => ?_
  cases result with
  | ok x => exact hNext x
  | error e => exact .done _

theorem Inlines.ask {r : Request} {f g : r.Answer → Engine β} (hOther : ∀ job, r ≠ .spawn job)
    (hNext : ∀ a, Inlines (f a) (g a)) : Inlines (Engine.ask r >>= f) (Engine.ask r >>= g) :=
  Program.Inlines.ask hOther hNext

theorem Inlines.pure (x : α) : Inlines (pure x : Engine α) (Pure.pure x) :=
  .done _

theorem Inlines.check {answer : Except Error α} : Inlines (Engine.check answer) (Engine.check answer) :=
  .done _

/-- A finalisation in the background, and the same at once. -/
theorem Inlines.finalise (job : Finalisation) {f g : Unit → Engine β} (hNext : Inlines (f ()) (g ())) :
    Inlines (Engine.ask (.spawn job) >>= f) (Engine.finalise job >>= g) := by
  change Program.Inlines (.ask (.spawn job) _) (Program.bind (Program.bind _ _) _)
  rw [Program.bind_assoc]
  exact .spawn hNext

end Engine

namespace Pass

open Engine (Inlines)

variable (setup : LoopSetup)

theorem inlines_runTask (τ : Task) :
    Inlines (runTask (setup.inBackground true) τ) (runTask (setup.inBackground false) τ) := by
  unfold runTask
  split
  · exact .check
  · refine .ask (by simp) fun answer => ?_
    cases answer with
    | error e => cases e <;> first | exact .pure _ | exact .check
    | ok entry =>
        refine .ask (by simp) fun started => ?_
        refine .bind (.ask (by simp) fun _ => .check) fun _ => ?_
        refine .ask (by simp) fun outcome => .ask (by simp) fun finished => .ask (by simp) fun _ => ?_
        exact .finalise _ (.pure _)

theorem inlines_runTasks (tasks : List Task) :
    Inlines (runTasks (setup.inBackground true) tasks) (runTasks (setup.inBackground false) tasks) := by
  induction tasks with
  | nil => exact .pure ()
  | cons τ rest ih =>
      refine (inlines_runTask setup τ).bind fun status => ?_
      cases status with
      | none => exact ih
      | some status =>
          refine .ask (by simp) fun failures => ?_
          change Inlines (if trips setup.settings.maxConsecutiveFailures failures then _ else _)
            (if trips setup.settings.maxConsecutiveFailures failures then _ else _)
          split
          · exact .refl ⟨by simp, fun _ => trivial⟩
          · exact ih

theorem inlines_collect (entries : List Entry) : Inlines (collect entries) (collect entries) := by
  induction entries with
  | nil => exact .pure _
  | cons e rest ih =>
      refine .ask (by simp) fun now => .bind (.refl trivial) fun (task, f) => ?_
      exact .bind (.ask (by simp) fun _ => .check) fun _ => ih.bind fun _ => .pure _

theorem inlines_passOver (entries : List Entry) :
    Inlines (passOver (setup.inBackground true) entries) (passOver (setup.inBackground false) entries) := by
  unfold passOver
  split
  · exact .refl ⟨by simp, fun _ => ⟨by simp, fun _ => trivial⟩⟩
  · refine .ask (by simp) fun _ => (inlines_collect _).bind fun (tasks, entries) => ?_
    exact .ask (by simp) fun now => .ask (by simp) fun _ => inlines_runTasks setup _

theorem inlines_pass : Inlines (pass (setup.inBackground true)) (pass (setup.inBackground false)) :=
  .bind (.ask (by simp) fun _ => .check) fun entries => inlines_passOver setup entries

end Pass

namespace Run

open Engine (Inlines)

variable (setup : LoopSetup)

theorem inlines_step (phase : Phase) :
    Inlines (step (setup.inBackground true) phase) (step (setup.inBackground false) phase) := by
  cases phase with
  | pass =>
      refine .ask (by simp) fun since => (Pass.inlines_pass setup).bind fun _ => ?_
      refine .ask (by simp) fun stopping => ?_
      split <;> exact .pure _
  | wait since =>
      refine .ask (by simp) fun now => .ask (by simp) fun stopping => ?_
      split
      · exact .pure _
      split
      · refine .bind (.ask (by simp) fun slept => ?_) fun _ => .pure _
        exact .refl trivial
      · exact .pure _

theorem inlines_phases (fuel : Nat) (phase : Phase) :
    Inlines (phases (setup.inBackground true) fuel phase) (phases (setup.inBackground false) fuel phase) := by
  induction fuel generalizing phase with
  | zero => exact .pure _
  | succ fuel ih =>
      refine (inlines_step setup phase).bind fun next => ?_
      cases next with
      | none => exact .pure _
      | some phase => exact ih phase

theorem inlines_wrapUp (ended : Except Failure Bool) :
    Inlines (wrapUp (setup.inBackground true) ended) (wrapUp (setup.inBackground false) ended) := by
  unfold wrapUp
  split
  · exact .ask (by simp) fun _ => .ask (by simp) fun _ => .pure _
  · exact .refl trivial
  · refine .ask (by simp) fun _ => .ask (by simp) fun _ => ?_
    change Inlines (if setup.settings.healthcheckFile.isSome = true then _ else _)
      (if setup.settings.healthcheckFile.isSome = true then _ else _)
    split
    · exact .ask (by simp) fun _ => .check
    · exact .check

end Run

namespace Duty

/-- What is done before the first pass: ids are restored, if they are. -/
def preparation (setup : LoopSetup) : Duty → Program Request Request.Answer (Except Failure Unit)
  | run _ => ExceptT.run do
      if setup.settings.healthcheckFile.isSome then Engine.ask .removeHealthFile
      Run.restoreTaskIds (← Engine.activeEntries)
  | passes _ => .done (.ok ())

/-- What is done after that. -/
def work (setup : LoopSetup) : Duty → Except Failure Unit → Program Request Request.Answer Unit
  | run phases, prepared =>
      (ExceptT.run (Engine.ofExcept prepared >>= fun _ => Run.phases setup phases .pass)).bind fun ended =>
        (ExceptT.run (Run.wrapUp setup ended)).bind fun _ => .done ()
  | passes count, _ => series setup count

variable {setup : LoopSetup}

theorem program_eq (duty : Duty) : duty.program setup = (duty.preparation setup).bind (duty.work setup) := by
  cases duty with
  | passes count => rfl
  | run phases =>
      have hEnded : (ExceptT.run (ExceptT.lift (ExceptT.run (Run.untilStopped setup phases)) >>=
            Run.wrapUp setup)).bind (fun _ => .done ()) =
          (ExceptT.run (Engine.activeEntries >>= Run.restoreTaskIds)).bind ((run phases).work setup) := by
        have hUntil : Run.untilStopped setup phases =
            (Engine.activeEntries >>= Run.restoreTaskIds) >>= fun _ => Run.phases setup phases .pass := by
          rw [bind_assoc]
          rfl
        have hLift (q : Program Request Request.Answer (Except Failure Bool)) :
            ExceptT.run (ExceptT.lift q >>= Run.wrapUp setup) =
              q.bind fun x => ExceptT.run (Run.wrapUp setup x) :=
          Program.bind_assoc q _ _
        rw [hLift, hUntil]
        change (Program.bind (Program.bind _ _) _).bind _ = _
        rw [Program.bind_assoc, Program.bind_assoc]
        refine congrArg (Program.bind _) (funext fun prepared => ?_)
        cases prepared <;> rfl
      unfold program preparation Run.run
      dsimp only
      split
      · exact congrArg (Program.ask _) (funext fun _ => hEnded)
      · exact hEnded

/-- The preparation asks nothing about results but for the ids that they have. -/
theorem asks_preparation (duty : Duty) : (duty.preparation setup).Asks Request.LeavesResults := by
  have hEntries : Program.Asks Request.LeavesResults
      (ExceptT.run (Engine.activeEntries >>= Run.restoreTaskIds)) :=
    Engine.asks_bind ⟨by simp [Request.LeavesResults], fun _ => trivial⟩
      (Run.asks_restoreTaskIds _ (by simp [Request.LeavesResults]) (by simp [Request.LeavesResults]))
  cases duty with
  | passes count => exact trivial
  | run phases =>
      unfold preparation
      dsimp only
      split
      · exact ⟨by simp [Request.LeavesResults], fun _ => hEntries⟩
      · exact hEntries

/-- No ids are restored after the preparation. -/
theorem obeys_work (duty : Duty) (prepared : Except Failure Unit) (φ : Course) :
    (duty.work setup prepared).Obeys (Course.discipline setup False) (fun _ _ => True) φ := by
  cases duty with
  | passes count => exact obeys_program (.passes count)
  | run phases =>
      have hPhases : Course.Keeps setup False
          (Engine.ofExcept prepared >>= fun _ => Run.phases setup phases .pass) (fun _ _ => True) φ := by
        cases prepared with
        | ok => exact Course.keeps_phases
        | error e => exact Course.keeps_error
      exact .bind hPhases fun _ _ _ => .bind Course.keeps_wrapUp fun _ _ _ => trivial

theorem inlines_work (setup : LoopSetup) (duty : Duty) (prepared : Except Failure Unit) :
    (duty.work (setup.inBackground true) prepared).Inlines
      (duty.work (setup.inBackground false) prepared) := by
  cases duty with
  | passes count =>
      induction count with
      | zero => exact .done ()
      | succ count ih =>
          have hOnce : Engine.Inlines (Pass.runOnce (setup.inBackground true))
              (Pass.runOnce (setup.inBackground false)) :=
            (Pass.inlines_pass setup).bind fun _ => .refl ⟨by simp, fun _ => trivial⟩
          exact Program.Inlines.bind hOnce fun _ => ih
  | run phases =>
      have hPhases : Engine.Inlines
          (Engine.ofExcept prepared >>= fun _ => Run.phases (setup.inBackground true) phases .pass)
          (Engine.ofExcept prepared >>= fun _ => Run.phases (setup.inBackground false) phases .pass) :=
        .bind (.refl trivial) fun _ => Run.inlines_phases setup phases .pass
      exact Program.Inlines.bind hPhases fun ended =>
        Program.Inlines.bind (Run.inlines_wrapUp setup ended) fun _ => .done ()

end Duty

end TickScheduler
