import TickScheduler.Proofs.Engine.Course
import TickScheduler.Proofs.Engine.Parts
/-!
One loop, twice, with tasks of one entry that end in different ways. Unless failures in a row are limited, it
asks for the same things in the same order, but for the results and the reports of these very tasks.
-/
namespace TickScheduler

/-- Requests in which an entry and how its tasks end do not show. -/
def Request.IsPlain (name : String) : Request → Prop
  | .call τ _ => τ.entryName ≠ name
  | .final _ | .spawn _ | .countOutcome _ | .lastTaskId _ | .sleep | .drain => False
  | _ => True

/-- The same finalisation of another entry, reported under this address, or any two of the entry. -/
def Finalisation.Masks (name base : String) (job other : Finalisation) : Prop :=
  (other = job ∧ job.result.entryName ≠ name ∧ job.baseUrl = base) ∨
    (job.result.entryName = name ∧ other.result.entryName = name)

namespace Program

variable {name base : String} {Result Other Last End : Type}

/-- Two programs that go on alike whatever becomes of the tasks of one entry. -/
inductive Masks (name base : String) (R : Result → Other → Prop) :
    Program Request Request.Answer Result → Program Request Request.Answer Other → Prop where
  | done {x : Result} {y : Other} (h : R x y) : Masks name base R (.done x) (.done y)
  | ask {r : Request} {next : r.Answer → Program Request Request.Answer Result}
      {other : r.Answer → Program Request Request.Answer Other} (hPlain : r.IsPlain name)
      (h : ∀ a, Course.Sensible r a → Masks name base R (next a) (other a)) :
      Masks name base R (.ask r next) (.ask r other)
  | record {result : TaskResult} {keep : Nat}
      {next : Except Error Unit → Program Request Request.Answer Result}
      {other : Except Error Unit → Program Request Request.Answer Other}
      (h : ∀ a, Masks name base R (next a) (other a)) :
      Masks name base R (.ask (.final (.record result keep)) next) (.ask (.final (.record result keep)) other)
  | call {τ : Task} {id : TaskId} {next : Outcome → Program Request Request.Answer Result}
      {other : Outcome → Program Request Request.Answer Other} (hOwn : τ.entryName = name)
      (h : ∀ a b, Masks name base R (next a) (other b)) :
      Masks name base R (.ask (.call τ id) next) (.ask (.call τ id) other)
  | count {failed failed' : Bool} {next : Nat → Program Request Request.Answer Result}
      {other : Nat → Program Request Request.Answer Other} (h : ∀ a b, Masks name base R (next a) (other b)) :
      Masks name base R (.ask (.countOutcome failed) next) (.ask (.countOutcome failed') other)
  | spawn {job job' : Finalisation} {next : Unit → Program Request Request.Answer Result}
      {other : Unit → Program Request Request.Answer Other} (hJobs : job.Masks name base job')
      (h : Masks name base R (next ()) (other ())) :
      Masks name base R (.ask (.spawn job) next) (.ask (.spawn job') other)
  | finalise {job job' : Finalisation} {rest : Except Error Unit → Program Request Request.Answer Result}
      {other : Except Error Unit → Program Request Request.Answer Other} (hJobs : job.Masks name base job')
      (h : ∀ ended, Masks name base R (rest ended) (other ended)) :
      Masks name base R ((job.program.embed .final fun _ => id).bind rest)
        ((job'.program.embed .final fun _ => id).bind other)

variable {R : Result → Other → Prop} {S : Last → End → Prop} {p : Program Request Request.Answer Result}
  {q : Program Request Request.Answer Other}

theorem Masks.mono {R' : Result → Other → Prop} (hEnd : ∀ x y, R x y → R' x y) (h : Masks name base R p q) :
    Masks name base R' p q := by
  induction h with
  | done h => exact .done (hEnd _ _ h)
  | ask hPlain _ ih => exact .ask hPlain ih
  | record _ ih => exact .record ih
  | call hOwn _ ih => exact .call hOwn ih
  | count _ ih => exact .count ih
  | spawn hJobs _ ih => exact .spawn hJobs ih
  | finalise hJobs _ ih => exact .finalise hJobs ih

theorem Masks.refl {R : Result → Result → Prop} (hSame : ∀ x, R x x) (h : p.Asks (Request.IsPlain name)) :
    Masks name base R p p := by
  induction p with
  | done x => exact .done (hSame x)
  | ask r next ih => exact .ask h.1 fun a _ => ih a (h.2 a)

theorem Masks.bind {f : Result → Program Request Request.Answer Last}
    {g : Other → Program Request Request.Answer End} (h : Masks name base R p q)
    (hNext : ∀ x y, R x y → Masks name base S (f x) (g y)) : Masks name base S (p.bind f) (q.bind g) := by
  induction h with
  | done hEnd => exact hNext _ _ hEnd
  | ask hPlain _ ih => exact .ask hPlain fun a hSense => ih a hSense
  | record _ ih => exact .record ih
  | call hOwn _ ih => exact .call hOwn ih
  | count _ ih => exact .count ih
  | spawn hJobs _ ih => exact .spawn hJobs ih
  | finalise hJobs _ ih =>
      rw [bind_assoc, bind_assoc]
      exact .finalise hJobs ih

end Program

namespace Engine

variable {name base : String} {α β γ δ : Type}

/-- Both end well and with such results, or both with the same failure. -/
def EndAlike (R : α → β → Prop) : Except Failure α → Except Failure β → Prop
  | .ok x, .ok y => R x y
  | .error e, .error e' => e = e'
  | _, _ => False

/-- The same for parts of the loop. -/
def Masks (name base : String) (R : α → β → Prop) (part : Engine α) (other : Engine β) : Prop :=
  Program.Masks name base (EndAlike R) (ExceptT.run part) (ExceptT.run other)

variable {R : α → β → Prop} {S : γ → δ → Prop} {part : Engine α} {other : Engine β}

theorem Masks.bind {f : α → Engine γ} {g : β → Engine δ} (h : Masks name base R part other)
    (hNext : ∀ x y, R x y → Masks name base S (f x) (g y)) : Masks name base S (part >>= f) (other >>= g) := by
  refine Program.Masks.bind h fun x y hEnd => ?_
  match x, y, hEnd with
  | .ok x, .ok y, hEnd => exact hNext x y hEnd
  | .error _, .error _, hEnd => exact .done hEnd

theorem Masks.pure {x : α} {y : β} (h : R x y) : Masks name base R (pure x : Engine α) (Pure.pure y) :=
  .done h

theorem Masks.refl (h : Program.Asks (Request.IsPlain name) (ExceptT.run part)) :
    Masks name base Eq part part := by
  refine Program.Masks.refl (fun x => ?_) h
  cases x <;> rfl

/-- Parts that go on alike end alike. -/
theorem Masks.ends_eq {part other : Engine α} (h : Masks name base Eq part other) :
    Program.Masks name base Eq (ExceptT.run part) (ExceptT.run other) := by
  refine Program.Masks.mono (fun x y hEnd => ?_) h
  match x, y, hEnd with
  | .ok _, .ok _, rfl => rfl
  | .error _, .error _, rfl => rfl

theorem Masks.ask {r : Request} {f : r.Answer → Engine α} {g : r.Answer → Engine β} (hPlain : r.IsPlain name)
    (hNext : ∀ a, Course.Sensible r a → Masks name base R (f a) (g a)) :
    Masks name base R (Engine.ask r >>= f) (Engine.ask r >>= g) :=
  Program.Masks.ask hPlain hNext

theorem Masks.record {result : TaskResult} {keep : Nat} {f : Unit → Engine α} {g : Unit → Engine β}
    (hNext : Masks name base R (f ()) (g ())) :
    Masks name base R (Engine.record result keep >>= f) (Engine.record result keep >>= g) := by
  refine Program.Masks.record fun a => ?_
  cases a with
  | ok => exact hNext
  | error e => exact .done rfl

theorem Masks.finalise {job job' : Finalisation} (hJobs : job.Masks name base job') {f : Unit → Engine α}
    {g : Unit → Engine β} (hNext : Masks name base R (f ()) (g ())) :
    Masks name base R (Engine.finalise job >>= f) (Engine.finalise job' >>= g) := by
  change Program.Masks name base (EndAlike R) (Program.bind (Program.bind _ _) _)
    (Program.bind (Program.bind _ _) _)
  rw [Program.bind_assoc, Program.bind_assoc]
  refine .finalise hJobs fun ended => ?_
  cases ended with
  | ok => exact hNext
  | error e => exact .done rfl

end Engine

namespace Pass

open Engine (Masks)

variable {setup : LoopSetup} {name : String}

/-- A task is finalised in the background or at once. -/
theorem masks_close {base : String} {job job' : Finalisation} (background : Bool) (status status' : TaskStatus)
    (hJobs : job.Masks name base job') :
    Masks name base (fun status status' => status.isSome = status'.isSome)
      (do
        if background then Engine.ask (.spawn job) else Engine.finalise job
        return some status)
      (do
        if background then Engine.ask (.spawn job') else Engine.finalise job'
        return some status') := by
  cases background with
  | true => exact Program.Masks.spawn hJobs (.done rfl)
  | false => exact .finalise hJobs (.pure rfl)

/-- The task is run or left out, however it ends. -/
theorem masks_runTask (τ : Task) : Masks name setup.callback.resultBaseUrl
    (fun status status' => status.isSome = status'.isSome) (runTask setup τ) (runTask setup τ) := by
  unfold runTask
  split
  · exact .done rfl
  · refine .ask trivial fun answer hSense => ?_
    cases answer with
    | error e => cases e <;> first | exact .pure rfl | exact .done rfl
    | ok entry =>
        have hName : entry.name = τ.entryName := hSense
        refine .ask trivial fun started _ => .record ?_
        by_cases hOwn : τ.entryName = name
        · refine Program.Masks.call hOwn fun outcome outcome' => ?_
          refine Masks.ask trivial fun finished _ => .ask trivial fun _ _ => ?_
          refine masks_close setup.callback.asynchronous _ _ (.inr ⟨?_, ?_⟩)
          · exact hName.trans hOwn
          · exact hName.trans hOwn
        · refine .ask hOwn fun outcome _ => .ask trivial fun finished _ => .ask trivial fun _ _ => ?_
          refine masks_close setup.callback.asynchronous _ _ (.inl ⟨rfl, fun hSame => hOwn ?_, rfl⟩)
          exact hName.symm.trans hSame

variable (hLimit : setup.settings.maxConsecutiveFailures = none)
include hLimit

theorem masks_runTasks (tasks : List Task) :
    Masks name setup.callback.resultBaseUrl Eq (runTasks setup tasks) (runTasks setup tasks) := by
  induction tasks with
  | nil => exact .pure rfl
  | cons τ rest ih =>
      unfold runTasks
      refine (masks_runTask τ).bind fun status status' hSame => ?_
      cases status with
      | none =>
          cases status' with
          | none => exact ih
          | some => cases hSame
      | some =>
          cases status' with
          | none => cases hSame
          | some =>
              refine Program.Masks.count fun failures failures' => ?_
              -- without a limit nobody looks at the row of failures
              simp only [hLimit, trips, Option.any_none, Bool.false_eq_true, if_false]
              exact ih

theorem masks_passOver (entries : List Entry) :
    Masks name setup.callback.resultBaseUrl Eq (passOver setup entries) (passOver setup entries) := by
  unfold passOver
  split
  · exact .refl ⟨trivial, fun _ => ⟨trivial, fun _ => trivial⟩⟩
  · refine .ask trivial fun _ _ => ?_
    refine (Masks.refl (asks_collect _ trivial (fun _ => trivial) _)).bind fun collected _ hSame => ?_
    subst hSame
    exact .ask trivial fun now _ => .ask trivial fun _ _ => masks_runTasks hLimit _

theorem masks_pass : Masks name setup.callback.resultBaseUrl Eq (pass setup) (pass setup) := by
  have hEntries : Masks name setup.callback.resultBaseUrl Eq Engine.activeEntries Engine.activeEntries :=
    .refl ⟨trivial, fun _ => trivial⟩
  exact hEntries.bind fun entries _ hSame => hSame ▸ masks_passOver hLimit entries

theorem masks_runOnce : Masks name setup.callback.resultBaseUrl Eq (runOnce setup) (runOnce setup) := by
  have hIdle : Masks name setup.callback.resultBaseUrl Eq (Engine.ask .setIdle) (Engine.ask .setIdle) :=
    .refl ⟨trivial, fun _ => trivial⟩
  exact (masks_pass hLimit).bind fun _ _ _ => hIdle

end Pass

end TickScheduler
