import TickScheduler.Engine.Run
import TickScheduler.Proofs.Program.Transcripts
/-!
Parts of the loop put together: a later part is begun only if none before it has failed.
-/
namespace TickScheduler

namespace Engine

variable {α β : Type} {log : List (Exchange Request.Answer)} {result : Except Failure β}
  {allowed : Request → Prop} {r : Request}

theorem asks_bind {part : Engine α} {f : α → Engine β} (h : Program.Asks allowed (ExceptT.run part))
    (hNext : ∀ x, Program.Asks allowed (ExceptT.run (f x))) :
    Program.Asks allowed (ExceptT.run (part >>= f)) := by
  refine Program.Asks.bind h fun result => ?_
  cases result with
  | ok x => exact hNext x
  | error e => exact trivial

theorem asks_ask {f : r.Answer → Engine β} (hAllowed : allowed r)
    (hNext : ∀ a, Program.Asks allowed (ExceptT.run (f a))) :
    Program.Asks allowed (ExceptT.run (Engine.ask r >>= f)) :=
  ⟨hAllowed, hNext⟩

theorem asks_finalise {job : Finalisation} (hAllowed : ∀ r, allowed (.final r)) :
    Program.Asks allowed (ExceptT.run (Engine.finalise job)) := by
  unfold Engine.finalise
  exact Program.Asks.bind (.embed (.of_forall hAllowed)) fun _ => trivial

theorem obeys_bind {Phase : Type} {d : Discipline Request Request.Answer Phase} {φ : Phase}
    {post : Except Failure α → Phase → Prop} {last : Except Failure β → Phase → Prop} {part : Engine α}
    {f : α → Engine β} (h : Program.Obeys d post (ExceptT.run part) φ)
    (hNext : ∀ x ψ, post (.ok x) ψ → Program.Obeys d last (ExceptT.run (f x)) ψ)
    (hError : ∀ e ψ, post (.error e) ψ → last (.error e) ψ) :
    Program.Obeys d last (ExceptT.run (part >>= f)) φ := by
  refine Program.Obeys.bind h fun result ψ hPost => ?_
  cases result with
  | ok x => exact hNext x ψ hPost
  | error e => exact hError e ψ hPost

theorem speaks_ask_iff {f : r.Answer → Engine β} :
    (ExceptT.run (Engine.ask r >>= f)).Speaks log (.done result) ↔
      ∃ a rest, log = ⟨r, a⟩ :: rest ∧ (ExceptT.run (f a)).Speaks rest (.done result) :=
  Program.speaks_ask_iff

theorem speaks_bind {part : Engine α} {f : α → Engine β}
    (h : (ExceptT.run (part >>= f)).Speaks log (.done result)) :
    ∃ x first rest, log = first ++ rest ∧ (ExceptT.run part).Speaks first (.done x) ∧
      ((∃ a, x = .ok a ∧ (ExceptT.run (f a)).Speaks rest (.done result)) ∨
        ∃ e, x = .error e ∧ rest = [] ∧ result = .error e) := by
  obtain ⟨x, first, rest, rfl, left, right⟩ := Program.speaks_bind_iff.mp h
  refine ⟨x, first, rest, rfl, left, ?_⟩
  cases x with
  | ok a => exact .inl ⟨a, rfl, right⟩
  | error e =>
      obtain ⟨rfl, hDone⟩ := Program.speaks_done_iff.mp right
      cases hDone
      exact .inr ⟨e, rfl, rfl, rfl⟩

end Engine

/-- What a pass asks that has anything to do. It asks the loop to stop only if failures in a row are
limited. -/
def Request.InPass (limit : Option Nat) : Request → Prop
  | .stop => limit ≠ none
  | .activeEntries | .lastTaskId _ | .sleep | .drain | .setIdle | .stopRequested | .removeHealthFile
  | .touchHealthFile => False
  | _ => True

/-- What is asked in the turn of a single task. -/
def Request.OfTurn : Request → Prop
  | .entry _ | .timestamp | .final _ | .call _ _ | .pause | .spawn _ => True
  | _ => False

/-- What is asked for the tasks of a pass. The list of tasks is complete and announced by then. -/
def Request.InTurn (limit : Option Nat) : Request → Prop
  | .now | .saveCursor _ | .beginPass | .publish _ => False
  | r => r.InPass limit

theorem Request.InTurn.inPass {limit : Option Nat} {r : Request} (h : r.InTurn limit) : r.InPass limit := by
  cases r <;> first | exact h | exact h.elim

theorem Request.OfTurn.inTurn {limit : Option Nat} {r : Request} (h : r.OfTurn) : r.InTurn limit := by
  cases r <;> first | exact trivial | exact h.elim

namespace Pass

open Program (Asks)

theorem asks_collect (allowed : Request → Prop) (hNow : allowed .now) (hSave : ∀ e, allowed (.saveCursor e))
    (entries : List Entry) : Asks allowed (ExceptT.run (collect entries)) := by
  induction entries with
  | nil => exact trivial
  | cons e rest ih =>
      unfold collect
      refine Engine.asks_ask hNow fun now => Engine.asks_bind trivial fun consumed => ?_
      obtain ⟨task, f⟩ := consumed
      refine Engine.asks_bind ⟨hSave f, fun _ => trivial⟩ fun _ => ?_
      exact Engine.asks_bind ih fun _ => trivial

variable {setup : LoopSetup}

theorem asks_runTask (τ : Task) : Asks Request.OfTurn (ExceptT.run (runTask setup τ)) := by
  unfold runTask
  split
  · exact trivial
  · refine Engine.asks_ask trivial fun answer => ?_
    cases answer with
    | error e => cases e <;> exact trivial
    | ok entry =>
        dsimp only
        refine Engine.asks_ask trivial fun started => ?_
        refine Engine.asks_bind ⟨trivial, fun _ => trivial⟩ fun _ => ?_
        refine Engine.asks_ask trivial fun outcome => ?_
        refine Engine.asks_ask trivial fun finished => Engine.asks_ask trivial fun _ => ?_
        split
        · exact ⟨trivial, fun _ => trivial⟩
        · exact Engine.asks_bind (Engine.asks_finalise fun _ => trivial) fun _ => trivial

theorem asks_runTasks (tasks : List Task) :
    Asks (Request.InTurn setup.settings.maxConsecutiveFailures) (ExceptT.run (runTasks setup tasks)) := by
  induction tasks with
  | nil => exact trivial
  | cons τ rest ih =>
      unfold runTasks
      refine Engine.asks_bind ((asks_runTask τ).mono fun _ => Request.OfTurn.inTurn) fun status => ?_
      cases status with
      | none => exact ih
      | some status =>
          refine Engine.asks_ask trivial fun failures => ?_
          split
          · rename_i hTrips
            refine ⟨fun hNone => ?_, fun _ => trivial⟩
            simp [trips, hNone] at hTrips
          · exact ih

theorem asks_passOver (e : Entry) (rest : List Entry) :
    Asks (Request.InPass setup.settings.maxConsecutiveFailures)
      (ExceptT.run (passOver setup (e :: rest))) := by
  refine Engine.asks_ask trivial fun _ => ?_
  refine Engine.asks_bind (asks_collect _ trivial (fun _ => trivial) _) fun outcome => ?_
  refine Engine.asks_ask trivial fun now => Engine.asks_ask trivial fun _ => ?_
  exact (asks_runTasks _).mono fun _ => Request.InTurn.inPass

/-- A pass does not wait for the background. -/
theorem asks_pass : Asks (fun r => r ≠ .drain) (ExceptT.run (pass setup)) := by
  refine Engine.asks_bind ⟨nofun, fun _ => trivial⟩ fun entries => ?_
  cases entries with
  | nil => exact ⟨nofun, fun _ => ⟨nofun, fun _ => trivial⟩⟩
  | cons e rest =>
      refine (asks_passOver e rest).mono fun r hAllowed => ?_
      rintro rfl
      exact hAllowed

theorem asks_runOnce : Asks (fun r => r ≠ .drain) (ExceptT.run (runOnce setup)) :=
  Engine.asks_bind asks_pass fun _ => ⟨nofun, fun _ => trivial⟩

end Pass

theorem Run.asks_restoreTaskIds (allowed : Request → Prop) (hLast : ∀ name, allowed (.lastTaskId name))
    (hSave : ∀ e, allowed (.saveCursor e)) (entries : List Entry) :
    Program.Asks allowed (ExceptT.run (restoreTaskIds entries)) := by
  induction entries with
  | nil => exact trivial
  | cons e rest ih =>
      unfold restoreTaskIds
      refine Engine.asks_bind ⟨hLast _, fun _ => trivial⟩ fun last => ?_
      cases last with
      | none => exact ih
      | some last =>
          dsimp only
          split
          · exact trivial
          · split
            · exact Engine.asks_bind ⟨hSave _, fun _ => trivial⟩ fun _ => ih
            · exact ih

end TickScheduler
