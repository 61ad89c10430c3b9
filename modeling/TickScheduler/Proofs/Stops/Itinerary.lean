import TickScheduler.Proofs.Engine.Course
import TickScheduler.Proofs.Engine.Smooth
/-!
The stages of a run: which part of the loop is under way, and what the clock said when it began. As long as
nothing fails, the stage together with the course of the loop tells what may be asked next. The walk
through a run is made here.
-/
namespace TickScheduler.Run

inductive Stage where
  /-- No pass has begun yet; ids may still be restored. -/
  | fresh
  /-- The next pass may begin. -/
  | clear
  /-- A pass is to begin at this tick. -/
  | looked (since : Tick)
  /-- The pass that began at this tick is under way. -/
  | passing (since : Tick)
  /-- Waiting for the clock to leave the tick at which the last pass began. -/
  | waiting (since : Tick)
  /-- While waiting, the clock was read. -/
  | noticed (since now : Tick)
  /-- The clock has not left the tick yet: the loop is to sleep. -/
  | dozing (since : Tick)
  /-- The loop is to end. -/
  | leaving
  /-- Nothing goes on in the background any more. -/
  | drained (stopped : Bool)
  | ended (stopped : Bool)
deriving DecidableEq, Repr

namespace Stage

def after : Stage → (r : Request) → r.Answer → Stage
  | fresh, .now, time | clear, .now, time => looked time
  | looked since, .activeEntries, _ => passing since
  | passing since, .stopRequested, stopping => if stopping then leaving else waiting since
  | waiting since, .now, now => noticed since now
  | noticed since now, .stopRequested, stopping =>
      if stopping then leaving else if now = since then dozing since else clear
  | dozing since, .sleep, _ => waiting since
  | leaving, .drain, _ => drained true
  | _, .drain, _ => drained false
  | drained stopped, .setIdle, _ => ended stopped
  | σ, _, _ => σ

/-- What may be asked. A run can be broken off wherever a phase of it begins. -/
def Permits : Stage → Request → Prop
  | fresh, .removeHealthFile | fresh, .activeEntries | fresh, .lastTaskId _ | fresh, .saveCursor _
  | fresh, .now | fresh, .drain => True
  | clear, .now | clear, .drain => True
  | looked _, .activeEntries => True
  | passing _, .activeEntries | passing _, .sleep | passing _, .drain | passing _, .stop => False
  | passing _, _ => True
  | waiting _, .now | waiting _, .drain => True
  | noticed _ _, .stopRequested => True
  | dozing _, .sleep => True
  | leaving, .drain => True
  | drained _, .setIdle => True
  | _, _ => False

end Stage

/-- Requests that are made only while no task waits for its turn and none has it. -/
def AtRest : Request → Prop
  | .activeEntries | .stopRequested | .setIdle => True
  | _ => False

/-- What the loop may ask next while nothing fails. A pass ends only when all its tasks are done. -/
def itinerary (setup : LoopSetup) : Discipline Request Request.Answer (Course × Stage) where
  permits := fun (φ, σ) r => φ.Permits setup True r ∧ σ.Permits r ∧ (AtRest r → φ.Rests)
  sensible r a := Course.Sensible r a ∧ r.succeeds a = true
  after := fun (φ, σ) r a => (φ.after r a, σ.after r a)

open Engine (EndsWith)

/-- A part of the loop follows the itinerary, and ends as `post` says if it does not end with an overflow. -/
def Follows {α : Type} (setup : LoopSetup) (part : Engine α) (post : α → Course → Stage → Prop)
    (φ : Course) (σ : Stage) : Prop :=
  Program.Obeys (itinerary setup) (fun result (ψ, τ) => EndsWith (post · ψ τ) result) (ExceptT.run part)
    (φ, σ)

variable {setup : LoopSetup} {φ : Course} {σ : Stage} {α β : Type} {part : Engine α}

theorem follows_pure {x : α} {post : α → Course → Stage → Prop} (h : post x φ σ) :
    Follows setup (pure x) post φ σ :=
  h

theorem Follows.bind {f : α → Engine β} {post : α → Course → Stage → Prop}
    {last : β → Course → Stage → Prop} (h : Follows setup part post φ σ)
    (hNext : ∀ x ψ τ, post x ψ τ → Follows setup (f x) last ψ τ) :
    Follows setup (part >>= f) last φ σ :=
  Engine.obeys_bind h (fun x (ψ, τ) => hNext x ψ τ) fun _ _ => id

theorem follows_ask {r : Request} {f : r.Answer → Engine β} {post : β → Course → Stage → Prop}
    (hPermits : φ.Permits setup True r) (hStage : σ.Permits r)
    (hRests : AtRest r → φ.Rests)
    (hNext : ∀ a, r.succeeds a = true → Follows setup (f a) post (φ.after r a) (σ.after r a)) :
    Follows setup (Engine.ask r >>= f) post φ σ :=
  ⟨⟨hPermits, hStage, hRests⟩, fun a hSense => hNext a hSense.2⟩

/-- A part that keeps to its course, fails only with an overflow and does not change the stage. -/
theorem follows_within {post : α → Course → Prop} {promise : α → Prop} {allowed : Request → Prop}
    (hPermits : ∀ r, allowed r → σ.Permits r ∧ ¬ AtRest r)
    (hAfter : ∀ r a, allowed r → σ.after r a = σ)
    (hKeeps : Course.Keeps setup True part post φ) (hEndures : Engine.Endures part promise)
    (hAsks : Program.Asks allowed (ExceptT.run part)) :
    Follows setup part (fun x ψ τ => post x ψ ∧ τ = σ) φ σ := by
  unfold Follows
  unfold Course.Keeps at hKeeps
  unfold Engine.Endures at hEndures
  generalize ExceptT.run part = p at hKeeps hEndures hAsks
  induction p generalizing φ with
  | done result =>
      cases result with
      | ok x => exact ⟨hKeeps x rfl, rfl⟩
      | error e => exact hEndures
  | ask r next ih =>
      obtain ⟨hOpen, hBusy⟩ := hPermits r hAsks.1
      refine ⟨⟨hKeeps.1, hOpen, (absurd · hBusy)⟩, fun a hSense => ?_⟩
      have hStay : (itinerary setup).after (φ, σ) r a = (φ.after r a, σ) :=
        congrArg (Prod.mk _) (hAfter r a hAsks.1)
      rw [hStay]
      exact ih a (hKeeps.2 a hSense.1) (hEndures.2 a hSense.2) (hAsks.2 a)

/-! ### Walking through a run -/

/-- What is asked while ids are restored. -/
def Restoring : Request → Prop
  | .lastTaskId _ | .saveCursor _ => True
  | _ => False

/-- Where the loop is when a phase begins. -/
def AtPhase (φ : Course) (σ : Stage) : Phase → Prop
  | .pass => φ.Rests ∧ (σ = .fresh ∨ σ = .clear)
  | .wait since => φ.Rests ∧ σ = .waiting since

/-- Where the loop is after a phase. -/
def Comes (φ : Course) (σ : Stage) : Option Phase → Prop
  | none => φ.Rests ∧ σ = .leaving
  | some phase => AtPhase φ σ phase

/-- Where the loop is after some phases. -/
def Ended (finished : Bool) (φ : Course) (σ : Stage) : Prop :=
  if finished then Comes φ σ none else ∃ phase, Comes φ σ (some phase)

/-- Between two phases, or after the last one, the loop rests, and may wait for the background. -/
theorem rests_of_ended {finished : Bool} (h : Ended finished φ σ) : φ.Rests ∧ σ.Permits .drain ∧
    ∃ stopped, σ.after .drain () = .drained stopped ∧ (finished = true → stopped = true) := by
  cases finished with
  | true =>
      obtain ⟨hRests, rfl⟩ := h
      exact ⟨hRests, trivial, true, rfl, fun _ => rfl⟩
  | false =>
      obtain ⟨phase, hPhase⟩ := h
      cases phase with
      | pass => obtain ⟨hRests, rfl | rfl⟩ := hPhase <;> exact ⟨hRests, trivial, false, rfl, nofun⟩
      | wait since =>
          obtain ⟨hRests, rfl⟩ := hPhase
          exact ⟨hRests, trivial, false, rfl, nofun⟩

/-- Where the loop is at the end of a run. -/
def Over (finished : Bool) (φ : Course) (σ : Stage) : Prop :=
  φ.Rests ∧ ∃ stopped, σ = .ended stopped ∧ (finished = true → stopped = true)

theorem follows_wrapUp {finished : Bool} (h : Ended finished φ σ) :
    Follows setup (wrapUp setup (.ok finished)) Over φ σ := by
  obtain ⟨hRests, hDrain, stopped, hDrained, hStopped⟩ := rests_of_ended h
  refine follows_ask trivial hDrain nofun fun _ _ => ?_
  rw [hDrained]
  exact follows_ask trivial trivial (fun _ => hRests) fun _ _ =>
    follows_pure ⟨⟨rfl, rfl⟩, stopped, rfl, hStopped⟩

section Walk

variable (hLimit : setup.settings.maxConsecutiveFailures = none)
include hLimit

theorem follows_pass {since : Tick} (hRests : φ.Rests) : Follows setup (Pass.pass setup)
    (fun _ ψ τ => ψ.Rests ∧ τ = .passing since) φ (.looked since) := by
  unfold Pass.pass Engine.activeEntries
  rw [bind_assoc]
  refine follows_ask trivial trivial (fun _ => hRests) fun answer hAnswer => ?_
  cases answer with
  | error e => cases hAnswer
  | ok entries =>
      change Follows setup (Pass.passOver setup entries) _ { time := φ.time, held := entries } (.passing since)
      cases entries with
      | nil =>
          refine follows_ask trivial trivial nofun fun _ _ => ?_
          have hNothing : (TaskQueue.ofList []).toList = [] := List.mergeSort_nil
          exact ⟨⟨trivial, trivial, fun _ => ⟨hNothing, rfl⟩⟩, fun _ _ => ⟨⟨rfl, rfl⟩, rfl⟩⟩
      | cons e rest =>
          refine follows_within ?_ ?_ Course.keeps_passOver (Pass.endures_passOver _) (Pass.asks_passOver e rest)
          · intro r hAllowed
            cases r <;> first | exact ⟨trivial, id⟩ | exact hAllowed.elim | exact absurd hLimit hAllowed
          · intro r a hAllowed
            cases r <;> first | rfl | exact hAllowed.elim

theorem follows_step {phase : Phase} (hPhase : AtPhase φ σ phase) :
    Follows setup (step setup phase) (fun next ψ τ => Comes ψ τ next) φ σ := by
  cases phase with
  | pass =>
      obtain ⟨hRests, hStage⟩ := hPhase
      have hNow : σ.Permits .now := by
        rcases hStage with rfl | rfl <;> trivial
      have hLooked (since : Tick) : σ.after .now since = .looked since := by
        rcases hStage with rfl | rfl <;> rfl
      refine follows_ask trivial hNow nofun fun since _ => ?_
      rw [hLooked]
      have hStill : (φ.after .now since).Rests := hRests
      refine (follows_pass hLimit hStill).bind fun _ ψ τ hPost => ?_
      obtain ⟨hRests, rfl⟩ := hPost
      refine follows_ask trivial trivial (fun _ => hRests) fun stopping _ => ?_
      cases stopping <;> exact follows_pure ⟨hRests, rfl⟩
  | wait since =>
      obtain ⟨hRests, rfl⟩ := hPhase
      refine follows_ask trivial trivial nofun fun now _ => ?_
      refine follows_ask trivial trivial (fun _ => hRests) fun stopping _ => ?_
      cases stopping with
      | true => exact follows_pure ⟨hRests, rfl⟩
      | false =>
          simp only [Stage.after, Bool.false_eq_true, if_false]
          split
          · rw [bind_assoc]
            refine follows_ask trivial trivial nofun fun slept hSlept => ?_
            cases slept with
            | ok => exact follows_pure ⟨hRests, rfl⟩
            | error failure => cases hSlept
          · exact follows_pure ⟨hRests, .inr rfl⟩

theorem follows_phases {fuel : Nat} {phase : Phase} (hPhase : AtPhase φ σ phase) :
    Follows setup (phases setup fuel phase) Ended φ σ := by
  induction fuel generalizing phase φ σ with
  | zero => exact follows_pure ⟨phase, hPhase⟩
  | succ fuel ih =>
      refine (follows_step hLimit hPhase).bind fun next ψ τ hComes => ?_
      cases next with
      | none => exact follows_pure hComes
      | some phase => exact ih hComes

theorem follows_untilStopped {fuel : Nat} (hRests : φ.Rests) :
    Follows setup (untilStopped setup fuel) Ended φ .fresh := by
  unfold untilStopped Engine.activeEntries
  rw [bind_assoc]
  refine follows_ask trivial trivial (fun _ => hRests) fun answer hAnswer => ?_
  cases answer with
  | error e => cases hAnswer
  | ok entries =>
      have hRestore : Follows setup (restoreTaskIds entries) (fun _ ψ τ => ψ.Rests ∧ τ = .fresh)
          { time := φ.time, held := entries } .fresh := by
        refine follows_within ?_ ?_ (Course.keeps_restoreTaskIds trivial) (endures_restoreTaskIds _)
          (asks_restoreTaskIds Restoring (fun _ => trivial) (fun _ => trivial) entries)
        · intro r hAsks
          cases r <;> first | exact ⟨trivial, id⟩ | exact hAsks.elim
        · intro r a hAsks
          cases r <;> first | rfl | exact hAsks.elim
      refine hRestore.bind fun _ ψ τ hPost => ?_
      exact follows_phases hLimit ⟨hPost.1, .inl hPost.2⟩

/-- A run ends after the background has come to its end and the loop has said that it is idle. -/
theorem follows_run {fuel : Nat} (hRests : φ.Rests) : Follows setup (run setup fuel) Over φ .fresh := by
  have hEnds : Follows setup
      (ExceptT.lift (ExceptT.run (untilStopped setup fuel)) >>= wrapUp setup) Over φ .fresh := by
    have hLift : Follows setup (ExceptT.lift (ExceptT.run (untilStopped setup fuel)))
        (fun ended ψ τ => EndsWith (fun finished => Ended finished ψ τ) ended) φ .fresh :=
      Program.Obeys.bind (follows_untilStopped hLimit hRests) fun _ _ => id
    refine hLift.bind fun ended ψ τ hEnded => ?_
    cases ended with
    | ok finished => exact follows_wrapUp hEnded
    | error e =>
        obtain rfl : e = .overflow := hEnded
        exact rfl
  unfold run
  dsimp only
  split
  · exact follows_ask trivial trivial nofun fun _ _ => hEnds
  · exact hEnds

end Walk

end TickScheduler.Run
