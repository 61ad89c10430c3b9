import TickScheduler.Proofs.Engine.Replies
import TickScheduler.Proofs.Engine.Watch
import TickScheduler.Proofs.Queue.Stock
/-!
Rehearsals: runs under watch in which everything is fixed, how actions end and what deeds they do. What
comes of such a run is computed, and it is one of the runs that there are.
-/
namespace TickScheduler

/-! ### What was said can be compared -/

deriving instance DecidableEq for TaskResult, Payload, FinalRequest, Finalisation, TaskQueue, Request

instance Request.decidableEqAnswer : (r : Request) → DecidableEq r.Answer
  | .now => inferInstanceAs (DecidableEq Tick)
  | .timestamp => inferInstanceAs (DecidableEq Timestamp)
  | .activeEntries => inferInstanceAs (DecidableEq (Except Error (List Entry)))
  | .entry _ => inferInstanceAs (DecidableEq (Except Error Entry))
  | .saveCursor _ | .final _ => inferInstanceAs (DecidableEq (Except Error Unit))
  | .lastTaskId _ => inferInstanceAs (DecidableEq (Except Error (Option TaskId)))
  | .call _ _ => inferInstanceAs (DecidableEq Outcome)
  | .sleep => inferInstanceAs (DecidableEq (Except Failure Unit))
  | .stopRequested => inferInstanceAs (DecidableEq Bool)
  | .countOutcome _ => inferInstanceAs (DecidableEq Nat)
  | .pause | .spawn _ | .drain | .beginPass | .setIdle | .publish _ | .stop
  | .removeHealthFile | .touchHealthFile => inferInstanceAs (DecidableEq Unit)

namespace Watch

variable {Memory : Type} {w : Watch Memory} {faulty : Prop}

/-- A deed is done, if that is possible. -/
def perform (w : Watch Memory) (s : Watched Memory) (deed : Deed) : Watched Memory :=
  match deed.apply s.scene.store with
  | .ok store => ⟨{ s.scene with store }, s.course, w.seen s.memory deed⟩
  | .error _ => s

/-- What follows on a request and its answer before anything else happens. -/
def hearing (w : Watch Memory) (outcome : Task → Outcome) (r : Request) (s : Watched Memory) :
    Watched Memory :=
  let (a, scene) := Scene.reply outcome r s.scene
  ⟨scene, s.course.after r a, w.heard s.memory s.course r a⟩

/-- What an action does when it is called. -/
def called (deeds : Task → List Deed) : Request → List Deed
  | .call task _ => deeds task
  | _ => []

/-- An answer to a request. The action of a task does its deeds as soon as it is called. -/
def reply (w : Watch Memory) (outcome : Task → Outcome) (deeds : Task → List Deed) (r : Request)
    (s : Watched Memory) : r.Answer × Watched Memory :=
  ((Scene.reply outcome r s.scene).1, (called deeds r).foldl w.perform (w.hearing outcome r s))

theorem drifts_perform {s : Watched Memory} {deed : Deed} (hAllows : w.allows s deed) :
    (w.conduct faulty).Drifts s (w.perform s deed) := by
  unfold perform
  cases hStore : deed.apply s.scene.store with
  | ok store => exact .single (.deed hAllows hStore)
  | error e => exact .refl

theorem drifts_performs {deeds : List Deed} (hAllows : ∀ deed ∈ deeds, ∀ s, w.allows s deed)
    (s : Watched Memory) : (w.conduct faulty).Drifts s (deeds.foldl w.perform s) := by
  induction deeds generalizing s with
  | nil => exact .refl
  | cons deed rest ih =>
      obtain ⟨hFirst, hRest⟩ := List.forall_mem_cons.mp hAllows
      exact .trans (drifts_perform (hFirst s)) (ih hRest _)

theorem drifts_of_quiet {s : Watched Memory} {scene : Scene} (h : Scene.quiet.Drifts s.scene scene) :
    (w.conduct faulty).Drifts s { s with scene } := by
  induction h with
  | refl => exact .refl
  | tail _ last ih => exact .tail ih (.elapse (.work (last.mono False.elim)))

/-- What comes of a program after some deeds. -/
def rehearse (w : Watch Memory) (outcome : Task → Outcome) (deeds : Task → List Deed) (first : List Deed)
    (p : Program Request Request.Answer Unit) (s : Watched Memory) : Watched Memory :=
  (p.run (w.reply outcome deeds) (first.foldl w.perform s)).2

/-- The first requests of a program: what is left of it after them, and what has come of them. -/
def start (w : Watch Memory) (outcome : Task → Outcome) (deeds : Task → List Deed) :
    Nat → Program Request Request.Answer Unit → Watched Memory →
      Program Request Request.Answer Unit × Watched Memory
  | count + 1, .ask r next, s =>
      let (a, t) := w.reply outcome deeds r s
      start w outcome deeds count (next a) t
  | _, p, s => (p, s)

section Leads

variable (hAdmits : ∀ s r a, w.admits s r a) (outcome : Task → Outcome) {deeds : Task → List Deed}
  (hDeeds : ∀ task, ∀ deed ∈ deeds task, ∀ s, w.allows s deed)

include hAdmits hDeeds

/-- What is replied is one of the answers under watch, if nothing has to be left out. -/
theorem leads_reply {Result : Type} (r : Request) (next : r.Answer → Program Request Request.Answer Result)
    (s : Watched Memory) : Program.Leads (w.conduct faulty) (.ask r next) s
      (next (w.reply outcome deeds r s).1) (w.reply outcome deeds r s).2 := by
  obtain ⟨scene, hDrift, hAnswer⟩ := Scene.answers_reply outcome r s.scene
  have hHears : w.Hears faulty r { s with scene } (Scene.reply outcome r s.scene).1
      (w.hearing outcome r s) := ⟨hAdmits _ _ _, hAnswer.mono False.elim, rfl, rfl⟩
  have hCalled : ∀ deed ∈ called deeds r, ∀ s, w.allows s deed := by
    cases r with
    | call task id => exact hDeeds task
    | _ => simp [called]
  refine (Program.Leads.of_drifts (drifts_of_quiet hDrift)).trans (.answer hHears ?_)
  exact .of_drifts (drifts_performs hCalled _)

/-- A program may be replied to until it is done. -/
theorem leads_run {Result : Type} (p : Program Request Request.Answer Result) (s : Watched Memory) :
    Program.Leads (w.conduct faulty) p s (.done (p.run (w.reply outcome deeds) s).1)
      (p.run (w.reply outcome deeds) s).2 := by
  induction p generalizing s with
  | done => exact .stay _ _
  | ask r next ih => exact (leads_reply hAdmits outcome hDeeds r next s).trans (ih _ _)

theorem leads_rehearse {first : List Deed} (hFirst : ∀ deed ∈ first, ∀ s, w.allows s deed)
    (p : Program Request Request.Answer Unit) (s : Watched Memory) :
    Program.Leads (w.conduct faulty) p s (.done ()) (w.rehearse outcome deeds first p s) :=
  (Program.Leads.of_drifts (drifts_performs hFirst s)).trans (leads_run hAdmits outcome hDeeds p _)

theorem leads_start (count : Nat) (p : Program Request Request.Answer Unit) (s : Watched Memory) :
    Program.Leads (w.conduct faulty) p s (w.start outcome deeds count p s).1
      (w.start outcome deeds count p s).2 := by
  induction count generalizing p s with
  | zero => exact .stay _ _
  | succ count ih =>
      cases p with
      | done => exact .stay _ _
      | ask r next => exact (leads_reply hAdmits outcome hDeeds r next s).trans (ih _ _)

end Leads

end Watch

end TickScheduler
