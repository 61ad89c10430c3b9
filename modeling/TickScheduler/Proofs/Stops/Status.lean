import TickScheduler.Proofs.Engine.Parts
import TickScheduler.Proofs.Engine.Rehearsal
/-!
What the status says of a stop. A stop that is requested while a pass is under way shows in the status. But
a pass that begins later does not look whether one was requested; it says that it is running, and keeps
saying so while its tasks are executed.
-/
namespace TickScheduler

/-! ### No task before its pass has begun -/

/-- Whether a pass has begun since the loop was last idle: no task comes to its turn before. -/
def Pass.beginning : Discipline Request Request.Answer Bool where
  permits
    | begun, .entry _ => begun = true
    | _, _ => True
  sensible _ _ := True
  after
    | _, .beginPass, _ => true
    | _, .setIdle, _ => false
    | begun, _, _ => begun

section Begins

open Pass (beginning)

/-- A part of the loop that begins a pass before it comes to any task. -/
def Engine.Begins {α : Type} (part : Engine α) : Prop :=
  ∀ begun, Program.Obeys beginning (fun _ _ => True) (ExceptT.run part) begun

variable {setup : LoopSetup} {α β : Type}

theorem Engine.Begins.bind {part : Engine α} {f : α → Engine β} (h : part.Begins) (hNext : ∀ x, (f x).Begins) :
    (part >>= f).Begins :=
  fun begun => Engine.obeys_bind (h begun) (fun x ψ _ => hNext x ψ) fun _ _ _ => trivial

theorem Engine.begins_done {result : Except Failure α} : (Engine.ofExcept result).Begins :=
  fun _ => trivial

/-- What is not about tasks may be asked at any time. -/
theorem Engine.begins_ask {r : Request} {f : r.Answer → Engine β} (hOther : ∀ name, r ≠ .entry name)
    (hNext : ∀ a, (f a).Begins) : (Engine.ask r >>= f).Begins := by
  refine fun begun => ⟨?_, fun a _ => hNext a _⟩
  cases r with
  | entry name => exact absurd rfl (hOther name)
  | _ => exact trivial

theorem Engine.begins_of_asks {part : Engine α}
    (h : Program.Asks (fun r => ∀ name, r ≠ .entry name) (ExceptT.run part)) : part.Begins := by
  refine fun begun => (Program.Obeys.of_asks (P := fun _ => True) ?_ (fun _ _ _ => trivial) h trivial).mono
    fun _ _ _ => trivial
  intro begun r _ hOther
  cases r with
  | entry name => exact absurd rfl (hOther name)
  | _ => exact trivial

namespace Pass

theorem begins_passOver (entries : List Entry) : (passOver setup entries).Begins := by
  cases entries with
  | nil => exact Engine.begins_of_asks ⟨by simp, fun _ => ⟨by simp, fun _ => trivial⟩⟩
  | cons e rest =>
      -- once the pass has begun, it does nothing that would end it
      refine fun begun => ⟨trivial, fun _ _ => ?_⟩
      refine (Program.Obeys.of_asks (P := (· = true)) ?_ ?_ ((asks_passOver e rest).2 ()) rfl).mono
        fun _ _ _ => trivial
      · rintro begun r rfl -
        cases r <;> first | rfl | exact trivial
      · rintro begun r a rfl hAllowed
        cases r <;> first | rfl | exact hAllowed.elim

theorem begins_pass : (pass setup).Begins :=
  .bind (Engine.begins_of_asks ⟨by simp, fun _ => trivial⟩) begins_passOver

theorem begins_runOnce : (runOnce setup).Begins :=
  .bind begins_pass fun _ => Engine.begins_of_asks ⟨by simp, fun _ => trivial⟩

end Pass

namespace Run

theorem begins_step (phase : Phase) : (step setup phase).Begins := by
  cases phase with
  | pass =>
      refine Engine.begins_ask (by simp) fun since => .bind Pass.begins_pass fun _ => ?_
      refine Engine.begins_ask (by simp) fun stopping => ?_
      split <;> exact Engine.begins_done
  | wait since =>
      refine Engine.begins_ask (by simp) fun now => Engine.begins_ask (by simp) fun stopping => ?_
      split
      · exact Engine.begins_done
      split
      · rw [bind_assoc]
        exact Engine.begins_ask (by simp) fun slept => .bind Engine.begins_done fun _ => Engine.begins_done
      · exact Engine.begins_done

theorem begins_phases (fuel : Nat) (phase : Phase) : (phases setup fuel phase).Begins := by
  induction fuel generalizing phase with
  | zero => exact Engine.begins_done
  | succ fuel ih =>
      refine (begins_step phase).bind fun next => ?_
      cases next with
      | none => exact Engine.begins_done
      | some phase => exact ih phase

theorem begins_untilStopped (fuel : Nat) : (untilStopped setup fuel).Begins :=
  .bind (Engine.begins_of_asks ⟨by simp, fun _ => trivial⟩) fun entries =>
    .bind (Engine.begins_of_asks (asks_restoreTaskIds _ (by simp) (by simp) entries)) fun _ =>
      begins_phases fuel .pass

theorem begins_wrapUp (ended : Except Failure Bool) : (wrapUp setup ended).Begins := by
  unfold wrapUp
  split
  · exact Engine.begins_of_asks ⟨by simp, fun _ => ⟨by simp, fun _ => trivial⟩⟩
  · exact Engine.begins_done
  · refine Engine.begins_ask (by simp) fun _ => Engine.begins_ask (by simp) fun _ => ?_
    dsimp only
    split
    · exact Engine.begins_ask (by simp) fun _ => Engine.begins_done
    · exact Engine.begins_done

theorem begins_run (fuel : Nat) : (run setup fuel).Begins := by
  have hEnded : Engine.Begins (ExceptT.lift (ExceptT.run (untilStopped setup fuel)) >>= wrapUp setup) := by
    refine .bind (fun begun => ?_) begins_wrapUp
    exact (begins_untilStopped fuel begun).bind fun _ _ _ => trivial
  unfold run
  dsimp only
  split
  · exact Engine.begins_ask (by simp) fun _ => hEnded
  · exact hEnded

end Run

/-- Whatever a scheduler is started for, it begins a pass before it comes to any task. -/
theorem Duty.obeys_beginning (duty : Duty) (begun : Bool) :
    Program.Obeys beginning (fun _ _ => True) (duty.program setup) begun := by
  cases duty with
  | run phases => exact .bind (Run.begins_run phases begun) fun _ _ _ => trivial
  | passes count =>
      change Program.Obeys _ _ (series setup count) begun
      induction count generalizing begun with
      | zero => exact trivial
      | succ count ih => exact .bind (Pass.begins_runOnce begun) fun _ begun _ => ih begun

end Begins

namespace Watched

/-- What the status says of a stop is true: a loop that says it is stopping was asked to, and one that was
asked to says so while a task of a pass has its turn. -/
structure Truthful (s : Watched Unit) : Prop where
  requested : s.scene.monitor.status = .stopping → s.scene.monitor.stopRequested = true
  shown : s.course.current.isSome = true → s.scene.monitor.stopRequested = true →
    s.scene.monitor.status = .stopping

/-- The same by whether a pass has begun. -/
structure TruthfulIn (begun : Bool) (s : Watched Unit) : Prop where
  requested : s.scene.monitor.status = .stopping → s.scene.monitor.stopRequested = true
  turn : s.course.current.isSome = true → begun = true
  shown : begun = true → s.scene.monitor.status ≠ .idle ∧
    (s.scene.monitor.stopRequested = true → s.scene.monitor.status = .stopping)

end Watched

namespace Watch

open Watched

/-- No pass begins with a stop requested that the status does not show, unless they may be belated. -/
def punctual (belated : Prop) : Watch Unit where
  heard _ _ _ _ := ()
  seen _ _ := ()
  admits
    | s, .beginPass, _ => belated ∨
        (s.scene.monitor.stopRequested = true → s.scene.monitor.status = .stopping)
    | _, _, _ => True

/-- What a scheduler can come to that is asked for one thing after the other, and may be interrupted in any
of them. -/
inductive Serves {Memory : Type} (w : Watch Memory) (faulty : Prop) (first : Watched Memory) :
    Watched Memory → Prop where
  | enter : Serves w faulty first first
  | serve {s t : Watched Memory} {rest : Program Request Request.Answer Unit} (setup : LoopSetup)
      (duty : Duty) (before : Serves w faulty first s)
      (hLeads : Program.Leads (w.conduct faulty) (duty.program setup) (.begin s.scene s.memory) rest t) :
      Serves w faulty first t

variable {belated faulty : Prop} {s t : Watched Unit} {begun : Bool} {r : Request} {a : r.Answer}

theorem truthfulIn_frame (hMonitor : t.scene.monitor = s.scene.monitor) (hCourse : t.course = s.course)
    (h : s.TruthfulIn begun) : t.TruthfulIn begun := by
  constructor
  · rw [hMonitor]
    exact h.requested
  · rw [hCourse]
    exact h.turn
  · rw [hMonitor]
    exact h.shown

/-- A stop that is requested while a pass is under way is shown. -/
theorem truthfulIn_stop (hMonitor : t.scene.monitor = s.scene.monitor.stop)
    (hCurrent : t.course.current.isSome = true → begun = true) (h : s.TruthfulIn begun) :
    t.TruthfulIn begun := by
  have hShown := h.shown
  have hRequested := h.requested
  constructor
  · rw [hMonitor]
    exact fun _ => rfl
  · exact hCurrent
  · intro hBegun
    obtain ⟨hBusy, -⟩ := hShown hBegun
    rw [hMonitor]
    cases hStatus : s.scene.monitor.status with
    | idle => exact absurd hStatus hBusy
    | running => simp [Monitor.stop, hStatus]
    | stopping => simp [Monitor.stop, hStatus]

theorem truthfulIn_passes (hPasses : (punctual belated).Passes faulty s t) (h : s.TruthfulIn begun) :
    t.TruthfulIn begun := by
  cases hPasses with
  | elapse hElapses =>
      cases hElapses with
      | work hWorks => exact truthfulIn_frame (Scene.monitor_of_works hWorks) rfl h
      | age hAges =>
          obtain ⟨clock, -, rfl⟩ := hAges
          exact truthfulIn_frame (s := s) rfl rfl h
      | stop => exact truthfulIn_stop rfl h.turn h
  | deed => exact truthfulIn_frame (s := s) rfl rfl h

theorem truthfulIn_hears (hBelated : ¬ belated) (hPermits : Pass.beginning.permits begun r)
    (hHears : (punctual belated).Hears faulty r s a t) (h : s.TruthfulIn begun) :
    t.TruthfulIn (Pass.beginning.after begun r a) := by
  have hMonitor := Scene.monitor_of_answers hHears.answer
  have hCourse := hHears.course_eq
  have hCurrent (hOther : ∀ name, r ≠ .entry name) (hSome : t.course.current.isSome = true) :
      begun = true := by
    rw [hCourse] at hSome
    exact h.turn (Course.isSome_current_after hOther hSome)
  cases r with
  | beginPass =>
      have hShows := hHears.admitted.resolve_left hBelated
      have hRequested := h.requested
      refine ⟨?_, fun _ => rfl, fun _ => ?_⟩ <;> rw [hMonitor] <;>
        cases hStatus : s.scene.monitor.status <;>
          simp_all [Request.onMonitor, Monitor.beginPass]
  | setIdle =>
      refine ⟨?_, fun hSome => ?_, fun hBegun => ?_⟩
      · rw [hMonitor]
        intro hStopping
        cases hStopping
      · rw [hCourse] at hSome
        cases hSome
      · cases hBegun
  | stop => exact truthfulIn_stop hMonitor (hCurrent (by simp)) h
  | entry name =>
      have hBegun : begun = true := hPermits
      refine ⟨?_, fun _ => hBegun, ?_⟩ <;> rw [hMonitor]
      · exact h.requested
      · exact h.shown
  | _ =>
      refine ⟨?_, hCurrent (by simp), ?_⟩ <;> rw [hMonitor]
      · exact h.requested
      · exact h.shown

theorem truthful_of_serves {scene : Scene} (hBelated : ¬ belated) (hMonitor : scene.monitor = {})
    (h : Serves (punctual belated) faulty (.begin scene ()) t) : t.Truthful := by
  suffices hAll : ∃ begun, t.TruthfulIn begun by
    obtain ⟨begun, hIn⟩ := hAll
    exact ⟨hIn.requested, fun hTurn => (hIn.shown (hIn.turn hTurn)).2⟩
  induction h with
  | enter =>
      refine ⟨false, ?_, nofun, nofun⟩
      change scene.monitor.status = .stopping → _
      rw [hMonitor]
      nofun
  | serve setup duty _ hLeads ih =>
      obtain ⟨before, hBefore⟩ := ih
      have hBegin : TruthfulIn false (.begin _ ()) := ⟨hBefore.requested, nofun, nofun⟩
      obtain ⟨begun, hAfter, -⟩ := (duty.obeys_beginning false).of_leads (fun φ u => TruthfulIn φ u)
        truthfulIn_passes (fun hPermits hHears hIn => ⟨trivial, truthfulIn_hears hBelated hPermits hHears hIn⟩)
        hLeads hBegin
      exact ⟨begun, hAfter⟩

/-! ### A belated pass -/

/-- Runs once, at the first tick. -/
def prompt : Entry :=
  Draft.entryFrom ⟨"job", "beep", none, some 1, none, false, none, none, none⟩ 1 none "now"

/-- It is all that is stored, and the loop has never been started. -/
def unstarted : Scene where
  store := { Store.empty with entries := some (Table.empty.put (.ofEntry prompt)) }
  clock := 1

/-- The loop is asked to stop, and then to make a pass. This far the action of the task was called. -/
def belatedPass : Program Request Request.Answer Unit × Watched Unit :=
  (punctual True).start (fun _ => .returned none) (fun _ => []) 10 ((Duty.passes 1).program {})
    (.begin { unstarted with monitor := unstarted.monitor.stop } ())

theorem status_belatedPass : belatedPass.2.course.current.isSome = true ∧
    belatedPass.2.scene.monitor.stopRequested = true ∧ belatedPass.2.scene.monitor.status = .running := by
  decide +kernel

theorem serves_belatedPass (faulty : Prop) :
    Serves (punctual True) faulty (.begin unstarted ()) belatedPass.2 := by
  have hAdmits (s : Watched Unit) (r : Request) (a : r.Answer) : (punctual True).admits s r a := by
    cases r <;> first | exact .inl trivial | exact trivial
  have hLeads : Program.Leads ((punctual True).conduct faulty) ((Duty.passes 1).program {}) _
      belatedPass.1 belatedPass.2 := leads_start hAdmits _ (by simp) 10 _ _
  exact .serve {} (.passes 1) .enter (.move (.elapse .stop) hLeads)

/-- The status is true in what it says of stops exactly if no pass begins after a stop was requested that the
status does not show. A stop that is requested before the first pass or between two passes is of this
kind. -/
theorem status_truthful_iff (belated : Prop) :
    (∀ scene t, scene.monitor = {} → Serves (punctual belated) True (.begin scene ()) t → t.Truthful) ↔
      ¬ belated := by
  constructor
  · intro hAll hBelated
    obtain rfl : belated = True := eq_true hBelated
    obtain ⟨hTurn, hStop, hStatus⟩ := status_belatedPass
    have hShown := (hAll unstarted belatedPass.2 rfl (serves_belatedPass True)).shown hTurn hStop
    cases hShown.symm.trans hStatus
  · exact fun hBelated scene t => truthful_of_serves hBelated

/-- A task is executed while a stop has been requested, and the status is running. -/
theorem shown_as_running : ∃ t, Serves (punctual True) False (.begin unstarted ()) t ∧
    t.course.current.isSome = true ∧ t.scene.monitor.stopRequested = true ∧
      t.scene.monitor.status = .running :=
  ⟨belatedPass.2, serves_belatedPass False, status_belatedPass⟩

end Watch

end TickScheduler
