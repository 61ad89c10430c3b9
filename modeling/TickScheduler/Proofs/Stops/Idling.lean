import TickScheduler.Proofs.Stops.Status
/-!
Whether a single pass leaves the loop idle. It becomes idle where it ends well. A failure ends it at once,
and the status stays what it was: once the pass has begun, the loop never says again that it is idle.
-/
namespace TickScheduler

/-- How far a pass on its own has come. -/
inductive Pass.Stage where
  | fresh
  | begun
  | settled

/-- A pass begins at most once, and the loop may be idle again at its end. -/
def Pass.stages : Discipline Request Request.Answer Stage where
  permits _ _ := True
  sensible _ _ := True
  after
    | _, .beginPass, _ => .begun
    | _, .setIdle, _ => .settled
    | φ, _, _ => φ

namespace Pass

open Program (Obeys)

variable {setup : LoopSetup}

/-- The end of a pass: all is settled unless something failed. -/
def Settles (result : Except Failure Unit) (φ : Stage) : Prop :=
  result = .ok () ↔ φ = .settled

/-- A pass without active entries is settled at once; any other one begins and settles nothing. -/
theorem passOver_inStages (entries : List Entry) :
    Obeys stages (fun result φ => φ = .settled → result = .ok ()) (ExceptT.run (passOver setup entries))
      .fresh := by
  cases entries with
  | nil => exact ⟨trivial, fun _ _ => ⟨trivial, fun _ _ _ => rfl⟩⟩
  | cons e rest =>
      refine ⟨trivial, fun _ _ => ?_⟩
      refine (Obeys.of_asks (P := (· = .begun)) (fun _ _ => trivial) ?_ ((asks_passOver e rest).2 ()) rfl).mono ?_
      · rintro φ r a rfl hAllowed
        cases r <;> first | rfl | exact hAllowed.elim
      · rintro result φ rfl
        exact nofun

theorem runOnce_inStages : Obeys stages Settles (ExceptT.run (runOnce setup)) .fresh := by
  have hListed : Obeys stages (fun _ φ => φ = .fresh) (ExceptT.run Engine.activeEntries) .fresh :=
    ⟨trivial, fun answer _ => by cases answer <;> exact rfl⟩
  have hPass : Obeys stages (fun result φ => φ = .settled → result = .ok ()) (ExceptT.run (pass setup))
      .fresh := by
    refine Engine.obeys_bind hListed ?_ ?_
    · rintro entries φ rfl
      exact passOver_inStages entries
    · rintro e φ rfl
      exact nofun
  refine Engine.obeys_bind hPass ?_ fun e φ hSettled => ?_
  · exact fun _ _ _ => ⟨trivial, fun _ _ => iff_of_true rfl rfl⟩
  · exact iff_of_false nofun fun hEnd => nomatch hSettled hEnd

end Pass

namespace Monitor

variable {m : Monitor}

theorem beginPass_ne_idle : m.beginPass.status ≠ .idle := by
  unfold beginPass
  split <;> simp_all

theorem stop_eq_idle_iff : m.stop.status = .idle ↔ m.status = .idle := by
  unfold stop
  split <;> simp_all

end Monitor

/-- Only the beginning and the end of a pass make a difference to whether the loop is idle. -/
theorem Request.idle_onMonitor_iff {r : Request} {m : Monitor} (hBegin : r ≠ .beginPass)
    (hIdle : r ≠ .setIdle) : (r.onMonitor m).status = .idle ↔ m.status = .idle := by
  cases r with
  | beginPass => exact absurd rfl hBegin
  | setIdle => exact absurd rfl hIdle
  | stop => exact Monitor.stop_eq_idle_iff
  | _ => exact .rfl

/-- Idle as the pass has come to be, and `wasIdle` before it begins; whether it has begun is remembered. -/
def Watched.IdlesIn (wasIdle : Prop) (s : Watched Bool) : Pass.Stage → Prop
  | .fresh => s.memory = false ∧ (s.scene.monitor.status = .idle ↔ wasIdle)
  | .begun => s.memory = true ∧ s.scene.monitor.status ≠ .idle
  | .settled => s.scene.monitor.status = .idle

namespace Watch

/-- Remembers whether a pass has begun. -/
def beginnings : Watch Bool where
  heard
    | _, _, .beginPass, _ => true
    | begun, _, _, _ => begun
  seen begun _ := begun

variable {faulty wasIdle : Prop} {s t : Watched Bool} {φ : Pass.Stage} {r : Request} {a : r.Answer}

theorem idlesIn_congr (hMemory : t.memory = s.memory)
    (hIdle : t.scene.monitor.status = .idle ↔ s.scene.monitor.status = .idle) (h : s.IdlesIn wasIdle φ) :
    t.IdlesIn wasIdle φ := by
  cases φ with
  | fresh => exact ⟨hMemory.trans h.1, hIdle.trans h.2⟩
  | begun => exact ⟨hMemory.trans h.1, fun hEnd => h.2 (hIdle.mp hEnd)⟩
  | settled => exact hIdle.mpr h

theorem idlesIn_passes (hPasses : beginnings.Passes faulty s t) (h : s.IdlesIn wasIdle φ) :
    t.IdlesIn wasIdle φ := by
  cases hPasses with
  | elapse hElapses =>
      refine idlesIn_congr (s := s) rfl ?_ h
      cases hElapses with
      | work hWorks => rw [Scene.monitor_of_works hWorks]
      | age hAges =>
          obtain ⟨clock, -, rfl⟩ := hAges
          rfl
      | stop => exact Monitor.stop_eq_idle_iff
  | deed => exact idlesIn_congr (s := s) rfl .rfl h

theorem idlesIn_hears (hHears : beginnings.Hears faulty r s a t) (h : s.IdlesIn wasIdle φ) :
    t.IdlesIn wasIdle (Pass.stages.after φ r a) := by
  have hMonitor := Scene.monitor_of_answers hHears.answer
  have hMemory := hHears.memory_eq
  cases r with
  | beginPass => exact ⟨hMemory, hMonitor ▸ Monitor.beginPass_ne_idle⟩
  | setIdle =>
      change t.scene.monitor.status = .idle
      rw [hMonitor]
      rfl
  | _ =>
      refine idlesIn_congr hMemory ?_ h
      rw [hMonitor]
      exact Request.idle_onMonitor_iff nofun nofun

/-- A single pass that is over has left the loop idle exactly if it ended well, or failed before it began
while the loop was idle anyway. -/
theorem idle_after_runOnce_iff {setup : LoopSetup} {scene : Scene} {result : Except Failure Unit}
    (h : Program.Leads (beginnings.conduct faulty) (ExceptT.run (Pass.runOnce setup)) (.begin scene false)
      (.done result) t) :
    t.scene.monitor.status = .idle ↔
      result = .ok () ∨ (t.memory = false ∧ scene.monitor.status = .idle) := by
  obtain ⟨φ, hIdles, hSettles⟩ := Pass.runOnce_inStages.of_leads
    (fun φ u => Watched.IdlesIn (scene.monitor.status = .idle) u φ) (fun hPasses => idlesIn_passes hPasses)
    (fun _ hHears hIdles => ⟨trivial, idlesIn_hears hHears hIdles⟩) h ⟨rfl, .rfl⟩
  have hEnd : result = .ok () ↔ φ = .settled := hSettles
  cases φ with
  | fresh => simp [hEnd, hIdles.1, hIdles.2]
  | begun => simp [hEnd, hIdles.1, hIdles.2]
  | settled => simp [hEnd, show t.scene.monitor.status = .idle from hIdles]

/-! ### A pass that fails -/

/-- There is no place for results. -/
def placeless : Scene where
  store := { unstarted.store with results := none }
  clock := 1

/-- A pass that executes nothing, since it could not be recorded. -/
def stranded : Except Failure Unit × Watched Bool :=
  (ExceptT.run (Pass.runOnce {})).run (beginnings.reply (fun _ => .returned none) fun _ => [])
    (.begin placeless false)

theorem leads_stranded (faulty : Prop) :
    Program.Leads (beginnings.conduct faulty) (ExceptT.run (Pass.runOnce {})) (.begin placeless false)
      (.done stranded.1) stranded.2 :=
  leads_run (fun _ _ _ => trivial) _ (by simp) _ _

theorem status_stranded : stranded.1 ≠ .ok () ∧ stranded.2.memory = true ∧
    placeless.monitor.status = .idle ∧ stranded.2.scene.monitor.status = .running := by
  decide +kernel

/-- Though the loop was idle before, it is not after a pass that has begun and fails. -/
theorem not_idle_of_stranded :
    Program.Leads (beginnings.conduct False) (ExceptT.run (Pass.runOnce {})) (.begin placeless false)
      (.done stranded.1) stranded.2 ∧
      stranded.2.memory = true ∧ placeless.monitor.status = .idle ∧
        stranded.2.scene.monitor.status ≠ .idle := by
  have hLeads := leads_stranded False
  obtain ⟨hFails, hBegun, hBefore, -⟩ := status_stranded
  refine ⟨hLeads, hBegun, hBefore, fun hIdle => ?_⟩
  rcases (idle_after_runOnce_iff hLeads).mp hIdle with hOk | ⟨hFresh, -⟩
  · exact hFails hOk
  · cases hBegun.symm.trans hFresh

/-- Nothing else happens than that a pass fails, and the loop says that it is running. -/
theorem running_after_runOnce : ∃ e t, Program.Leads (beginnings.conduct False)
    (ExceptT.run (Pass.runOnce {})) (.begin placeless false) (.done (.error e)) t ∧
      t.scene.monitor.status = .running := by
  have hLeads := leads_stranded False
  obtain ⟨hFails, -, -, hStatus⟩ := status_stranded
  cases hResult : stranded.1 with
  | ok => exact absurd hResult hFails
  | error e => exact ⟨e, stranded.2, hResult ▸ hLeads, hStatus⟩

end Watch

end TickScheduler
