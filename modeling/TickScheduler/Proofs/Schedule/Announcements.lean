import TickScheduler.Proofs.Engine.DueTasks
import TickScheduler.Proofs.Engine.Parts
import TickScheduler.Proofs.Engine.Watch
/-!
How the list of announced tasks is made. A pass reads the entries, looks at the clock once for each of them
and once more, and announces what is left of the entries then. From there on the list stands until another
one is announced. If the clock stands still while the list is made, it is a function of the entries.
-/
namespace TickScheduler

/-- A request that announces nothing. -/
def Request.IsSilent : Request → Prop
  | .publish _ => False
  | _ => True

/-- Running tasks announces nothing. -/
theorem Request.InTurn.isSilent {limit : Option Nat} {r : Request} (h : r.InTurn limit) : r.IsSilent := by
  cases r <;> first | exact trivial | exact h.elim

theorem Monitor.upcoming_beginPass (m : Monitor) : m.beginPass.upcoming = m.upcoming := by
  unfold beginPass
  split <;> rfl

theorem Request.upcoming_onMonitor {r : Request} (hSilent : r.IsSilent) (m : Monitor) :
    (r.onMonitor m).upcoming = m.upcoming := by
  cases r with
  | publish => exact hSilent.elim
  | beginPass => exact m.upcoming_beginPass
  | _ => rfl

namespace Scene

variable {s t : Scene} {faulty : Prop}

theorem upcoming_of_answers {r : Request} {a : r.Answer} (hSilent : r.IsSilent)
    (h : Answers faulty r s a t) : t.monitor.upcoming = s.monitor.upcoming := by
  rw [monitor_of_answers h, r.upcoming_onMonitor hSilent]

theorem upcoming_of_works (h : Works faulty s t) : t.monitor.upcoming = s.monitor.upcoming := by
  rw [monitor_of_works h]

theorem Elapses.upcoming_eq (h : Elapses faulty s t) : t.monitor.upcoming = s.monitor.upcoming := by
  cases h with
  | work h => exact upcoming_of_works h
  | age h =>
      obtain ⟨clock, -, rfl⟩ := h
      rfl
  | stop => rfl

end Scene

namespace Pass

variable {now lookahead : Tick}

@[simp] theorem announced_nil : announced [] now lookahead = .empty := by
  simp [announced, TaskQueue.ofList, TaskQueue.empty]

/-- What has gone into the list of announced tasks so far. -/
structure Assembly where
  /-- The entries that were active at the beginning of the pass. -/
  entries : List Entry := []
  /-- What the clock said each time. -/
  readings : List Tick := []
  isAnnounced : Bool := false

namespace Assembly

/-- The assembly after a request and its answer. -/
def after (φ : Assembly) : (r : Request) → r.Answer → Assembly
  | .activeEntries, .ok entries => { φ with entries }
  | .now, tick => { φ with readings := φ.readings ++ [tick] }
  | .publish _, () => { φ with isAnnounced := true }
  | _, _ => φ

/-- The clock said the same each time. -/
def StandsAt (φ : Assembly) (now : Tick) : Prop :=
  ∀ tick ∈ φ.readings, tick = now

theorem standsAt_of_all {φ : Assembly} (h : φ.readings.all (· = now) = true) : φ.StandsAt now :=
  fun tick hTick => of_decide_eq_true (List.all_eq_true.mp h tick hTick)

/-- If the clock stood still, the list is what is left of the entries announces. -/
def Announces (φ : Assembly) (lookahead : Tick) (upcoming : TaskQueue) : Prop :=
  ∀ now, φ.StandsAt now → (∀ e ∈ φ.entries, e.Yields now) ∧
    upcoming = announced (φ.entries.map (·.settled now)) now lookahead

end Assembly

/-- A pass reads its entries once and announces what is left of them. -/
def assembling (lookahead : Tick) : Discipline Request Request.Answer Assembly where
  permits
    | φ, .activeEntries => φ.isAnnounced = false
    | φ, .publish upcoming => φ.Announces lookahead upcoming
    | _, _ => True
  sensible _ _ := True
  after := Assembly.after

section Assembles

open Program (Obeys)

variable {setup : LoopSetup} {φ : Assembly}

/-- What a look at the clock for each entry adds to the assembly. -/
def Collects (entries : List Entry) (φ : Assembly) :
    Except Failure (List Task × List Entry) → Assembly → Prop
  | .ok (_, others), ψ => ∃ ticks, ψ = { φ with readings := φ.readings ++ ticks } ∧
      ∀ now, (∀ tick ∈ ticks, tick = now) →
        (∀ e ∈ entries, e.Yields now) ∧ others = entries.map (·.settled now)
  | .error _, _ => True

theorem assembles_collect (entries : List Entry) (φ : Assembly) :
    Obeys (assembling lookahead) (Collects entries φ) (ExceptT.run (collect entries)) φ := by
  induction entries generalizing φ with
  | nil => exact ⟨[], by simp, fun _ _ => ⟨nofun, rfl⟩⟩
  | cons e rest ih =>
      unfold collect
      refine ⟨trivial, fun (tick : Tick) _ => ?_⟩
      change Obeys _ _ (ExceptT.run (Engine.ofExcept (e.consume tick) >>= _)) _
      cases hConsume : e.consume tick with
      | error failure => exact trivial
      | ok consumed =>
          obtain ⟨task, f⟩ := consumed
          refine ⟨trivial, fun saved _ => ?_⟩
          cases saved with
          | error failure => exact trivial
          | ok =>
              refine Engine.obeys_bind (ih { φ with readings := φ.readings ++ [tick] }) ?_ fun _ _ _ => trivial
              rintro ⟨tasks, others⟩ ψ ⟨ticks, rfl, hRest⟩
              refine ⟨tick :: ticks, by simp, fun now hNow => ?_⟩
              obtain ⟨rfl, hTicks⟩ := List.forall_mem_cons.mp hNow
              obtain ⟨hYields, rfl⟩ := hRest _ hTicks
              have hSettled : e.settled tick = f := by rw [Entry.settled, hConsume]
              have hDue : e.dueTask tick = task := by rw [Entry.dueTask, hConsume]
              refine ⟨List.forall_mem_cons.mpr ⟨?_, hYields⟩, ?_⟩
              · rw [Entry.Yields, hConsume, hSettled, hDue]
              · rw [List.map_cons, hSettled]

/-- Running tasks changes nothing about the list. -/
theorem assembles_runTasks (tasks : List Task) (hAnnounced : φ.isAnnounced = true) :
    Obeys (assembling lookahead) (fun _ ψ => ψ.isAnnounced = true) (ExceptT.run (runTasks setup tasks)) φ := by
  refine Obeys.of_asks (P := fun ψ : Assembly => ψ.isAnnounced = true) ?_ ?_
    (asks_runTasks tasks) hAnnounced
  · intro ψ r _ hAllowed
    cases r <;> first | exact trivial | exact hAllowed.elim
  · intro ψ r a hKnown hAllowed
    cases r <;> first | exact hKnown | exact hAllowed.elim

theorem assembles_passOver (entries : List Entry) :
    Obeys (assembling setup.settings.lookaheadMultiplier) (fun result ψ => result = .ok () → ψ.isAnnounced = true)
      (ExceptT.run (passOver setup entries)) { entries } := by
  unfold passOver
  split
  · refine ⟨fun now _ => ?_, fun _ _ => ⟨trivial, fun _ _ _ => rfl⟩⟩
    exact ⟨nofun, announced_nil.symm⟩
  · refine ⟨trivial, fun _ _ => Engine.obeys_bind (assembles_collect _ _) ?_ fun _ _ _ => nofun⟩
    rintro ⟨tasks, others⟩ ψ ⟨ticks, rfl, hCollects⟩
    refine ⟨trivial, fun (tick : Tick) _ => ⟨fun now hNow => ?_, fun _ _ => ?_⟩⟩
    · -- the last look at the clock said the same as those before
      obtain ⟨hTicks, hTick⟩ := List.forall_mem_append.mp hNow
      obtain rfl : tick = now := hTick tick List.mem_cons_self
      obtain ⟨hYields, rfl⟩ := hCollects tick hTicks
      exact ⟨hYields, rfl⟩
    · exact (assembles_runTasks _ rfl).mono fun _ _ hKnown _ => hKnown

theorem assembles_pass : Obeys (assembling setup.settings.lookaheadMultiplier)
    (fun result ψ => result = .ok () → ψ.isAnnounced = true) (ExceptT.run (pass setup)) {} := by
  refine ⟨rfl, fun answer _ => ?_⟩
  cases answer with
  | error e => exact nofun
  | ok entries => exact assembles_passOver entries

end Assembles

end Pass

namespace Watch

/-- Remembers what goes into the list of announced tasks. -/
def assembling : Watch Pass.Assembly where
  heard φ _ r a := φ.after r a
  seen φ _ := φ

variable {faulty : Prop} {setup : LoopSetup} {scene : Scene} {t : Watched Pass.Assembly}
  {result : Except Failure Unit}

/-- A pass that ends well has announced something, and what was announced is what is left of its entries. -/
theorem announces_of_leads (h : Program.Leads (assembling.conduct faulty) (ExceptT.run (Pass.pass setup))
    (.begin scene {}) (.done result) t) :
    (result = .ok () → t.memory.isAnnounced = true) ∧ (t.memory.entries.map Entry.name).Nodup ∧
      (t.memory.isAnnounced = true →
        t.memory.Announces setup.settings.lookaheadMultiplier t.scene.monitor.upcoming) := by
  let inv (φ : Pass.Assembly) (u : Watched Pass.Assembly) : Prop := u.memory = φ ∧
    (φ.entries.map Entry.name).Nodup ∧ (φ.isAnnounced = true →
      φ.Announces setup.settings.lookaheadMultiplier u.scene.monitor.upcoming)
  have hCome := Pass.assembles_pass.of_leads inv ?_ ?_ h ⟨rfl, .nil, nofun⟩
  · obtain ⟨φ, ⟨rfl, hNodup, hAnnounces⟩, hEnd⟩ := hCome
    exact ⟨hEnd, hNodup, hAnnounces⟩
  · rintro φ u v hPasses ⟨rfl, hNodup, hAnnounces⟩
    cases hPasses with
    | elapse hElapses =>
        refine ⟨rfl, hNodup, fun hKnown => ?_⟩
        rw [hElapses.upcoming_eq]
        exact hAnnounces hKnown
    | deed => exact ⟨rfl, hNodup, hAnnounces⟩
  · rintro φ r u a v hPermits hHears ⟨rfl, hNodup, hAnnounces⟩
    refine ⟨trivial, hHears.memory_eq, ?_⟩
    have hSame (hSilent : r.IsSilent) : v.scene.monitor.upcoming = u.scene.monitor.upcoming :=
      Scene.upcoming_of_answers hSilent hHears.answer
    cases r with
    | publish upcoming =>
        refine ⟨hNodup, fun _ => ?_⟩
        rw [Scene.monitor_of_answers hHears.answer]
        exact hPermits
    | activeEntries =>
        rw [hSame trivial]
        cases a with
        | ok entries =>
            refine ⟨(Scene.snapshot_answer hHears.answer).2.1, fun hKnown => ?_⟩
            cases hPermits.symm.trans hKnown
        | error e => exact ⟨hNodup, hAnnounces⟩
    | now =>
        rw [hSame trivial]
        refine ⟨hNodup, fun hKnown now hNow => hAnnounces hKnown now ?_⟩
        exact (List.forall_mem_append.mp hNow).1
    | _ =>
        rw [hSame trivial]
        exact ⟨hNodup, hAnnounces⟩

end Watch

end TickScheduler
