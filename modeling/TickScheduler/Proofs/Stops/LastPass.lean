import TickScheduler.Proofs.Stops.Diary
/-!
What a stop does to a run. A loop that gives way to others only where it waits for something finishes the
pass that it is in, does all of it, and neither begins another one nor sleeps again.
-/
namespace TickScheduler

/-- Requests at which the loop gives way to whatever else goes on. -/
def Request.Awaits : Request → Prop
  | .call _ _ | .pause | .sleep | .drain | .final (.notify _ _) => True
  | _ => False

namespace Watch

section Cooperation

variable {Memory : Type}

/-- An answer. If the loop gives way, anything may happen before and after it. -/
inductive Yields (w : Watch Memory) (r : Request) :
    Watched Memory → r.Answer → Watched Memory → Prop where
  | atOnce {s t : Watched Memory} {a : r.Answer} (hHears : w.Hears False r s a t) : Yields w r s a t
  | meanwhile {s t u v : Watched Memory} {a : r.Answer} (hAwaits : r.Awaits)
      (before : (w.conduct False).Drifts s u) (hHears : w.Hears False r u a v)
      (after : (w.conduct False).Drifts v t) : Yields w r s a t

/-- Clients, actions, the background and those who ask the loop to stop have their turn only where the loop
gives way. The clock goes on all the time. -/
def cooperative (w : Watch Memory) : Conduct Request Request.Answer (Watched Memory) where
  answers := w.Yields
  moves s t := ∃ scene, s.scene.Ages scene ∧ t = { s with scene }

end Cooperation

/-- Keeps a diary as long as nothing fails. -/
def diary : Watch Diary where
  heard := Diary.heard
  seen m _ := m
  admits _ r a := r.succeeds a = true

end Watch

namespace Watched

/-- What is the case after something that the loop has no part in. -/
structure Idles (s t : Watched Diary) : Prop where
  course_eq : t.course = s.course
  memory_eq : t.memory = s.memory
  clock_le : s.scene.clock ≤ t.scene.clock
  jobs_eq : s.scene.jobs = [] → t.scene.jobs = []
  idle : s.scene.monitor.status = .idle → t.scene.monitor.status = .idle
  stopRequested : s.scene.monitor.stopRequested = true → t.scene.monitor.stopRequested = true

namespace Idles

variable {s t u : Watched Diary}

theorem refl (s : Watched Diary) : Idles s s :=
  ⟨rfl, rfl, Int64.le_refl _, id, id, id⟩

theorem trans (left : Idles s t) (right : Idles t u) : Idles s u where
  course_eq := right.course_eq.trans left.course_eq
  memory_eq := right.memory_eq.trans left.memory_eq
  clock_le := Int64.le_trans left.clock_le right.clock_le
  jobs_eq := right.jobs_eq ∘ left.jobs_eq
  idle := right.idle ∘ left.idle
  stopRequested := right.stopRequested ∘ left.stopRequested

theorem of_ages {scene : Scene} (h : s.scene.Ages scene) : Idles s { s with scene } := by
  obtain ⟨clock, hClock, rfl⟩ := h
  exact ⟨rfl, rfl, hClock, id, id, id⟩

theorem of_passes {faulty : Prop} (h : Watch.diary.Passes faulty s t) : Idles s t := by
  cases h with
  | deed => exact ⟨rfl, rfl, Int64.le_refl _, id, id, id⟩
  | elapse hElapses =>
      cases hElapses with
      | age hAges => exact of_ages hAges
      | stop =>
          refine ⟨rfl, rfl, Int64.le_refl _, id, fun hIdle => ?_, fun _ => rfl⟩
          simp [Monitor.stop, hIdle]
      | work hWorks =>
          have hMonitor := Scene.monitor_of_works hWorks
          refine ⟨rfl, rfl, (Scene.Elapses.work hWorks).clock_le, fun hNone => ?_, fun hIdle => ?_, fun hStop => ?_⟩
          · cases hWorks <;> simp_all
          · exact hMonitor ▸ hIdle
          · exact hMonitor ▸ hStop

theorem of_drifts {faulty : Prop} (h : (Watch.diary.conduct faulty).Drifts s t) : Idles s t := by
  induction h with
  | refl => exact refl s
  | tail _ last ih => exact ih.trans (of_passes last)

end Idles

end Watched

namespace Run.Stage

open Watched (Idles)

variable {s t : Watched Diary} {σ : Stage} {r : Request} {a : r.Answer}

/-- What is the case in a stage, whatever goes on besides. -/
def Fits (s : Watched Diary) : Stage → Prop
  | fresh => s.memory.passes = [] ∧ s.memory.looked = none
  | clear => ∀ p ∈ s.memory.passes, p.began < s.scene.clock
  | looked since => s.memory.looked = some since ∧ since ≤ s.scene.clock ∧
      ∀ p ∈ s.memory.passes, p.began < since
  | passing since | waiting since | dozing since => s.memory.began? = some since
  | noticed since now => s.memory.began? = some since ∧ since ≤ now ∧ now ≤ s.scene.clock
  | leaving => s.memory.passes ≠ []
  | drained stopped => s.scene.jobs = [] ∧ (stopped = true → s.memory.passes ≠ [])
  | ended stopped => s.scene.jobs = [] ∧ (stopped = true → s.memory.passes ≠ []) ∧
      s.scene.monitor.status = .idle

/-- The loop has seen that it is not to stop, and has not given way since. -/
def Heedless : Stage → Prop
  | clear | looked _ | dozing _ => True
  | _ => False

theorem fits_of_idles (h : Idles s t) (hFits : σ.Fits s) : σ.Fits t := by
  have hMemory := h.memory_eq
  cases σ with
  | clear => exact fun p hp => Std.lt_of_lt_of_le (hFits p (hMemory ▸ hp)) h.clock_le
  | looked since =>
      obtain ⟨hLooked, hSince, hPasses⟩ := hFits
      exact ⟨hMemory ▸ hLooked, Int64.le_trans hSince h.clock_le, hMemory ▸ hPasses⟩
  | noticed since now =>
      obtain ⟨hBegan, hSince, hNow⟩ := hFits
      exact ⟨hMemory ▸ hBegan, hSince, Int64.le_trans hNow h.clock_le⟩
  | drained stopped => exact ⟨h.jobs_eq hFits.1, hMemory ▸ hFits.2⟩
  | ended stopped => exact ⟨h.jobs_eq hFits.1, hMemory ▸ hFits.2.1, h.idle hFits.2.2⟩
  | fresh | passing | waiting | dozing | leaving => simpa only [Fits, hMemory] using hFits

/-- When the clock is looked at, the passes so far have begun before. -/
theorem fits_looked {now : Tick} (hHears : Watch.diary.Hears False .now s now t)
    (hPasses : ∀ p ∈ s.memory.passes, p.began < s.scene.clock) : (looked now).Fits t := by
  have hMemory : t.memory = { s.memory with looked := some now } := hHears.memory_eq
  have hClock := Scene.clock_of_answers hHears.answer
  obtain ⟨rfl, -⟩ := hHears.answer
  refine ⟨?_, ?_, ?_⟩
  · rw [hMemory]
  · rw [hClock]
    exact Int64.le_refl _
  · rwa [hMemory]

/-- Nothing goes on in the background any more when it was waited for. -/
theorem fits_drained {a : Request.drain.Answer} {stopped : Bool} (hHears : Watch.diary.Hears False .drain s a t)
    (hPasses : stopped = true → t.memory.passes ≠ []) : (drained stopped).Fits t := by
  obtain ⟨hNone, hSame⟩ := hHears.answer
  exact ⟨hSame ▸ hNone, hPasses⟩

/-- The loop has looked whether it is to stop, at a later tick or the same. -/
theorem fits_noticed {since now : Tick} {stopping : Bool}
    (hOrderly : Sitting.Orderly s.memory.passes s.course s.scene.clock)
    (hHears : Watch.diary.Hears False .stopRequested s stopping t) (hFits : (noticed since now).Fits s) :
    ((noticed since now).after .stopRequested stopping).Fits t := by
  obtain ⟨hHead, hSince, hNow⟩ := hFits
  have hMemory : t.memory = s.memory.heard s.course .stopRequested stopping := hHears.memory_eq
  have hStill : t.memory.began? = some since := by
    rw [hMemory, Diary.began?_heard (by simp), hHead]
  cases stopping with
  | true => exact Diary.passes_ne_nil hStill
  | false =>
      simp only [Stage.after, Bool.false_eq_true, if_false]
      split
      · exact hStill
      · rename_i hLeft
        have hSame : t.memory.passes = s.memory.passes := by
          rw [hMemory, Diary.passes_heard (by simp)]
          cases s.memory.passes <;> rfl
        -- the clock has left the tick at which the last pass began
        have hPassed : since < now := Std.lt_of_le_of_ne hSince fun h => hLeft h.symm
        intro p hp
        have hBefore := (Diary.began_le hOrderly hHead).2 p (hSame ▸ hp)
        rw [Scene.clock_of_answers hHears.answer]
        exact Std.lt_of_lt_of_le (Std.lt_of_le_of_lt hBefore hPassed) hNow

/-- What is the case in a stage follows from what was the case in the one before. -/
theorem fits_of_hears (hPermits : σ.Permits r)
    (hOrderly : Sitting.Orderly s.memory.passes s.course s.scene.clock)
    (hHears : Watch.diary.Hears False r s a t) (hFits : σ.Fits s) : (σ.after r a).Fits t := by
  have hMemory : t.memory = s.memory.heard s.course r a := hHears.memory_eq
  have hBegan (hNoPass : r ≠ .activeEntries) : t.memory.began? = s.memory.began? := by
    rw [hMemory, Diary.began?_heard hNoPass]
  have hSome (hNoPass : r ≠ .activeEntries) (hPasses : s.memory.passes ≠ []) : t.memory.passes ≠ [] := by
    rwa [hMemory, ← List.length_pos_iff, Diary.length_heard hNoPass, List.length_pos_iff]
  cases σ with
  | fresh =>
      obtain ⟨hNone, hLooked⟩ := hFits
      cases r with
      | drain => exact fits_drained hHears (by simp)
      | now => exact fits_looked hHears (by simp [hNone])
      | activeEntries => simp [Stage.after, Fits, hMemory, Diary.heard, hNone, hLooked]
      | removeHealthFile | lastTaskId | saveCursor => simp [Stage.after, Fits, hMemory, Diary.heard, hNone]
      | _ => exact hPermits.elim
  | clear =>
      cases r with
      | drain => exact fits_drained hHears (by simp)
      | now => exact fits_looked hHears hFits
      | _ => exact hPermits.elim
  | looked since =>
      cases r with
      | activeEntries => simp [Stage.after, Fits, hMemory, Diary.heard, hFits.1, Diary.began?]
      | _ => exact hPermits.elim
  | passing since =>
      have hStill (hNoPass : r ≠ .activeEntries) : t.memory.began? = some since := (hBegan hNoPass).trans hFits
      cases r with
      | stopRequested =>
          cases a with
          | true => exact Diary.passes_ne_nil (hStill (by simp))
          | false => exact hStill (by simp)
      | activeEntries | sleep | drain | stop => exact hPermits.elim
      | _ => exact hStill (by simp)
  | waiting since =>
      cases r with
      | drain => exact fits_drained hHears (by simp)
      | now =>
          have hClock := Scene.clock_of_answers hHears.answer
          obtain ⟨rfl, -⟩ := hHears.answer
          exact ⟨(hBegan (by simp)).trans hFits, (Diary.began_le hOrderly hFits).1, hClock ▸ Int64.le_refl _⟩
      | _ => exact hPermits.elim
  | noticed since now =>
      cases r with
      | stopRequested => exact fits_noticed hOrderly hHears hFits
      | _ => exact hPermits.elim
  | dozing since =>
      cases r with
      | sleep => exact (hBegan (by simp)).trans hFits
      | _ => exact hPermits.elim
  | leaving =>
      cases r with
      | drain => exact fits_drained hHears fun _ => hSome (by simp) hFits
      | _ => exact hPermits.elim
  | drained stopped =>
      cases r with
      | setIdle =>
          obtain ⟨hNone, hPasses⟩ := hFits
          refine ⟨?_, fun hStopped => hSome (by simp) (hPasses hStopped), ?_⟩
          · rw [Scene.jobs_of_answers hHears.answer (by simp)]
            exact hNone
          · rw [Scene.monitor_of_answers hHears.answer]
            rfl
      | _ => exact hPermits.elim
  | ended stopped => exact hPermits.elim

theorem ne_stop_of_permits (h : σ.Permits r) : r ≠ .stop := by
  rintro rfl
  cases σ <;> exact h

/-- Where the loop gives way, it is going to look whether it is to stop. -/
theorem not_heedless_of_awaits (hPermits : σ.Permits r) (hAwaits : r.Awaits) : ¬ (σ.after r a).Heedless := by
  cases r with
  | call | pause | final => cases σ <;> first | exact hPermits.elim | exact id
  | sleep | drain => cases σ <;> first | exact hPermits.elim | exact id
  | _ => exact hAwaits.elim

/-- The loop goes on only if it was not to stop when it looked, unless it has not made any pass. -/
theorem unstopped_of_hears (hPermits : σ.Permits r) (hHears : Watch.diary.Hears False r s a t)
    (hFits : σ.Fits s)
    (h : σ.Heedless → s.memory.passes = [] ∨ s.scene.monitor.stopRequested = false)
    (hAfter : (σ.after r a).Heedless) :
    t.memory.passes = [] ∨ t.scene.monitor.stopRequested = false := by
  have hMemory : t.memory = s.memory.heard s.course r a := hHears.memory_eq
  have hMonitor := Scene.monitor_of_answers hHears.answer
  cases σ with
  | fresh =>
      cases r with
      | now =>
          rw [hMemory]
          exact .inl hFits.1
      | removeHealthFile | activeEntries | lastTaskId | saveCursor | drain => exact hAfter.elim
      | _ => exact hPermits.elim
  | clear =>
      cases r with
      | now =>
          rw [hMemory, hMonitor]
          exact h trivial
      | drain => exact hAfter.elim
      | _ => exact hPermits.elim
  | noticed since now =>
      cases r with
      | stopRequested =>
          cases a with
          | true => exact hAfter.elim
          | false =>
              rw [hMonitor]
              exact .inr hHears.answer.1.symm
      | _ => exact hPermits.elim
  | looked | dozing | waiting | leaving | drained =>
      cases r <;> first | exact hPermits.elim | exact hAfter.elim
  | passing =>
      cases r with
      | stopRequested => cases a <;> exact hAfter.elim
      | _ => first | exact hPermits.elim | exact hAfter.elim
  | ended => exact hPermits.elim

end Run.Stage

namespace Watched

open Run (Stage)

/-- Where the loop has come to, and what the diary says of that. -/
structure Placed (φ : Course) (σ : Stage) (s : Watched Diary) : Prop where
  course_eq : s.course = φ
  orderly : Sitting.Orderly s.memory.passes φ s.scene.clock
  fits : σ.Fits s

/-- Besides, no further pass is about to begin once the loop was asked to stop. -/
structure Fitting (φ : Course) (σ : Stage) (s : Watched Diary) : Prop extends Placed φ σ s where
  unstopped : σ.Heedless → s.memory.passes = [] ∨ s.scene.monitor.stopRequested = false

variable {setup : LoopSetup} {φ : Course} {σ : Stage} {s t : Watched Diary} {r : Request} {a : r.Answer}

theorem Placed.of_idles (hIdles : Idles s t) (h : Placed φ σ s) : Placed φ σ t where
  course_eq := hIdles.course_eq.trans h.course_eq
  orderly := hIdles.memory_eq ▸ h.orderly.age hIdles.clock_le
  fits := Stage.fits_of_idles hIdles h.fits

theorem Placed.of_hears (hPermits : (Run.itinerary setup).permits (φ, σ) r)
    (hHears : Watch.diary.Hears False r s a t) (h : Placed φ σ s) :
    Placed (φ.after r a) (σ.after r a) t := by
  obtain ⟨rfl, hOrderly, hFits⟩ := h
  obtain ⟨hCourse, hStage, hRests⟩ := hPermits
  refine ⟨hHears.course_eq, ?_, Stage.fits_of_hears hStage hOrderly hHears hFits⟩
  have hMemory : t.memory = s.memory.heard s.course r a := hHears.memory_eq
  rw [hMemory, Scene.clock_of_answers hHears.answer]
  by_cases hPass : r = .activeEntries
  · subst hPass
    cases σ with
    | fresh =>
        obtain ⟨hNone, hLooked⟩ := hFits
        simp only [Diary.heard, hLooked, hNone]
        exact .nil
    | looked since =>
        obtain ⟨hLooked, hSince, hPasses⟩ := hFits
        simp only [Diary.heard, hLooked]
        exact hOrderly.begin (hRests trivial) hSince hPasses
    | _ => exact hStage.elim
  · rw [Diary.passes_heard hPass]
    exact hOrderly.enter hCourse (Stage.ne_stop_of_permits hStage) hRests hHears.admitted

/-- What the loop is answered, it gives way or not. -/
theorem Fitting.of_yields (hPermits : (Run.itinerary setup).permits (φ, σ) r)
    (hYields : Watch.diary.Yields r s a t) (h : Fitting φ σ s) :
    (Run.itinerary setup).sensible r a ∧ Fitting (φ.after r a) (σ.after r a) t := by
  cases hYields with
  | atOnce hHears =>
      refine ⟨⟨Scene.sensible_of_answers hHears.answer, hHears.admitted⟩, h.toPlaced.of_hears hPermits hHears, ?_⟩
      exact Stage.unstopped_of_hears hPermits.2.1 hHears h.fits h.unstopped
  | meanwhile hAwaits before hHears after =>
      have hBefore := h.toPlaced.of_idles (.of_drifts before)
      have hAfter := (hBefore.of_hears hPermits hHears).of_idles (.of_drifts after)
      refine ⟨⟨Scene.sensible_of_answers hHears.answer, hHears.admitted⟩, hAfter, fun hHeedless => ?_⟩
      exact absurd hHeedless (Stage.not_heedless_of_awaits hPermits.2.1 hAwaits)

theorem Fitting.of_ages {scene : Scene} (hAges : s.scene.Ages scene) (h : Fitting φ σ s) :
    Fitting φ σ { s with scene } := by
  refine ⟨h.toPlaced.of_idles (.of_ages hAges), ?_⟩
  obtain ⟨clock, -, rfl⟩ := hAges
  exact h.unstopped

/-- The loop was asked to stop. It has made no more than so many passes, if any, and slept so often. -/
structure Halted (passes slept : Nat) (s : Watched Diary) : Prop where
  stopRequested : s.scene.monitor.stopRequested = true
  length_le : s.memory.passes.length ≤ max 1 passes
  slept_eq : s.memory.slept = slept

variable {passes slept : Nat}

theorem Halted.of_idles (hIdles : Idles s t) (h : Halted passes slept s) : Halted passes slept t where
  stopRequested := hIdles.stopRequested h.stopRequested
  length_le := hIdles.memory_eq ▸ h.length_le
  slept_eq := hIdles.memory_eq ▸ h.slept_eq

theorem Halted.of_hears (hAwake : r ≠ .sleep) (hFirst : r = .activeEntries → s.memory.passes = [])
    (hHears : Watch.diary.Hears False r s a t) (h : Halted passes slept s) : Halted passes slept t := by
  have hMemory : t.memory = s.memory.heard s.course r a := hHears.memory_eq
  refine ⟨?_, ?_, ?_⟩
  · rw [Scene.monitor_of_answers hHears.answer]
    exact Request.stopRequested_onMonitor h.stopRequested
  · rw [hMemory]
    by_cases hPass : r = .activeEntries
    · subst hPass
      simp only [Diary.heard, hFirst rfl]
      split
      · exact Nat.le_max_left 1 passes
      · rw [hFirst rfl]
        exact Nat.zero_le _
    · rw [Diary.length_heard hPass]
      exact h.length_le
  · rw [hMemory, Diary.slept_heard hAwake]
    exact h.slept_eq

/-- Asked to stop, the loop does not sleep, and begins a pass only if it has not made any. -/
theorem Fitting.halts (hPermits : σ.Permits r) (hStop : s.scene.monitor.stopRequested = true)
    (h : Fitting φ σ s) : r ≠ .sleep ∧ (r = .activeEntries → s.memory.passes = []) := by
  constructor
  · rintro rfl
    cases σ with
    | dozing since =>
        rcases h.unstopped trivial with hNone | hFalse
        · exact Diary.passes_ne_nil h.fits hNone
        · exact Bool.false_ne_true (hFalse.symm.trans hStop)
    | _ => exact hPermits
  · rintro rfl
    cases σ with
    | fresh => exact h.fits.1
    | looked since =>
        rcases h.unstopped trivial with hNone | hFalse
        · exact hNone
        · exact absurd (hFalse.symm.trans hStop) Bool.false_ne_true
    | _ => exact hPermits.elim

theorem Fitting.halted_of_yields (hPermits : σ.Permits r) (hYields : Watch.diary.Yields r s a t)
    (h : Fitting φ σ s) (hHalted : Halted passes slept s) : Halted passes slept t := by
  obtain ⟨hAwake, hFirst⟩ := h.halts hPermits hHalted.stopRequested
  cases hYields with
  | atOnce hHears => exact hHalted.of_hears hAwake hFirst hHears
  | meanwhile hAwaits before hHears after =>
      have hNoPass : r ≠ .activeEntries := by
        rintro rfl
        exact hAwaits
      have hBefore := hHalted.of_idles (.of_drifts before)
      exact (hBefore.of_hears hAwake (absurd · hNoPass) hHears).of_idles (.of_drifts after)

/-! ### Whole runs -/

variable {fuel : Nat} {scene : Scene} {Result : Type} {p q : Program Request Request.Answer Result}
  {post : Result → Course × Stage → Prop}

theorem fitting_of_leads (hLeads : Program.Leads Watch.diary.cooperative p s q t)
    (hObeys : p.Obeys (Run.itinerary setup) post (φ, σ)) (h : Fitting φ σ s) :
    ∃ ψ τ, Fitting ψ τ t ∧ q.Obeys (Run.itinerary setup) post (ψ, τ) := by
  have hCome := hObeys.of_leads (fun phase s => Fitting phase.1 phase.2 s) ?_
    (fun hPermits hYields h => h.of_yields hPermits hYields) hLeads h
  · obtain ⟨⟨ψ, τ⟩, hFitting, hRest⟩ := hCome
    exact ⟨ψ, τ, hFitting, hRest⟩
  · rintro phase s t ⟨scene, hAges, rfl⟩ h
    exact h.of_ages hAges

theorem halted_of_leads (hLeads : Program.Leads Watch.diary.cooperative p s q t)
    (hObeys : p.Obeys (Run.itinerary setup) post (φ, σ)) (h : Fitting φ σ s) (hHalted : Halted passes slept s) :
    Halted passes slept t := by
  have hCome := hObeys.of_leads (fun phase s => Fitting phase.1 phase.2 s ∧ Halted passes slept s) ?_ ?_ hLeads
    ⟨h, hHalted⟩
  · obtain ⟨-, ⟨-, hAfter⟩, -⟩ := hCome
    exact hAfter
  · rintro ⟨φ, σ⟩ s t ⟨scene, hAges, rfl⟩ ⟨h, hHalted⟩
    exact ⟨h.of_ages hAges, hHalted.of_idles (.of_ages hAges)⟩
  · rintro ⟨φ, σ⟩ r s a t hPermits hYields ⟨h, hHalted⟩
    obtain ⟨hSense, hAfter⟩ := h.of_yields hPermits hYields
    exact ⟨hSense, hAfter, h.halted_of_yields hPermits.2.1 hYields hHalted⟩

theorem fitting_begin (scene : Scene) : Fitting { time := scene.clock } .fresh (.begin scene {}) :=
  ⟨⟨rfl, .nil, rfl, rfl⟩, fun _ => .inl rfl⟩

end Watched

namespace Watch

open Watched

/-- What a run makes of stops that others ask for, at any time before it begins and wherever it gives way.
Its passes begin one after the other at different ticks, and each is done to its end before the next one
begins, or the run is over. Once a stop is asked for, no further pass begins, unless there has not been
any, and the loop does not sleep again. When the run is over, the loop is idle and nothing goes on in the
background. -/
theorem run_stops_after_pass {setup : LoopSetup} {fuel : Nat} {scene : Scene} {t : Watched Diary}
    {rest : Program Request Request.Answer (Except Failure Bool)}
    (hLimit : setup.settings.maxConsecutiveFailures = none)
    (hLeads : Program.Leads diary.cooperative (ExceptT.run (Run.run setup fuel)) (.begin scene {}) rest t) :
    (t.memory.passes.Pairwise fun later earlier => earlier.began < later.began) ∧
      (∀ p ∈ t.memory.passes.tail, p.Settled) ∧
      (t.scene.monitor.stopRequested = true → ∀ last u, Program.Leads diary.cooperative rest t last u →
        u.memory.passes.length ≤ max 1 t.memory.passes.length ∧ u.memory.slept = t.memory.slept) ∧
      ∀ result, rest = .done result → result ≠ .error .overflow → ∃ finished, result = .ok finished ∧
        t.scene.monitor.status = .idle ∧ t.scene.jobs = [] ∧ (∀ p ∈ t.memory.passes, p.Settled) ∧
          (finished = true → t.memory.passes ≠ []) := by
  have hRests : Course.Rests { time := scene.clock } := ⟨rfl, rfl⟩
  obtain ⟨φ, σ, hFitting, hRest⟩ :=
    fitting_of_leads hLeads (Run.follows_run hLimit hRests) (fitting_begin scene)
  refine ⟨hFitting.orderly.increase, hFitting.orderly.settled, fun hStop last u hLater => ?_, ?_⟩
  · have hNow : Halted t.memory.passes.length t.memory.slept t := ⟨hStop, Nat.le_max_right _ _, rfl⟩
    have hThen := halted_of_leads hLater hRest hFitting hNow
    exact ⟨hThen.length_le, hThen.slept_eq⟩
  · rintro result rfl hNoOverflow
    cases result with
    | error e => exact absurd (congrArg Except.error hRest) hNoOverflow
    | ok finished =>
        obtain ⟨hRests, stopped, rfl, hFinished⟩ := hRest
        obtain ⟨hJobs, hPasses, hIdle⟩ := hFitting.fits
        exact ⟨finished, rfl, hIdle, hJobs, hFitting.orderly.settled_all hRests, hPasses ∘ hFinished⟩

/-! ### Two jobs, of which the first asks the loop to stop -/

/-- The actions of some tasks ask the loop to stop. -/
def interrupted (stops : Task → Bool) : Request → Scene → Scene
  | .call τ _, s => if stops τ then { s with monitor := s.monitor.stop } else s
  | _, s => s

/-- What follows on a request and its reply. -/
def follow (r : Request) (s : Watched Diary) : r.Answer × Watched Diary :=
  let (a, scene) := Scene.reply (fun _ => .returned none) r s.scene
  (a, ⟨scene, s.course.after r a, s.memory.heard s.course r a⟩)

def replyTo (stops : Task → Bool) (r : Request) (s : Watched Diary) : r.Answer × Watched Diary :=
  let (a, t) := follow r s
  (a, { t with scene := interrupted stops r t.scene })

theorem drifts_interrupted (stops : Task → Bool) (r : Request) (s : Watched Diary) :
    (diary.conduct False).Drifts s { s with scene := interrupted stops r s.scene } := by
  cases r with
  | call τ id =>
      by_cases hStops : stops τ = true
      · simp only [interrupted, if_pos hStops]
        exact .single (.elapse .stop)
      · simp only [interrupted, if_neg hStops]
        exact .refl
  | _ => exact .refl

theorem yields_replyTo {stops : Task → Bool} {r : Request} {s : Watched Diary}
    (hOk : r.succeeds (replyTo stops r s).1 = true) :
    diary.Yields r s (replyTo stops r s).1 (replyTo stops r s).2 := by
  by_cases hDrain : r = .drain
  · subst hDrain
    have hDrift : (diary.conduct False).Drifts s { s with scene := Scene.drained s.scene.jobs s.scene } :=
      drifts_of_quiet (Scene.quiet_attends.drifts_drained rfl)
    have hHears : diary.Hears False .drain { s with scene := Scene.drained s.scene.jobs s.scene } ()
        (follow .drain s).2 := ⟨hOk, ⟨Scene.jobs_drained _ _, rfl⟩, rfl, rfl⟩
    exact .meanwhile trivial hDrift hHears .refl
  · have hHears : diary.Hears False r s (follow r s).1 (follow r s).2 :=
      ⟨hOk, Scene.answers_reply_at_once _ hDrain s.scene, rfl, rfl⟩
    cases r with
    | call τ id => exact .meanwhile trivial .refl hHears (drifts_interrupted stops _ _)
    | _ => exact .atOnce hHears

theorem leads_replyTo {Result : Type} (stops : Task → Bool) (p : Program Request Request.Answer Result)
    (s : Watched Diary) (hOk : ∀ x ∈ p.said (replyTo stops) s, x.1.succeeds x.2 = true) :
    Program.Leads diary.cooperative p s (.done (p.run (replyTo stops) s).1) (p.run (replyTo stops) s).2 := by
  induction p generalizing s with
  | done => exact .stay _ _
  | ask r next ih =>
      obtain ⟨hFirst, hRest⟩ := List.forall_mem_cons.mp hOk
      exact .answer (yields_replyTo hFirst) (ih _ _ hRest)

/-- Both run once, at the first tick. -/
def errand (name : String) (priority : Int32) : Entry :=
  Draft.entryFrom ⟨name, "beep", some priority, some 1, none, false, none, none, none⟩ 1 none "now"

def errands : Scene where
  store := { Store.empty with
    entries := some ((Table.empty.put (.ofEntry (errand "first" 1))).put (.ofEntry (errand "second" 2))) }
  clock := 1

/-- One phase is enough for the run to end. -/
def errandRun : Program Request Request.Answer (Except Failure Bool) :=
  ExceptT.run (Run.run {} 1)

def stopsFirst (τ : Task) : Bool :=
  τ.entryName == "first"

/-- The second job is run too. -/
theorem ends_errandRun :
    (errandRun.run (replyTo stopsFirst) (.begin errands {})).1.toOption = some true ∧
      ((errandRun.said (replyTo stopsFirst) (.begin errands {})).all fun x => x.1.succeeds x.2) = true ∧
      ((errandRun.run (replyTo stopsFirst) (.begin errands {})).2.memory.passes.map fun p =>
        p.ran.map Task.entryName) = [["first", "second"]] := by
  -- merge sort does not compute well, putting tasks in one by one does
  unfold errandRun Run.run Run.untilStopped Run.phases Run.step
  unfold Pass.pass Pass.passOver Pass.announced
  rw [TaskQueue.ofList_eq]
  decide +kernel

/-- The action of the first job asks the loop to stop, and the run comes to its end when the second job has
been run too. -/
theorem run_stops_after_errands : ∃ t, Program.Leads diary.cooperative errandRun (.begin errands {})
    (.done (.ok true)) t ∧ (t.memory.passes.map fun p => p.ran.map Task.entryName) = [["first", "second"]] ∧
      (∀ p ∈ t.memory.passes, p.Settled) ∧ t.scene.monitor.status = .idle ∧ t.scene.jobs = [] := by
  obtain ⟨hEnds, hOk, hRan⟩ := ends_errandRun
  have hLeads : Program.Leads diary.cooperative (ExceptT.run (Run.run {} 1)) (.begin errands {}) _ _ :=
    leads_replyTo stopsFirst errandRun (.begin errands {}) (List.all_eq_true.mp hOk)
  have hResult : (errandRun.run (replyTo stopsFirst) (.begin errands {})).1 = .ok true := by
    revert hEnds
    cases (errandRun.run (replyTo stopsFirst) (.begin errands {})).1 <;> simp [Except.toOption]
  rw [hResult] at hLeads
  obtain ⟨-, -, -, hAtEnd⟩ := run_stops_after_pass rfl hLeads
  obtain ⟨-, -, hIdle, hJobs, hSettled, -⟩ := hAtEnd _ rfl (by simp)
  exact ⟨_, hLeads, hRan, hSettled, hIdle, hJobs⟩

end Watch

end TickScheduler
