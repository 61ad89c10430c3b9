import TickScheduler.Proofs.Engine.Rehearsal
import TickScheduler.Proofs.Stops.Itinerary
/-!
A diary of the loop: when each pass began, what was due in it and what became of that. Nothing that is due
is lost: until it is executed, or its entry turns out to be gone, it waits for its turn.
-/
namespace TickScheduler

/-- The task waits for its turn, or has it and its action was not called yet. -/
def Course.IsOpen (φ : Course) (τ : Task) : Prop :=
  τ ∈ φ.ready ∨ ∃ headway, φ.current = some (τ, headway) ∧ headway ≠ .called

theorem Course.Rests.not_isOpen {φ : Course} (h : φ.Rests) (τ : Task) : ¬ φ.IsOpen τ := by
  rintro (hReady | ⟨headway, hCurrent, -⟩)
  · simp [h.1] at hReady
  · simp [h.2] at hCurrent

/-- What came of one pass. -/
structure Sitting where
  /-- The clock when the pass began. -/
  began : Tick
  /-- The tasks that were taken off the entries. -/
  due : List Task := []
  /-- The tasks whose actions were called. -/
  ran : List Task := []
  /-- The names under which no entry was found. -/
  missed : List String := []
deriving Repr

namespace Sitting

/-- Everything that was due was executed, unless its entry was gone by its turn. -/
def Settled (p : Sitting) : Prop :=
  ∀ τ ∈ p.due, τ ∈ p.ran ∨ τ.entryName ∈ p.missed

/-- Everything that was due was executed or is still to come, unless its entry was gone by its turn. -/
def Accounts (p : Sitting) (φ : Course) : Prop :=
  ∀ τ ∈ p.due, τ ∈ p.ran ∨ τ.entryName ∈ p.missed ∨ φ.IsOpen τ

def after (p : Sitting) (φ : Course) : (r : Request) → r.Answer → Sitting
  | .saveCursor _, .ok () => if φ.counted.isSome then p else { p with due := p.due ++ φ.due.toList }
  | .call τ _, _ => { p with ran := p.ran ++ [τ] }
  | .entry name, .error (.entryNotFound _) => { p with missed := p.missed ++ [name] }
  | _, _ => p

variable {p : Sitting} {φ : Course} {r : Request} {a : r.Answer} {τ : Task}

theorem Accounts.settled (h : p.Accounts φ) (hRests : φ.Rests) : p.Settled := fun τ hDue =>
  (h τ hDue).imp_right fun hLeft => hLeft.resolve_right (hRests.not_isOpen τ)

theorem began_after : (p.after φ r a).began = p.began := by
  unfold after
  split
  · split <;> rfl
  all_goals rfl

theorem mem_ran_after (h : τ ∈ p.ran) : τ ∈ (p.after φ r a).ran := by
  unfold after
  split
  · split <;> exact h
  · exact List.mem_append_left _ h
  all_goals exact h

theorem mem_missed_after {name : String} (h : name ∈ p.missed) : name ∈ (p.after φ r a).missed := by
  unfold after
  split
  · split <;> exact h
  · exact h
  · exact List.mem_append_left _ h
  · exact h

/-- What becomes due waits for its turn. -/
theorem mem_due_after (h : τ ∈ (p.after φ r a).due) : τ ∈ p.due ∨ (φ.after r a).IsOpen τ := by
  cases r with
  | saveCursor f =>
      cases a with
      | error e => exact .inl h
      | ok =>
          by_cases hCounted : φ.counted.isSome = true
          · simp only [after, if_pos hCounted] at h
            exact .inl h
          · simp only [after, if_neg hCounted] at h
            rcases List.mem_append.mp h with hOld | hNew
            · exact .inl hOld
            · right
              simp only [Course.after, if_neg hCounted]
              exact .inl (List.mem_append_right _ hNew)
  | entry name =>
      cases a with
      | ok e => exact .inl h
      | error e => cases e <;> exact .inl h
  | _ => exact .inl h

theorem open_after_saved {f : Entry} (h : φ.IsOpen τ) : (φ.after (.saveCursor f) (.ok ())).IsOpen τ := by
  by_cases hCounted : φ.counted.isSome = true
  · simp only [Course.after, if_pos hCounted]
    exact h
  · simp only [Course.after, if_neg hCounted]
    exact h.imp_left fun hMem => List.mem_append_left _ hMem

theorem open_after_recorded {result : TaskResult} {keep : Nat} (h : φ.IsOpen τ) :
    (φ.after (.final (.record result keep)) (.ok ())).IsOpen τ := by
  rcases h with hMem | ⟨headway, hCurrent, hNot⟩
  · exact .inl hMem
  · refine .inr ⟨headway.recorded, by simp [Course.after, hCurrent], ?_⟩
    cases headway <;> simp_all [Headway.recorded]

/-- When the next task has its turn, its entry is found, or it is not and the task is left out. -/
theorem open_after_entry {setup : LoopSetup} {restoring : Prop} {name : String} {a : (Request.entry name).Answer}
    (p : Sitting) (hPermits : φ.Permits setup restoring (.entry name))
    (hOk : Request.succeeds (.entry name) a = true) (h : φ.IsOpen τ) :
    τ.entryName ∈ (p.after φ (.entry name) a).missed ∨ (φ.after (.entry name) a).IsOpen τ := by
  obtain ⟨first, rest, hReady, hName, -, hCalled⟩ := hPermits
  have hWaits : τ = first ∨ τ ∈ rest := by
    rcases h with hMem | ⟨headway, hCurrent, hNot⟩
    · rwa [hReady, List.mem_cons] at hMem
    · exact absurd (hCalled τ headway hCurrent) hNot
  cases a with
  | ok e =>
      right
      rcases hWaits with rfl | hMem
      · exact .inr ⟨.found, by simp [Course.after, hReady], by simp⟩
      · exact .inl (by simpa [Course.after, hReady] using hMem)
  | error e =>
      cases e with
      | entryNotFound =>
          rcases hWaits with rfl | hMem
          · exact .inl (by simp [after, hName])
          · exact .inr (.inl (by simpa [Course.after, hReady] using hMem))
      | _ => cases hOk

/-- As long as nothing fails, a task that waits for its turn is not lost. -/
theorem open_after {setup : LoopSetup} {restoring : Prop} (p : Sitting)
    (hPermits : φ.Permits setup restoring r) (hStop : r ≠ .stop) (hRests : Run.AtRest r → φ.Rests)
    (hOk : r.succeeds a = true) (h : φ.IsOpen τ) :
    τ ∈ (p.after φ r a).ran ∨ τ.entryName ∈ (p.after φ r a).missed ∨ (φ.after r a).IsOpen τ := by
  cases r with
  | activeEntries | setIdle => exact absurd h ((hRests trivial).not_isOpen τ)
  | stop => exact absurd rfl hStop
  | entry name => exact .inr (p.open_after_entry hPermits hOk h)
  | saveCursor f =>
      cases a with
      | error e => cases hOk
      | ok => exact .inr (.inr (open_after_saved h))
  | lastTaskId name =>
      cases a with
      | error e => cases hOk
      | ok => exact .inr (.inr h)
  | final r =>
      cases r with
      | notify => exact .inr (.inr h)
      | record =>
          cases a with
          | error e => cases hOk
          | ok => exact .inr (.inr (open_after_recorded h))
  | call first id =>
      obtain ⟨hTurn, -⟩ := hPermits
      rcases h with hMem | ⟨headway, hCurrent, -⟩
      · exact .inr (.inr (.inl hMem))
      · obtain ⟨rfl, -⟩ := Prod.mk.inj (Option.some.inj (hTurn.symm.trans hCurrent))
        exact .inl (List.mem_append_right _ (List.mem_singleton.mpr rfl))
  | spawn job =>
      obtain ⟨other, id, hTurn, -⟩ := hPermits
      rcases h with hMem | ⟨headway, hCurrent, hNot⟩
      · exact .inr (.inr (.inl hMem))
      · obtain ⟨-, rfl⟩ := Prod.mk.inj (Option.some.inj (hTurn.symm.trans hCurrent))
        exact absurd rfl hNot
  | countOutcome failed =>
      rcases h with hMem | ⟨headway, hCurrent, hNot⟩
      · exact .inr (.inr (.inl hMem))
      · exact absurd (hPermits τ headway hCurrent) hNot
  | publish upcoming => exact .inr (.inr (h.imp_left TaskQueue.mem_ofList.mpr))
  | _ => exact .inr (.inr h)

/-- The account of a pass stays right. -/
theorem Accounts.after {setup : LoopSetup} {restoring : Prop} (hPermits : φ.Permits setup restoring r)
    (hStop : r ≠ .stop) (hRests : Run.AtRest r → φ.Rests) (hOk : r.succeeds a = true)
    (h : p.Accounts φ) : (p.after φ r a).Accounts (φ.after r a) := by
  intro τ hDue
  rcases mem_due_after hDue with hOld | hOpen
  · rcases h τ hOld with hRan | hMissed | hOpen
    · exact .inl (mem_ran_after hRan)
    · exact .inr (.inl (mem_missed_after hMissed))
    · exact p.open_after hPermits hStop hRests hOk hOpen
  · exact .inr (.inr hOpen)

/-- Some passes, the latest first, began one after the other, none of them in the future. All but the latest
are settled, and of the latest nothing is lost. -/
structure Orderly (passes : List Sitting) (φ : Course) (clock : Tick) : Prop where
  increase : passes.Pairwise fun later earlier => earlier.began < later.began
  past : ∀ p ∈ passes, p.began ≤ clock
  settled : ∀ p ∈ passes.tail, p.Settled
  accounts : ∀ p ∈ passes.head?, p.Accounts φ

namespace Orderly

variable {passes : List Sitting} {clock : Tick}

theorem nil : Orderly [] φ clock :=
  ⟨.nil, nofun, nofun, nofun⟩

theorem age {later : Tick} (hAge : clock ≤ later) (h : Orderly passes φ clock) : Orderly passes φ later :=
  { h with past := fun p hp => Int64.le_trans (h.past p hp) hAge }

/-- Everything is settled while nothing waits for its turn. -/
theorem settled_all (hRests : φ.Rests) (h : Orderly passes φ clock) : ∀ p ∈ passes, p.Settled := by
  cases passes with
  | nil => exact nofun
  | cons p rest => exact List.forall_mem_cons.mpr ⟨(h.accounts p rfl).settled hRests, h.settled⟩

/-- A new pass begins while nothing waits for its turn, later than those before it. -/
theorem begin {began : Tick} {ψ : Course} (hRests : φ.Rests) (hPast : began ≤ clock)
    (hLater : ∀ p ∈ passes, p.began < began) (h : Orderly passes φ clock) :
    Orderly ({ began } :: passes) ψ clock where
  increase := .cons hLater h.increase
  past := List.forall_mem_cons.mpr ⟨hPast, h.past⟩
  settled := h.settled_all hRests
  accounts := by
    rintro p ⟨⟩
    exact nofun

/-- Within a pass its account stays right, and the others are over. -/
theorem enter {setup : LoopSetup} {restoring : Prop} (hPermits : φ.Permits setup restoring r)
    (hStop : r ≠ .stop) (hRests : Run.AtRest r → φ.Rests) (hOk : r.succeeds a = true)
    (h : Orderly passes φ clock) : Orderly (passes.modifyHead (·.after φ r a)) (φ.after r a) clock := by
  cases passes with
  | nil => exact .nil
  | cons p rest =>
      obtain ⟨hLater, hIncrease⟩ := List.pairwise_cons.mp h.increase
      obtain ⟨hPast, hRest⟩ := List.forall_mem_cons.mp h.past
      refine ⟨.cons ?_ hIncrease, List.forall_mem_cons.mpr ⟨?_, hRest⟩, h.settled, ?_⟩
      · rwa [began_after]
      · rwa [began_after]
      · rintro q ⟨⟩
        exact (h.accounts p rfl).after hPermits hStop hRests hOk

end Orderly

end Sitting

/-- What is remembered of a run. -/
structure Diary where
  /-- The passes, the latest first. -/
  passes : List Sitting := []
  /-- What the clock said, if it was the last thing that was looked at. -/
  looked : Option Tick := none
  /-- How often the loop slept. -/
  slept : Nat := 0
deriving Repr

namespace Diary

/-- A pass begins when the active entries are asked for right after a look at the clock. -/
def heard (m : Diary) (φ : Course) : (r : Request) → r.Answer → Diary
  | .now, tick => { m with looked := some tick }
  | .activeEntries, _ =>
      match m.looked with
      | some began => { m with passes := { began } :: m.passes, looked := none }
      | none => m
  | .sleep, _ => { m with slept := m.slept + 1, looked := none }
  | r, a => { m with passes := m.passes.modifyHead (·.after φ r a), looked := none }

/-- When the latest pass began. -/
def began? (m : Diary) : Option Tick :=
  m.passes.head?.map Sitting.began

variable {m : Diary} {φ : Course} {r : Request} {a : r.Answer}

/-- What is heard within a pass is entered under it. -/
theorem passes_heard (hNoPass : r ≠ .activeEntries) :
    (m.heard φ r a).passes = m.passes.modifyHead (·.after φ r a) := by
  have hSame : m.passes = m.passes.modifyHead fun p => p := by cases m.passes <;> rfl
  cases r with
  | activeEntries => exact absurd rfl hNoPass
  | now | sleep => exact hSame
  | _ => rfl

theorem began?_heard (hNoPass : r ≠ .activeEntries) : (m.heard φ r a).began? = m.began? := by
  unfold began?
  rw [passes_heard hNoPass]
  cases m.passes with
  | nil => rfl
  | cons p rest => exact congrArg some Sitting.began_after

theorem passes_ne_nil {began : Tick} (h : m.began? = some began) : m.passes ≠ [] := by
  intro hNone
  simp [began?, hNone] at h

/-- No pass began after the latest one, and that one did not begin in the future. -/
theorem began_le {began clock : Tick} (hOrderly : Sitting.Orderly m.passes φ clock)
    (h : m.began? = some began) : began ≤ clock ∧ ∀ p ∈ m.passes, p.began ≤ began := by
  obtain ⟨hIncrease, hPast, -, -⟩ := hOrderly
  unfold began? at h
  cases hPasses : m.passes with
  | nil => simp [hPasses] at h
  | cons p rest =>
      rw [hPasses] at hIncrease hPast h
      obtain rfl : p.began = began := Option.some.inj h
      refine ⟨hPast p List.mem_cons_self, List.forall_mem_cons.mpr ⟨Int64.le_refl _, fun q hq => ?_⟩⟩
      exact Std.le_of_lt ((List.pairwise_cons.mp hIncrease).1 q hq)

theorem length_heard (hNoPass : r ≠ .activeEntries) :
    (m.heard φ r a).passes.length = m.passes.length := by
  rw [passes_heard hNoPass, List.length_modifyHead]

theorem slept_heard (hAwake : r ≠ .sleep) : (m.heard φ r a).slept = m.slept := by
  cases r with
  | sleep => exact absurd rfl hAwake
  | activeEntries =>
      rw [heard]
      split <;> rfl
  | _ => rfl

end Diary

end TickScheduler
