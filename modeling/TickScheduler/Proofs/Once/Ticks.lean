import TickScheduler.Proofs.Engine.LoopInvariant
/-!
No tick runs twice. Whatever was executed of an entry lies behind its cursor as long as the entry is
active; so the loop has to move the cursor past a task before the task starts, and nobody else may move
it back.
-/
namespace TickScheduler

theorem EntryRow.active_withCursor {row : EntryRow} {f : Entry} (h : (row.withCursor f).activeFlag = 1) :
    (row.modifiedAt = f.modifiedAt ∧ f.isActive = true ∧
        (row.withCursor f).nextTaskTime = f.nextTaskTime) ∨
      (row.modifiedAt ≠ f.modifiedAt ∧ row.activeFlag = 1 ∧
        (row.withCursor f).nextTaskTime = row.nextTaskTime) := by
  unfold withCursor at h ⊢
  split
  · rename_i same
    rw [if_pos same] at h
    cases hActive : f.isActive with
    | false => simp [flag, hActive] at h
    | true => exact .inl ⟨same, rfl, rfl⟩
  · rename_i other
    rw [if_neg other] at h
    exact .inr ⟨other, h, rfl⟩

namespace Scene

/-- Whatever was executed of an entry lies behind its cursor, and no tick was executed twice. -/
structure TicksOnce (s : Scene) : Prop where
  stored : ∀ τ ∈ s.executed, (s.store.row? τ.entryName).isSome = true
  behind : ∀ τ ∈ s.executed, ∀ row, s.store.row? τ.entryName = some row → row.activeFlag = 1 →
    τ.time < row.nextTaskTime
  once : s.executed.Pairwise fun a b => a.entryName = b.entryName → a.time ≠ b.time

/-- A saved cursor took effect: an entry that is still active has it. -/
def Saved (e : Entry) (t : Scene) : Prop :=
  ∀ row, t.store.row? e.name = some row → row.activeFlag = 1 →
    e.isActive = true ∧ row.nextTaskTime = e.nextTaskTime

/-- A move after which no cursor of an active entry is another one than before. If versions count, such
an entry is of the same version, too. -/
structure Calm (versions : Prop) (s t : Scene) : Prop where
  executed_eq : t.executed = s.executed
  stays : ∀ name, (s.store.row? name).isSome = true → (t.store.row? name).isSome = true
  keeps : ∀ name row, t.store.row? name = some row → row.activeFlag = 1 → s.store.row? name = none ∨
    ∃ old, s.store.row? name = some old ∧ old.activeFlag = 1 ∧ row.nextTaskTime = old.nextTaskTime ∧
      (versions → row.modifiedAt = old.modifiedAt)

/-- Surroundings in which no cursor is lost: every move is calm, and either the versions tell that a
cursor may be saved, or saving takes effect anyway. -/
structure Calms (versions : Prop) (c : Conduct Request Request.Answer Scene) : Prop where
  answers : ∀ {r s a t}, c.answers r s a t → Answers True r s a t
  moves : ∀ {s t}, c.moves s t → Calm versions s t
  saves : versions ∨ ∀ e s t, c.answers (.saveCursor e) s (.ok ()) t → Saved e t

variable {s t : Scene} {versions : Prop}

theorem Calm.of_entries (hEntries : t.store.entries = s.store.entries)
    (hExecuted : t.executed = s.executed) :
    Calm versions s t where
  executed_eq := hExecuted
  stays name h := by rwa [Store.row?_congr hEntries]
  keeps name row hRow hActive :=
    .inr ⟨row, by rwa [← Store.row?_congr hEntries], hActive, rfl, fun _ => rfl⟩

/-- What the loop knows about the ticks of an entry that it is at work on. -/
def KnowsTicks (versions : Prop) : Note → Scene → Prop
  | .held e, s | .counted e _, s => e.isActive = true ∧ (s.store.row? e.name).isSome = true ∧
      (∀ σ ∈ s.executed, σ.entryName = e.name → σ.time < e.nextTaskTime) ∧
      (versions → ∀ row, s.store.row? e.name = some row → row.activeFlag = 1 →
        row.modifiedAt = e.modifiedAt)
  | .ready τ, s | .opened τ, s => (s.store.row? τ.entryName).isSome = true ∧
      (∀ σ ∈ s.executed, σ.entryName = τ.entryName → σ.time < τ.time) ∧
      ∀ row, s.store.row? τ.entryName = some row → row.activeFlag = 1 → τ.time < row.nextTaskTime
  | .called _, _ => True

/-- What is known of an entry concerns nothing but its row and its own tasks. -/
theorem KnowsTicks.frame {note : Note} (hRow : t.store.row? note.name = s.store.row? note.name)
    (hExecuted : ∀ σ ∈ t.executed, σ.entryName = note.name → σ ∈ s.executed)
    (h : KnowsTicks versions note s) : KnowsTicks versions note t := by
  cases note with
  | held e | counted e last =>
      obtain ⟨hActive, hStored, hPast, hVersion⟩ := h
      simp only [Note.name] at hRow hExecuted
      rw [KnowsTicks, hRow]
      exact ⟨hActive, hStored, fun σ hσ hName => hPast σ (hExecuted σ hσ hName) hName, hVersion⟩
  | ready τ | opened τ =>
      obtain ⟨hStored, hPast, hBehind⟩ := h
      simp only [Note.name] at hRow hExecuted
      rw [KnowsTicks, hRow]
      exact ⟨hStored, fun σ hσ hName => hPast σ (hExecuted σ hσ hName) hName, hBehind⟩
  | called τ => exact trivial

theorem KnowsTicks.of_calm {note : Note} (hCalm : Calm versions s t) (h : KnowsTicks versions note s) :
    KnowsTicks versions note t := by
  cases note with
  | held e | counted e last =>
      obtain ⟨hActive, hStored, hPast, hVersion⟩ := h
      refine ⟨hActive, hCalm.stays _ hStored, by rwa [hCalm.executed_eq], fun hCount row hRow hFlag => ?_⟩
      rcases hCalm.keeps _ row hRow hFlag with hNone | ⟨old, hOld, hFlag, -, hSame⟩
      · rw [hNone] at hStored
        cases hStored
      · rw [hSame hCount]
        exact hVersion hCount old hOld hFlag
  | ready τ | opened τ =>
      obtain ⟨hStored, hPast, hBehind⟩ := h
      refine ⟨hCalm.stays _ hStored, by rwa [hCalm.executed_eq], fun row hRow hFlag => ?_⟩
      rcases hCalm.keeps _ row hRow hFlag with hNone | ⟨old, hOld, hFlag, hTime, -⟩
      · rw [hNone] at hStored
        cases hStored
      · rw [hTime]
        exact hBehind old hOld hFlag
  | called τ => exact trivial

namespace TicksOnce

theorem of_calm (hCalm : Calm versions s t) (h : s.TicksOnce) : t.TicksOnce where
  stored τ hτ := hCalm.stays _ (h.stored τ (hCalm.executed_eq ▸ hτ))
  behind τ hτ row hRow hFlag := by
    rw [hCalm.executed_eq] at hτ
    rcases hCalm.keeps _ row hRow hFlag with hNone | ⟨old, hOld, hFlag, hTime, -⟩
    · have hStored := h.stored τ hτ
      rw [hNone] at hStored
      cases hStored
    · rw [hTime]
      exact h.behind τ hτ old hOld hFlag
  once := hCalm.executed_eq ▸ h.once

/-- A cursor may be saved if it took effect and is past what was executed. -/
theorem of_saved {f : Entry} (hRewrites : s.store.Rewrites f.name (·.withCursor f) t.store)
    (hExecuted : t.executed = s.executed) (hSaved : Saved f t)
    (hPast : f.isActive = true → ∀ σ ∈ s.executed, σ.entryName = f.name → σ.time < f.nextTaskTime)
    (h : s.TicksOnce) : t.TicksOnce where
  stored τ hτ := by
    rw [hRewrites.isSome_row?]
    exact h.stored τ (hExecuted ▸ hτ)
  behind τ hτ row hRow hFlag := by
    rw [hExecuted] at hτ
    by_cases hName : τ.entryName = f.name
    · rw [hName] at hRow
      obtain ⟨hActive, hTime⟩ := hSaved row hRow hFlag
      rw [hTime]
      exact hPast hActive τ hτ hName
    · rw [hRewrites.other hName] at hRow
      exact h.behind τ hτ row hRow hFlag
  once := hExecuted ▸ h.once

/-- A task may be executed if its tick is past what was executed, and the cursor past its tick. -/
theorem of_called {τ : Task} (hTask : KnowsTicks versions (.opened τ) s) (h : s.TicksOnce) :
    (s.note (.called τ)).TicksOnce := by
  obtain ⟨hStored, hPast, hBehind⟩ := hTask
  have hExecuted : (s.note (.called τ)).executed = s.executed ++ [τ] := executed_note s (.called τ)
  constructor
  · rw [hExecuted]
    exact List.forall_mem_append.mpr ⟨h.stored, List.forall_mem_singleton.mpr hStored⟩
  · rw [hExecuted]
    exact List.forall_mem_append.mpr ⟨h.behind, List.forall_mem_singleton.mpr hBehind⟩
  · rw [hExecuted]
    refine List.pairwise_append.mpr ⟨h.once, List.pairwise_singleton _ _,
      fun σ hσ other hOther hName => ?_⟩
    obtain rfl := List.mem_singleton.mp hOther
    intro hTime
    exact Int64.lt_irrefl (hTime ▸ hPast σ hσ hName)

end TicksOnce

/-! ### As an invariant of the loop -/

variable {c : Conduct Request Request.Answer Scene}

/-- Saving takes effect as long as the entry that was read is of the stored version. -/
theorem Calms.saved {f : Entry} (calms : Calms versions c)
    (hAnswer : c.answers (.saveCursor f) s (.ok ()) t)
    (hVersion : versions → ∀ row, s.store.row? f.name = some row → row.activeFlag = 1 →
      row.modifiedAt = f.modifiedAt) :
    Saved f t ∧ s.store.Rewrites f.name (·.withCursor f) t.store ∧ t.executed = s.executed := by
  rcases (calms.answers hAnswer).cases with ⟨store, hStore, -, rfl⟩ | ⟨e, hError, -⟩
  · have hRewrites := Store.rewrites_of_saveCursor hStore
    refine ⟨?_, hRewrites, rfl⟩
    rcases calms.saves with hCount | hSaves
    · intro row hRow hFlag
      obtain ⟨old, hOld, rfl⟩ := Option.map_eq_some_iff.mp (hRewrites.same.symm.trans hRow)
      rcases EntryRow.active_withCursor hFlag with ⟨-, hActive, hTime⟩ | ⟨hOther, hFlag, -⟩
      · exact ⟨hActive, hTime⟩
      · exact absurd (hVersion hCount old hOld hFlag) hOther
    · exact hSaves f s _ hAnswer
  · cases hError

/-- What saving an entry leaves behind, if the loop knew the entry and its cursor went forward. -/
theorem TicksOnce.of_answer {e f : Entry} {a : Except Error Unit} (calms : Calms versions c)
    (hAnswer : c.answers (.saveCursor f) s a t) (hName : f.name = e.name)
    (hStamp : f.modifiedAt = e.modifiedAt)
    (hForward : f.isActive = true → e.nextTaskTime ≤ f.nextTaskTime)
    (hHeld : KnowsTicks versions (.held e) s) (h : s.TicksOnce) :
    t.TicksOnce ∧ t.executed = s.executed ∧
      (a = .ok () → Saved f t ∧ (t.store.row? e.name).isSome = true) ∧
      ∀ note, note.name ≠ e.name → KnowsTicks versions note s → KnowsTicks versions note t := by
  obtain ⟨-, hStored, hPast, hVersion⟩ := hHeld
  cases a with
  | error error =>
      rcases (calms.answers hAnswer).cases with ⟨store, -, hOk, -⟩ | ⟨-, -, rfl⟩
      · cases hOk
      · refine ⟨h, rfl, ?_, fun _ _ hNote => hNote⟩
        rintro ⟨⟩
  | ok =>
      obtain ⟨hSaved, hRewrites, hExecuted⟩ := calms.saved hAnswer (by rwa [hName, hStamp])
      refine ⟨h.of_saved hRewrites hExecuted hSaved fun hActive σ hσ hSame => ?_, hExecuted,
        fun _ => ⟨hSaved, ?_⟩,
        fun note hOther hNote => ?_⟩
      · exact Std.lt_of_lt_of_le (hPast σ hσ (hSame.trans hName)) (hForward hActive)
      · rwa [hRewrites.isSome_row?]
      · exact hNote.frame (hRewrites.other (hName ▸ hOther)) fun σ hσ _ => hExecuted ▸ hσ

theorem Entry.forward_of_consumes {e f : Entry} {now : Tick} {task : Option Task}
    (h : e.Consumes now task f) (hActive : f.isActive = true) : e.nextTaskTime ≤ f.nextTaskTime := by
  cases task with
  | none => exact Int64.le_of_eq (h.idle rfl).1.symm
  | some τ =>
      have hTakes := h.takes τ rfl
      exact Int64.le_of_lt (Std.lt_of_le_of_lt hTakes.le_time (hTakes.time_lt hActive))

/-- In surroundings that lose no cursor, no tick runs twice. -/
def ticksOnce (setup : LoopSetup) (calms : Calms versions c) : LoopInvariant setup c where
  inv := TicksOnce
  holds := KnowsTicks versions
  moved hMove h := ⟨h.of_calm (calms.moves hMove), fun _ hNote => hNote.of_calm (calms.moves hMove)⟩
  passive := by
    intro r s a t hPassive hAnswer h
    obtain ⟨monitor, rfl⟩ := passive_answer hPassive (calms.answers hAnswer)
    have hCalm : Calm versions s { s with monitor } := .of_entries rfl rfl
    exact ⟨h.of_calm hCalm, fun _ hNote => hNote.of_calm hCalm⟩
  snapshot := by
    intro s entries t hAnswer h
    obtain ⟨rfl, hNodup, hRows⟩ := snapshot_answer (calms.answers hAnswer)
    refine ⟨hNodup, fun e hEntry => ?_⟩
    obtain ⟨row, hRow, hFlag, rfl⟩ := hRows e hEntry
    refine ⟨by simp [EntryRow.toEntry, hFlag], Option.isSome_of_mem hRow, fun σ hσ hName => ?_, ?_⟩
    · exact h.behind σ hσ row (hName ▸ hRow) hFlag
    · intro _ other hOther _
      rw [Option.some.inj (hOther.symm.trans hRow)]
      rfl
  found hAnswer := entry_answer (calms.answers hAnswer)
  counted hAnswer _ hHeld := by
    obtain ⟨-, rfl⟩ := calms.answers hAnswer
    exact hHeld
  restored _ hAnswer h hHeld := by
    obtain ⟨hOnce, -, -, hKeep⟩ := h.of_answer calms hAnswer rfl rfl (fun _ => Int64.le_refl _) hHeld
    exact ⟨hOnce, hKeep⟩
  saved := by
    intro e now task f s a t hConsume hAnswer h hHeld
    have hConsumes := Entry.consumes_of_consume hConsume
    have hName := hConsumes.moves.name_eq
    obtain ⟨hOnce, hExecuted, hSaved, hKeep⟩ := h.of_answer calms hAnswer hName
      hConsumes.moves.modifiedAt_eq (Entry.forward_of_consumes hConsumes) hHeld
    refine ⟨hOnce, fun hOk τ hTask => ?_, hKeep⟩
    obtain ⟨hSaved, hStored⟩ := hSaved hOk
    have hTakes := hConsumes.takes τ hTask
    have hTaskName : τ.entryName = e.name := hTakes.entryName_eq
    refine ⟨hTaskName ▸ hStored, fun σ hσ hSame => ?_, fun row hRow hFlag => ?_⟩
    · rw [hExecuted] at hσ
      exact Std.lt_of_lt_of_le (hHeld.2.2.1 σ hσ (hSame.trans hTaskName)) hTakes.le_time
    · obtain ⟨hActive, hTime⟩ := hSaved row (by rwa [hName, ← hTaskName]) hFlag
      rw [hTime]
      exact hTakes.time_lt hActive
  opened := by
    intro τ id started s a t _ hAnswer h hReady
    obtain ⟨hEntries, hExecuted⟩ := entries_of_answersFinal (r := .record _ _) (calms.answers hAnswer)
    have hCalm : Calm versions s t := .of_entries hEntries hExecuted
    have hStill : KnowsTicks versions (.ready τ) t := KnowsTicks.of_calm hCalm hReady
    exact ⟨h.of_calm hCalm, fun _ => hStill, fun _ _ hNote => hNote.of_calm hCalm⟩
  called := by
    intro τ id s a t _ hAnswer h hOpened
    obtain rfl : t = s.note (.called τ) := calms.answers hAnswer
    refine ⟨h.of_called hOpened, trivial, fun note hOther hNote => ?_⟩
    refine hNote.frame (s := s) (t := s.note (.called τ)) rfl fun σ hσ hName => ?_
    rw [executed_note] at hσ
    rcases List.mem_append.mp hσ with hσ | hσ
    · exact hσ
    · obtain rfl := List.mem_singleton.mp hσ
      exact absurd hName.symm hOther
  finalised := by
    intro τ id r s a t _ _ hAnswer h _
    obtain ⟨hEntries, hExecuted⟩ := entries_of_answersFinal (calms.answers hAnswer)
    have hCalm : Calm versions s t := .of_entries hEntries hExecuted
    exact ⟨h.of_calm hCalm, fun _ hNote => hNote.of_calm hCalm⟩
  spawned := by
    intro τ id s a t job _ _ hAnswer h _
    obtain rfl := calms.answers hAnswer
    have hCalm : Calm versions s { s with jobs := s.jobs ++ [job.program] } := .of_entries rfl rfl
    exact ⟨h.of_calm hCalm, fun _ _ hNote => hNote.of_calm hCalm⟩

end Scene

end TickScheduler
