import Mathlib.Tactic.ByContra
import TickScheduler.Proofs.Engine.LoopInvariant
/-!
No task id is used twice. A result is opened under the id of its task before the action is called, so it
is enough to keep every opened id below the counter of its entry. The counter may be set back to what
follows the highest stored result; that is safe because the newest result is dropped only together
with all others.
-/
namespace TickScheduler

namespace Scene

/-- A result of this task was stored before its action was called. -/
def Opened (s : Scene) (name : String) (id : TaskId) : Prop :=
  ∃ result replaced, .recorded result replaced ∈ s.journal ∧ result.status = .inProgress ∧
    result.entryName = name ∧ result.taskId = id

/-- Some stored result of the entry is as new as this one. -/
def Capped (s : Scene) (name : String) (id : TaskId) : Prop :=
  ∃ top, id ≤ top ∧ s.store.HasResult name top

/-- The result of this task may still be written: that cannot make it the newest one. -/
def MayClose (keep : Nat) (s : Scene) (name : String) (id : TaskId) : Prop :=
  s.Opened name id ∧ (keep = 0 ∨ s.Capped name id)

/-- Every opened id lies below the counter of its entry, and below some stored result unless none is
stored; what runs was opened before, and nothing was stored yet when it was. -/
structure IdsOnce (keep : Nat) (s : Scene) : Prop where
  stored : ∀ name id, s.Opened name id → (s.store.row? name).isSome = true
  below : ∀ name id, s.Opened name id → ∀ row, s.store.row? name = some row → id < row.nextTaskId
  results : ∀ name id, s.store.HasResult name id → s.Opened name id
  capped : ∀ name, (∀ id, ¬ s.store.HasResult name id) ∨ ∀ id, s.Opened name id → s.Capped name id
  opened : ∀ τ ∈ s.executed, ∃ id, τ.taskId = some id ∧ s.Opened τ.entryName id
  once : s.executed.Pairwise fun a b => a.entryName = b.entryName → a.taskId ≠ b.taskId
  fresh : ∀ result replaced, .recorded result replaced ∈ s.journal → result.status = .inProgress →
    replaced = none
  jobs : ∀ job ∈ s.jobs, ∃ name id, MayClose keep s name id ∧ job.Asks (FinalRequest.Closes name id keep)

/-- A step that is not about results, and after which no entry is missing. -/
structure Beside (s t : Scene) : Prop where
  journal_eq : ∃ events, t.journal = s.journal ++ events ∧ ∀ event ∈ events, event.IsAside
  jobs_eq : t.jobs = s.jobs
  results_eq : t.store.results = s.store.results
  stays : ∀ name, (s.store.row? name).isSome = true → (t.store.row? name).isSome = true

/-- Such a step after which the counter of an entry is what it was or more. -/
structure Steady (s t : Scene) : Prop extends Beside s t where
  keeps : ∀ name row, t.store.row? name = some row → s.store.row? name = none ∨
    ∃ old, s.store.row? name = some old ∧ old.nextTaskId ≤ row.nextTaskId

/-- Surroundings that leave counters and results to the loop and its background. -/
structure Steadies (c : Conduct Request Request.Answer Scene) : Prop where
  answers : ∀ {r s a t}, c.answers r s a t → Answers True r s a t
  moves : ∀ {s t}, c.moves s t → Works True s t ∨ Steady s t

variable {s t : Scene} {keep : Nat} {name : String} {id : TaskId}

/-- What the loop knows about the ids of an entry that it is at work on. -/
def KnowsIds (keep : Nat) : Note → Scene → Prop
  | .held e, s => (s.store.row? e.name).isSome = true ∧ ∀ i, s.Opened e.name i → i < e.nextTaskId
  | .counted e last, s => (s.store.row? e.name).isSome = true ∧ ∀ i, s.Opened e.name i → i ≤ last
  | .ready τ, s => (s.store.row? τ.entryName).isSome = true ∧ ∃ id, τ.taskId = some id ∧
      (∀ i, s.Opened τ.entryName i → i < id) ∧
      ∀ row, s.store.row? τ.entryName = some row → id < row.nextTaskId
  | .opened τ, s => ∃ id, τ.taskId = some id ∧ MayClose keep s τ.entryName id ∧
      ∀ σ ∈ s.executed, σ.entryName = τ.entryName → σ.taskId ≠ some id
  | .called τ, s => ∃ id, τ.taskId = some id ∧ MayClose keep s τ.entryName id

/-- A step that does nothing to one entry that the loop could be at work on. -/
structure Spares (keep : Nat) (name : String) (s t : Scene) : Prop where
  stays : (s.store.row? name).isSome = true → (t.store.row? name).isSome = true
  keeps : ∀ row, t.store.row? name = some row → s.store.row? name = none ∨
    ∃ old, s.store.row? name = some old ∧ old.nextTaskId ≤ row.nextTaskId
  opened : ∀ id, t.Opened name id ↔ s.Opened name id
  capped : keep ≠ 0 → ∀ id, s.Capped name id → t.Capped name id
  executed : ∀ σ ∈ t.executed, σ.entryName = name → σ ∈ s.executed

theorem Spares.mayClose (hSpares : Spares keep name s t) (h : MayClose keep s name id) :
    MayClose keep t name id := by
  obtain ⟨hOpened, hRoom⟩ := h
  refine ⟨(hSpares.opened id).mpr hOpened, ?_⟩
  by_cases hKeep : keep = 0
  · exact .inl hKeep
  · exact .inr (hSpares.capped hKeep id (hRoom.resolve_left hKeep))

theorem KnowsIds.of_spares {note : Note} (hSpares : Spares keep note.name s t)
    (h : KnowsIds keep note s) : KnowsIds keep note t := by
  cases note with
  | held e | counted e last =>
      obtain ⟨hStored, hPast⟩ := h
      exact ⟨hSpares.stays hStored, fun i hi => hPast i ((hSpares.opened i).mp hi)⟩
  | ready τ =>
      obtain ⟨hStored, id, hId, hPast, hBelow⟩ := h
      refine ⟨hSpares.stays hStored, id, hId, fun i hi => hPast i ((hSpares.opened i).mp hi),
        fun row hRow => ?_⟩
      rcases hSpares.keeps row hRow with hNone | ⟨old, hOld, hLe⟩
      · change s.store.row? τ.entryName = none at hNone
        rw [hNone] at hStored
        cases hStored
      · exact Std.lt_of_lt_of_le (hBelow old hOld) hLe
  | opened τ =>
      obtain ⟨id, hId, hMay, hNew⟩ := h
      exact ⟨id, hId, hSpares.mayClose hMay, fun σ hσ hName => hNew σ (hSpares.executed σ hσ hName) hName⟩
  | called τ =>
      obtain ⟨id, hId, hMay⟩ := h
      exact ⟨id, hId, hSpares.mayClose hMay⟩

namespace Beside

theorem recorded (h : Beside s t) {result : TaskResult} {replaced : Option ResultRow} :
    .recorded result replaced ∈ t.journal ↔ .recorded result replaced ∈ s.journal := by
  obtain ⟨events, hJournal, hAside⟩ := h.journal_eq
  rw [hJournal, List.mem_append]
  exact or_iff_left fun hNew => (hAside _ hNew).elim

theorem executed_eq (h : Beside s t) : t.executed = s.executed := by
  obtain ⟨events, hJournal, hAside⟩ := h.journal_eq
  exact executed_append hJournal hAside

theorem opened (h : Beside s t) : t.Opened name id ↔ s.Opened name id := by
  simp only [Opened, h.recorded]

theorem capped (h : Beside s t) : t.Capped name id ↔ s.Capped name id := by
  simp only [Capped, Store.hasResult_congr h.results_eq]

theorem spares (h : Beside s t)
    (hKeeps : ∀ row, t.store.row? name = some row → s.store.row? name = none ∨
      ∃ old, s.store.row? name = some old ∧ old.nextTaskId ≤ row.nextTaskId) :
    Spares keep name s t where
  stays := h.stays name
  keeps := hKeeps
  opened _ := h.opened
  capped _ _ := h.capped.mpr
  executed _ hσ _ := h.executed_eq ▸ hσ

/-- Only the counters have to be looked at. -/
theorem idsOnce (hBeside : Beside s t)
    (hBelow : ∀ name id, s.Opened name id → ∀ row, t.store.row? name = some row → id < row.nextTaskId)
    (h : s.IdsOnce keep) : t.IdsOnce keep where
  stored name id hId := hBeside.stays name (h.stored name id (hBeside.opened.mp hId))
  below name id hId := hBelow name id (hBeside.opened.mp hId)
  results name id hId :=
    hBeside.opened.mpr (h.results name id ((Store.hasResult_congr hBeside.results_eq).mp hId))
  capped name := by
    simp only [Store.hasResult_congr hBeside.results_eq, hBeside.opened, hBeside.capped]
    exact h.capped name
  opened τ hτ := by
    simp only [hBeside.opened]
    exact h.opened τ (hBeside.executed_eq ▸ hτ)
  once := hBeside.executed_eq ▸ h.once
  fresh result replaced hEvent := h.fresh result replaced (hBeside.recorded.mp hEvent)
  jobs job hJob := by
    obtain ⟨name, id, ⟨hOpened, hRoom⟩, hAsks⟩ := h.jobs job (hBeside.jobs_eq ▸ hJob)
    exact ⟨name, id, ⟨hBeside.opened.mpr hOpened, hRoom.imp_right hBeside.capped.mpr⟩, hAsks⟩

end Beside

theorem IdsOnce.of_steady (hSteady : Steady s t) (h : s.IdsOnce keep) :
    t.IdsOnce keep ∧ ∀ name, Spares keep name s t := by
  refine ⟨hSteady.idsOnce (fun name id hId row hRow => ?_) h, fun name =>
    hSteady.spares (hSteady.keeps name)⟩
  rcases hSteady.keeps name row hRow with hNone | ⟨old, hOld, hLe⟩
  · have hStored := h.stored name id hId
    rw [hNone] at hStored
    cases hStored
  · exact Std.lt_of_lt_of_le (h.below name id hId old hOld) hLe

/-- What leaves rows and results as they are and runs nothing is steady. -/
theorem Steady.of_store (hStore : t.store = s.store) (hJobs : t.jobs = s.jobs)
    (hJournal : ∃ events, t.journal = s.journal ++ events ∧ ∀ event ∈ events, event.IsAside) :
    Steady s t where
  journal_eq := hJournal
  jobs_eq := hJobs
  results_eq := congrArg Store.results hStore
  stays name h := by rwa [hStore]
  keeps name row hRow := .inr ⟨row, by rwa [← hStore], Int64.le_refl _⟩

theorem Steady.refl (s : Scene) : Steady s s :=
  .of_store rfl rfl ⟨[], by simp⟩

theorem opened_note {event : Event} : (s.note event).Opened name id ↔ s.Opened name id ∨
    ∃ result replaced, event = .recorded result replaced ∧ result.status = .inProgress ∧
      result.entryName = name ∧ result.taskId = id := by
  simp only [Opened, note, List.mem_append, List.mem_singleton]
  grind

/-! ### Storing results -/

section Recording

variable {result : TaskResult} {store : Store}

theorem opened_record : (s.record store result).Opened name id ↔ s.Opened name id ∨
    (result.status = .inProgress ∧ result.entryName = name ∧ result.taskId = id) := by
  rw [record, opened_note]
  exact or_congr Iff.rfl (by simp)

theorem capped_record (hRecords : s.store.Records result keep store) (hKeep : keep ≠ 0)
    (h : s.Capped name id) : (s.record store result).Capped name id := by
  obtain ⟨top, hLe, hTop⟩ := h
  by_cases hName : name = result.entryName
  · subst hName
    obtain ⟨newest, hNewest, hStored⟩ := hRecords.kept hKeep top (.inr hTop)
    exact ⟨newest, Int64.le_trans hLe hNewest, hStored⟩
  · refine ⟨top, hLe, ?_⟩
    change store.HasResult name top
    rw [Store.HasResult, hRecords.other ⟨name, top⟩ hName]
    exact hTop

/-- Storing a result does nothing to an entry if it opens none of its ids. -/
theorem spares_record (hRecords : s.store.Records result keep store)
    (hOther : result.status = .inProgress → result.entryName ≠ name) :
    Spares keep name s (s.record store result) where
  stays h := by
    change (store.row? name).isSome = true
    rwa [Store.row?_congr hRecords.entries_eq]
  keeps row hRow := by
    change store.row? name = some row at hRow
    rw [Store.row?_congr hRecords.entries_eq] at hRow
    exact .inr ⟨row, hRow, Int64.le_refl _⟩
  opened id := by
    rw [opened_record]
    exact or_iff_left fun h => hOther h.1 h.2.1
  capped hKeep _ := capped_record hRecords hKeep
  executed σ hσ _ := by
    rwa [executed_record] at hσ

/-- Results of other entries are what they were. -/
theorem capped_record_of_ne (hRecords : s.store.Records result keep store)
    (hName : name ≠ result.entryName)
    (h : (∀ id, ¬ s.store.HasResult name id) ∨ ∀ id, s.Opened name id → s.Capped name id) :
    (∀ id, ¬ (s.record store result).store.HasResult name id) ∨
      ∀ id, (s.record store result).Opened name id → (s.record store result).Capped name id := by
  have hSame (id : TaskId) : (s.record store result).store.HasResult name id ↔
      s.store.HasResult name id := by
    change store.HasResult name id ↔ _
    rw [Store.HasResult, Store.HasResult, hRecords.other ⟨name, id⟩ hName]
  refine h.imp (fun hNone id hId => hNone id ((hSame id).mp hId)) fun hAll id hId => ?_
  rcases opened_record.mp hId with hId | ⟨-, rfl, -⟩
  · obtain ⟨top, hLe, hTop⟩ := hAll id hId
    exact ⟨top, hLe, (hSame top).mpr hTop⟩
  · exact absurd rfl hName

/-- A result may be stored for an id that no newer one was opened than, or that is no newer than what is
stored. -/
theorem IdsOnce.of_record (hRecords : s.store.Records result keep store)
    (hOpened : (s.record store result).Opened result.entryName result.taskId)
    (hBelow : ∀ id, (s.record store result).Opened result.entryName id →
      ∀ row, s.store.row? result.entryName = some row → id < row.nextTaskId)
    (hStored : (s.store.row? result.entryName).isSome = true)
    (hFresh : result.status = .inProgress → s.store.result? ⟨result.entryName, result.taskId⟩ = none)
    (hCapped : keep ≠ 0 → ∀ id, (s.record store result).Opened result.entryName id →
      id ≤ result.taskId ∨ s.Capped result.entryName id)
    (h : s.IdsOnce keep) : (s.record store result).IdsOnce keep where
  stored name id hId := by
    change (store.row? name).isSome = true
    rw [Store.row?_congr hRecords.entries_eq]
    rcases opened_record.mp hId with hId | ⟨-, rfl, -⟩
    · exact h.stored name id hId
    · exact hStored
  below name id hId row hRow := by
    change store.row? name = some row at hRow
    rw [Store.row?_congr hRecords.entries_eq] at hRow
    by_cases hName : name = result.entryName
    · subst hName
      exact hBelow id hId row hRow
    · rcases opened_record.mp hId with hId | ⟨-, rfl, -⟩
      · exact h.below name id hId row hRow
      · exact absurd rfl hName
  results name id hId := by
    obtain ⟨row, hRow⟩ := Option.isSome_iff_exists.mp hId
    rcases hRecords.source _ _ hRow with ⟨hKey, -⟩ | ⟨-, hOld⟩
    · obtain ⟨rfl, rfl⟩ := ResultKey.mk.inj hKey
      exact hOpened
    · exact opened_record.mpr (.inl (h.results name id (Option.isSome_of_mem hOld)))
  capped name := by
    by_cases hName : name = result.entryName
    · subst hName
      by_cases hKeep : keep = 0
      · exact .inl (hRecords.dropped hKeep)
      · refine .inr fun id hId => ?_
        rcases hCapped hKeep id hId with hLe | hOld
        · obtain ⟨newest, hNewest, hStored⟩ := hRecords.kept hKeep result.taskId (.inl rfl)
          exact ⟨newest, Int64.le_trans hLe hNewest, hStored⟩
        · exact capped_record hRecords hKeep hOld
    · exact capped_record_of_ne hRecords hName (h.capped name)
  opened τ hτ := by
    rw [executed_record] at hτ
    obtain ⟨id, hId, hBefore⟩ := h.opened τ hτ
    exact ⟨id, hId, opened_record.mpr (.inl hBefore)⟩
  once := by
    rw [executed_record]
    exact h.once
  fresh other replaced hEvent hStatus := by
    rcases List.mem_append.mp hEvent with hEvent | hEvent
    · exact h.fresh other replaced hEvent hStatus
    · obtain ⟨rfl, rfl⟩ := Event.recorded.inj (List.mem_singleton.mp hEvent)
      exact hFresh hStatus
  jobs job hJob := by
    obtain ⟨name, id, ⟨hBefore, hRoom⟩, hAsks⟩ := h.jobs job hJob
    refine ⟨name, id, ⟨opened_record.mpr (.inl hBefore), ?_⟩, hAsks⟩
    by_cases hKeep : keep = 0
    · exact .inl hKeep
    · exact .inr (capped_record hRecords hKeep (hRoom.resolve_left hKeep))

/-- The result of a task whose turn it is may be stored as in progress. -/
theorem IdsOnce.of_opening (hRecords : s.store.Records result keep store) {τ : Task}
    (hStatus : result.status = .inProgress) (hName : result.entryName = τ.entryName)
    (hId : τ.taskId = some result.taskId) (hReady : KnowsIds keep (.ready τ) s) (h : s.IdsOnce keep) :
    (s.record store result).IdsOnce keep := by
  obtain ⟨hStored, id, hSame, hPast, hBelow⟩ := hReady
  obtain rfl : result.taskId = id := Option.some.inj (hId.symm.trans hSame)
  rw [← hName] at hStored hPast hBelow
  refine h.of_record hRecords (opened_record.mpr (.inr ⟨hStatus, rfl, rfl⟩)) ?_ hStored ?_ ?_
  · intro id hOpened row hRow
    rcases opened_record.mp hOpened with hOld | ⟨-, -, rfl⟩
    · exact h.below _ id hOld row hRow
    · exact hBelow row hRow
  · intro _
    by_contra hSome
    have hOld := h.results _ _ (Option.isSome_iff_ne_none.mpr hSome)
    exact Int64.lt_irrefl (hPast _ hOld)
  · intro _ id hOpened
    rcases opened_record.mp hOpened with hOld | ⟨-, -, rfl⟩
    · exact .inl (Int64.le_of_lt (hPast id hOld))
    · exact .inl (Int64.le_refl _)

/-- The final result of a task may be stored as long as it cannot be the newest one of all. -/
theorem IdsOnce.of_closing (hRecords : s.store.Records result keep store)
    (hStatus : result.status ≠ .inProgress) (hMay : MayClose keep s result.entryName result.taskId)
    (h : s.IdsOnce keep) : (s.record store result).IdsOnce keep := by
  obtain ⟨hOpened, hRoom⟩ := hMay
  have hSame (id : TaskId) : (s.record store result).Opened result.entryName id ↔
      s.Opened result.entryName id := by
    rw [opened_record]
    exact or_iff_left fun h => hStatus h.1
  refine h.of_record hRecords ((hSame _).mpr hOpened) ?_ (h.stored _ _ hOpened) (absurd · hStatus) ?_
  · exact fun id hId => h.below _ id ((hSame id).mp hId)
  · intro hKeep id hId
    rcases h.capped result.entryName with hNone | hAll
    · obtain ⟨top, -, hTop⟩ := hRoom.resolve_left hKeep
      exact absurd hTop (hNone top)
    · exact .inr (hAll id ((hSame id).mp hId))

end Recording

/-- A request of a finalisation that may close its task. -/
theorem IdsOnce.of_final {r : FinalRequest} {a : r.Answer} (hCloses : r.Closes name id keep)
    (hMay : MayClose keep s name id) (hAnswer : AnswersFinal True r s a t) (h : s.IdsOnce keep) :
    t.IdsOnce keep ∧ ∀ other, Spares keep other s t := by
  cases r with
  | record result kept =>
      obtain ⟨rfl, rfl, hStatus, rfl⟩ := hCloses
      rcases record_cases hAnswer with ⟨store, hStore, -, rfl⟩ | ⟨e, -, rfl⟩
      · have hRecords := Store.records_of_recordResult hStore
        exact ⟨h.of_closing hRecords hStatus hMay, fun _ => spares_record hRecords (absurd · hStatus)⟩
      · exact h.of_steady (.refl _)
  | notify url payload =>
      subst hAnswer
      have hSteady : Steady s (s.note (.notified url payload)) :=
        .of_store rfl rfl ⟨[.notified url payload], rfl, by simp [Event.IsAside]⟩
      exact h.of_steady hSteady

/-- The background does no harm. -/
theorem IdsOnce.of_works (hWorks : Works True s t) (h : s.IdsOnce keep) :
    t.IdsOnce keep ∧ ∀ other, Spares keep other s t := by
  cases hWorks with
  | @step u before after r next a hJobs hAnswer =>
      obtain ⟨name, id, hMay, hAsks⟩ := h.jobs (.ask r next) (by simp [hJobs])
      obtain ⟨hOnce, hSpares⟩ := h.of_final hAsks.1 hMay hAnswer
      have hSame : u.jobs = s.jobs := by
        obtain ⟨_, _, rfl⟩ := frame_of_answersFinal hAnswer
        rfl
      refine ⟨{ hOnce with jobs := fun job hJob => ?_ }, fun other => { hSpares other with }⟩
      rcases List.mem_append.mp hJob with hJob | hJob
      · exact hOnce.jobs job (by simp [hSame, hJobs, hJob])
      rcases List.mem_cons.mp hJob with rfl | hJob
      · exact ⟨name, id, (hSpares name).mayClose hMay, hAsks.2 a⟩
      · exact hOnce.jobs job (by simp [hSame, hJobs, hJob])
  | @finish before after result hJobs =>
      refine ⟨{ h with jobs := fun job hJob => h.jobs job ?_ }, fun other =>
        { (h.of_steady (.refl s)).2 other with }⟩
      rw [hJobs]
      rcases List.mem_append.mp hJob with hJob | hJob <;> simp [hJob]

/-! ### As an invariant of the loop -/

variable {c : Conduct Request Request.Answer Scene}

/-- A cursor may be saved if its id is above all that were opened. -/
theorem IdsOnce.of_answer {f : Entry} {a : Except Error Unit}
    (hAnswer : Answers True (.saveCursor f) s a t)
    (hPast : ∀ id, s.Opened f.name id → id < f.nextTaskId) (h : s.IdsOnce keep) :
    t.IdsOnce keep ∧ Beside s t ∧ (∀ name, name ≠ f.name → Spares keep name s t) ∧
      (a = .ok () → ∀ row, t.store.row? f.name = some row → f.nextTaskId ≤ row.nextTaskId) := by
  rcases hAnswer.cases with ⟨store, hStore, -, rfl⟩ | ⟨e, rfl, rfl⟩
  · have hRewrites := Store.rewrites_of_saveCursor hStore
    have hBeside : Beside s { s with store } :=
      ⟨⟨[], by simp⟩, rfl, hRewrites.results_eq, fun name h => by rwa [hRewrites.isSome_row?]⟩
    have hAbove : ∀ row, store.row? f.name = some row → f.nextTaskId ≤ row.nextTaskId := by
      intro row hRow
      obtain ⟨old, -, rfl⟩ := Option.map_eq_some_iff.mp (hRewrites.same.symm.trans hRow)
      exact old.le_nextTaskId_withCursor f
    refine ⟨hBeside.idsOnce (fun name id hId row hRow => ?_) h, hBeside, fun name hName => ?_,
      fun _ => hAbove⟩
    · by_cases hName : name = f.name
      · subst hName
        exact Std.lt_of_lt_of_le (hPast id hId) (hAbove row hRow)
      · exact h.below name id hId row (hRewrites.other hName ▸ hRow)
    · exact hBeside.spares fun row hRow => .inr ⟨row, hRewrites.other hName ▸ hRow, Int64.le_refl _⟩
  · obtain ⟨hOnce, hSpares⟩ := h.of_steady (.refl _)
    exact ⟨hOnce, (Steady.refl _).toBeside, fun name _ => hSpares name, nofun⟩

/-- A task may run once its result is opened. -/
theorem IdsOnce.of_called {τ : Task} (hOpened : KnowsIds keep (.opened τ) s) (h : s.IdsOnce keep) :
    (s.note (.called τ)).IdsOnce keep ∧ KnowsIds keep (.called τ) (s.note (.called τ)) ∧
      ∀ name, name ≠ τ.entryName → Spares keep name s (s.note (.called τ)) := by
  obtain ⟨id, hId, hMay, hNew⟩ := hOpened
  have hExecuted : (s.note (.called τ)).executed = s.executed ++ [τ] := executed_note s (.called τ)
  have hSame (name : String) (id : TaskId) : (s.note (.called τ)).Opened name id ↔ s.Opened name id := by
    simp [opened_note]
  refine ⟨?_, ⟨id, hId, (hSame _ _).mpr hMay.1, hMay.2⟩, fun name hName => ?_⟩
  · exact {
      stored := fun name id hOld => h.stored name id ((hSame name id).mp hOld)
      below := fun name id hOld => h.below name id ((hSame name id).mp hOld)
      results := fun name id hOld => (hSame name id).mpr (h.results name id hOld)
      capped := fun name => (h.capped name).imp_right fun hAll id hOld =>
        hAll id ((hSame name id).mp hOld)
      opened := by
        simp only [hExecuted, hSame]
        exact List.forall_mem_append.mpr ⟨h.opened, List.forall_mem_singleton.mpr ⟨id, hId, hMay.1⟩⟩
      once := by
        rw [hExecuted]
        refine List.pairwise_append.mpr ⟨h.once, List.pairwise_singleton _ _,
          fun σ hσ other hOther hName => ?_⟩
        obtain rfl := List.mem_singleton.mp hOther
        rw [hId]
        exact hNew σ hσ hName
      fresh := fun result replaced hEvent => by
        refine h.fresh result replaced ?_
        rcases List.mem_append.mp hEvent with hEvent | hEvent
        · exact hEvent
        · cases List.mem_singleton.mp hEvent
      jobs := fun job hJob => by
        obtain ⟨name, id, ⟨hOld, hRoom⟩, hAsks⟩ := h.jobs job hJob
        exact ⟨name, id, ⟨(hSame name id).mpr hOld, hRoom⟩, hAsks⟩ }
  · refine ⟨fun h => h, fun row hRow => .inr ⟨row, hRow, Int64.le_refl _⟩, hSame name, fun _ _ h => h, ?_⟩
    intro σ hσ hSigma
    rw [hExecuted] at hσ
    rcases List.mem_append.mp hσ with hσ | hσ
    · exact hσ
    · obtain rfl := List.mem_singleton.mp hσ
      exact absurd hSigma.symm hName

/-- In surroundings that leave counters and results to the loop and its background, no id is used twice. -/
def idsOnce (setup : LoopSetup) (steadies : Steadies c) : LoopInvariant setup c where
  inv := IdsOnce setup.settings.maxTaskResults
  holds := KnowsIds setup.settings.maxTaskResults
  moved hMove h := by
    rcases steadies.moves hMove with hWorks | hSteady
    · obtain ⟨hOnce, hSpares⟩ := h.of_works hWorks
      exact ⟨hOnce, fun note hNote => hNote.of_spares (hSpares note.name)⟩
    · obtain ⟨hOnce, hSpares⟩ := h.of_steady hSteady
      exact ⟨hOnce, fun note hNote => hNote.of_spares (hSpares note.name)⟩
  passive := by
    intro r s a t hPassive hAnswer h
    obtain ⟨monitor, rfl⟩ := passive_answer hPassive (steadies.answers hAnswer)
    obtain ⟨hOnce, hSpares⟩ := h.of_steady (s := s) (t := { s with monitor })
      (.of_store rfl rfl ⟨[], by simp⟩)
    exact ⟨hOnce, fun note hNote => hNote.of_spares (hSpares note.name)⟩
  snapshot := by
    intro s entries t hAnswer h
    obtain ⟨rfl, hNodup, hRows⟩ := snapshot_answer (steadies.answers hAnswer)
    refine ⟨hNodup, fun e hEntry => ?_⟩
    obtain ⟨row, hRow, -, rfl⟩ := hRows e hEntry
    exact ⟨Option.isSome_of_mem hRow, fun i hi => h.below _ i hi row hRow⟩
  found hAnswer := entry_answer (steadies.answers hAnswer)
  counted := by
    intro e last s t hAnswer h hHeld
    obtain ⟨hRead | ⟨-, _, hError⟩, rfl⟩ := steadies.answers hAnswer
    · obtain ⟨hLast, hMax⟩ := Store.lastTaskId_spec hRead.symm
      refine ⟨hHeld.1, fun i hi => ?_⟩
      rcases h.capped e.name with hNone | hAll
      · exact absurd (hLast last rfl) (hNone last)
      · -- some stored result is as new, and none is newer than the last
        obtain ⟨top, hLe, hTop⟩ := hAll i hi
        obtain ⟨newest, hNewest, hTopLe⟩ := hMax top hTop
        obtain rfl := Option.some.inj hNewest
        exact Int64.le_trans hLe hTopLe
    · cases hError
  restored := by
    intro e last next s a t hNext hAnswer h hCounted
    have hPast : ∀ id, s.Opened e.name id → id < next := by
      intro id hId
      have hLe := hCounted.2 id hId
      have hSucc := Tick.succ?_eq_some_iff.mp hNext
      rw [Int64.le_iff_toInt_le] at hLe
      rw [Int64.lt_iff_toInt_lt]
      omega
    obtain ⟨hOnce, -, hSpares, -⟩ := h.of_answer (steadies.answers hAnswer) hPast
    exact ⟨hOnce, fun note hOther hNote => hNote.of_spares (hSpares note.name hOther)⟩
  saved := by
    intro e now task f s a t hConsume hAnswer h hHeld
    have hConsumes := Entry.consumes_of_consume hConsume
    have hName := hConsumes.moves.name_eq
    obtain ⟨hStored, hPast⟩ := hHeld
    obtain ⟨hOnce, hBeside, hSpares, hAbove⟩ := h.of_answer (steadies.answers hAnswer) fun id hId =>
      Std.lt_of_lt_of_le (hPast id (hName ▸ hId)) hConsumes.le_nextTaskId
    rw [hName] at hSpares hAbove
    refine ⟨hOnce, fun hOk τ hTask => ?_, fun note hOther hNote =>
      hNote.of_spares (hSpares note.name hOther)⟩
    have hTaskName : τ.entryName = e.name := (hConsumes.takes τ hTask).entryName_eq
    have hTaskId : τ.taskId = some e.nextTaskId := (hConsumes.takes τ hTask).taskId_eq
    refine ⟨hTaskName ▸ hBeside.stays _ hStored, e.nextTaskId, hTaskId, fun i hi => ?_,
      fun row hRow => ?_⟩
    · exact hPast i (hBeside.opened.mp (hTaskName ▸ hi))
    · exact Std.lt_of_lt_of_le (hConsumes.takes τ hTask).nextTaskId_lt (hAbove hOk row (hTaskName ▸ hRow))
  opened := by
    intro τ id started s a t hId hAnswer h hReady
    rcases record_cases (steadies.answers hAnswer) with ⟨store, hStore, -, rfl⟩ | ⟨e, rfl, rfl⟩
    · have hRecords := Store.records_of_recordResult hStore
      have hOnce := h.of_opening hRecords rfl rfl hId hReady
      refine ⟨hOnce, fun _ => ⟨id, hId, ⟨opened_record.mpr (.inr ⟨rfl, rfl, rfl⟩), ?_⟩, ?_⟩,
        fun note hOther hNote => hNote.of_spares (spares_record hRecords fun _ => hOther.symm)⟩
      · by_cases hKeep : setup.settings.maxTaskResults = 0
        · exact .inl hKeep
        · exact .inr (hRecords.kept hKeep id (.inl rfl))
      · intro σ hσ hName hSame
        obtain ⟨-, own, hOwn, hPast, -⟩ := hReady
        rw [executed_record] at hσ
        obtain ⟨i, hi, hOpened⟩ := h.opened σ hσ
        obtain rfl : i = own := Option.some.inj (hi.symm.trans (hSame.trans (hId.symm.trans hOwn)))
        exact Int64.lt_irrefl (hPast i (hName ▸ hOpened))
    · exact ⟨h, nofun, fun _ _ hNote => hNote⟩
  called := by
    intro τ id s a t _ hAnswer h hOpened
    obtain rfl : t = s.note (.called τ) := steadies.answers hAnswer
    obtain ⟨hOnce, hCalled, hSpares⟩ := h.of_called hOpened
    exact ⟨hOnce, hCalled, fun note hOther hNote => hNote.of_spares (hSpares note.name hOther)⟩
  finalised := by
    intro τ id r s a t hId hCloses hAnswer h hCalled
    obtain ⟨own, hOwn, hMay⟩ := hCalled
    obtain rfl : id = own := Option.some.inj (hId.symm.trans hOwn)
    obtain ⟨hOnce, hSpares⟩ := h.of_final hCloses hMay (steadies.answers hAnswer)
    exact ⟨hOnce, fun note hNote => hNote.of_spares (hSpares note.name)⟩
  spawned := by
    intro τ id s a t job hId hAsks hAnswer h hCalled
    obtain ⟨own, hOwn, hMay⟩ := hCalled
    obtain rfl : id = own := Option.some.inj (hId.symm.trans hOwn)
    obtain rfl := steadies.answers hAnswer
    refine ⟨{ h with jobs := ?_ }, fun note _ hNote => ?_⟩
    · exact List.forall_mem_append.mpr ⟨h.jobs, List.forall_mem_singleton.mpr ⟨_, id, hMay, hAsks⟩⟩
    · exact hNote.of_spares { (h.of_steady (.refl s)).2 note.name with }

end Scene

end TickScheduler
