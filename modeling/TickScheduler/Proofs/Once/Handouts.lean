import TickScheduler.Proofs.Engine.Confinement
import TickScheduler.Proofs.Engine.Rehearsal
/-!
Ids that are handed out, over all schedulers that a store ever has. An entry counts its tasks, and the
counter is stored with the cursor. But a run begins by setting the counter to what comes after the
newest result. If every task leaves a result, that changes nothing. A task that was dropped leaves none,
and then its id is handed out again.
-/
namespace TickScheduler

/-- Rows stay, and their counters with them. -/
def Store.KeepsCounters (s t : Store) : Prop :=
  ∀ name row, s.row? name = some row → ∃ now, t.row? name = some now ∧ now.nextTaskId = row.nextTaskId

/-- The counter of an entry comes right after the highest of the ids it has handed out. -/
def Store.Counts (s : Store) (handed : List (String × TaskId)) : Prop :=
  ∀ name id, (name, id) ∈ handed → ∃ row last, s.row? name = some row ∧ (name, last) ∈ handed ∧
    id ≤ last ∧ row.nextTaskId.toInt = last.toInt + 1

namespace Store

variable {s t : Store} {handed : List (String × TaskId)} {name : String} {id : TaskId}

theorem KeepsCounters.of_entries_eq (h : t.entries = s.entries) : s.KeepsCounters t :=
  fun name row hRow => ⟨row, (row?_congr h name).trans hRow, rfl⟩

theorem KeepsCounters.of_rewrites {change : EntryRow → EntryRow} (h : s.Rewrites name change t)
    (hChange : ∀ row, s.row? name = some row → (change row).nextTaskId = row.nextTaskId) :
    s.KeepsCounters t := by
  intro other row hRow
  by_cases hName : other = name
  · subst hName
    exact ⟨change row, h.found hRow, hChange row hRow⟩
  · exact ⟨row, (h.other hName).trans hRow, rfl⟩

theorem KeepsCounters.of_apply {deed : Deed} (h : deed.apply s = .ok t)
    (hKept : ∀ name, deed ≠ .delete name) : s.KeepsCounters t := by
  intro name row hRow
  obtain ⟨now, hNow⟩ := Option.isSome_iff_exists.mp
    (Deed.isSome_row? h (hKept name) (Option.isSome_of_mem hRow))
  rcases Deed.nextTaskId_of_apply h hNow with ⟨old, hOld, hSame⟩ | ⟨e, -, -, hNone, -⟩
  · cases hOld.symm.trans hRow
    exact ⟨now, hNow, hSame⟩
  · cases hNone.symm.trans hRow

theorem Counts.keep (hKeeps : s.KeepsCounters t) (h : s.Counts handed) : t.Counts handed := by
  intro name id hHanded
  obtain ⟨row, last, hRow, hLast, hLe, hNext⟩ := h name id hHanded
  obtain ⟨now, hNow, hSame⟩ := hKeeps name row hRow
  exact ⟨now, last, hNow, hLast, hLe, hSame ▸ hNext⟩

theorem Counts.countsPast (h : s.Counts handed) (hHanded : (name, id) ∈ handed) :
    s.CountsPast name id := by
  intro row hRow
  obtain ⟨found, last, hFound, -, hLe, hNext⟩ := h name id hHanded
  cases hFound.symm.trans hRow
  rw [Int64.le_iff_toInt_le] at hLe
  rw [Int64.lt_iff_toInt_lt]
  omega

/-- The counter is known wherever the newest id is. -/
theorem Counts.toInt_eq {row : EntryRow} (h : s.Counts handed) (hHanded : (name, id) ∈ handed)
    (hNewest : ∀ other, (name, other) ∈ handed → other ≤ id) (hRow : s.row? name = some row) :
    row.nextTaskId.toInt = id.toInt + 1 := by
  obtain ⟨found, last, hFound, hLast, hLe, hNext⟩ := h name id hHanded
  cases hFound.symm.trans hRow
  rwa [Int64.le_antisymm hLe (hNewest last hLast)]

/-- One more id is handed out: the one that the counter was at. -/
theorem Counts.hand {row now : EntryRow} (h : s.Counts handed) (hRow : s.row? name = some row)
    (hNow : t.row? name = some now) (hNext : now.nextTaskId.toInt = row.nextTaskId.toInt + 1)
    (hOther : ∀ other, other ≠ name → t.row? other = s.row? other) :
    t.Counts ((name, row.nextTaskId) :: handed) := by
  intro other id hHanded
  by_cases hName : other = name
  · subst hName
    refine ⟨now, row.nextTaskId, hNow, List.mem_cons_self, ?_, hNext⟩
    rcases List.mem_cons.mp hHanded with hNew | hOld
    · exact Int64.le_of_eq (Prod.mk.inj hNew).2
    · exact Int64.le_of_lt (h.countsPast hOld row hRow)
  · have hOld := (List.mem_cons.mp hHanded).resolve_left fun hNew => hName (Prod.mk.inj hNew).1
    obtain ⟨found, last, hFound, hLast, hBoth⟩ := h other id hOld
    exact ⟨found, last, (hOther other hName).trans hFound, List.mem_cons_of_mem _ hLast, hBoth⟩

end Store

namespace Watch

/-- Remembers which ids were handed out and stored as such, the latest first. No entry is deleted. Without
gaps, the newest result of an entry is of the latest id handed out whenever a run asks for it. -/
def handouts (gaps : Prop) : Watch (List (String × TaskId)) where
  heard
    | handed, φ, .saveCursor _, .ok () => φ.handout.toList ++ handed
    | handed, _, _, _ => handed
  seen handed _ := handed
  admits
    | s, .lastTaskId name, .ok (some last) => gaps ∨ ∀ id, (name, id) ∈ s.memory → id ≤ last
    | _, _, _ => True
  allows _ deed := ∀ name, deed ≠ .delete name

/-- What can come of an empty store under one scheduler after the other. -/
inductive Lives {Memory : Type} (w : Watch Memory) (faulty : Prop) (memory : Memory) :
    Watched Memory → Prop where
  | empty (clock : Tick) : Lives w faulty memory (.begin { store := .empty, clock } memory)
  /-- What the scheduler had in the background is lost with it. -/
  | renew {s : Watched Memory} (before : Lives w faulty memory s) :
      Lives w faulty memory (.begin s.scene.renew s.memory)
  /-- The scheduler is asked to do something, and has come to `rest` when it is left. -/
  | serve {s t : Watched Memory} {rest : Program Request Request.Answer Unit} (setup : LoopSetup)
      (duty : Duty) (before : Lives w faulty memory s)
      (hLeads : Program.Leads (w.conduct faulty) (duty.program setup) (.begin s.scene s.memory) rest t) :
      Lives w faulty memory t

/-- Ids are handed out in order, and nothing else is stored or waits for its turn. -/
structure Sequential (s : Watched (List (String × TaskId))) : Prop where
  ordered : s.memory.Pairwise fun later earlier => later.1 = earlier.1 → earlier.2 < later.2
  counts : s.scene.store.Counts s.memory
  held : ∀ e ∈ s.course.held, ∃ row, s.scene.store.row? e.name = some row ∧
    row.nextTaskId = e.nextTaskId
  counted : ∀ e last, s.course.counted = some (e, last) → (e.name, last) ∈ s.memory ∧
    ∀ id, (e.name, id) ∈ s.memory → id ≤ last
  ready : ∀ τ ∈ s.course.ready, ∀ id, τ.taskId = some id → (τ.entryName, id) ∈ s.memory
  confined : s.Confined fun name id => (name, id) ∈ s.memory

variable {gaps faulty : Prop} {s t : Watched (List (String × TaskId))} {setup : LoopSetup}
  {restoring : Prop}

theorem Sequential.empty (clock : Tick) : Sequential (.begin { store := .empty, clock } []) where
  ordered := .nil
  counts _ _ := nofun
  held _ := nofun
  counted _ _ := nofun
  ready _ hτ := nomatch hτ
  confined :=
    { results := fun _ _ hResult => by simp [Watched.begin, Store.HasResult] at hResult
      jobs := fun _ => nofun
      current := fun _ _ _ => nofun }

/-- A scheduler that begins knows of nothing but what is stored. -/
theorem Sequential.begin {scene : Scene} (hStore : scene.store = s.scene.store)
    (hJobs : ∀ job ∈ scene.jobs, job ∈ s.scene.jobs) (h : Sequential s) :
    Sequential (.begin scene s.memory) where
  ordered := h.ordered
  counts := by
    change scene.store.Counts s.memory
    exact hStore ▸ h.counts
  held _ := nofun
  counted _ _ := nofun
  ready _ hτ := nomatch hτ
  confined :=
    { results := by
        change ∀ name id, scene.store.HasResult name id → _
        exact hStore ▸ h.confined.results
      jobs := fun job hJob => h.confined.jobs job (hJobs job hJob)
      current := fun _ _ _ => nofun }

/-- As long as counters are kept and nothing is handed out, only the course of the loop matters. -/
private theorem Sequential.keep (hKeeps : s.scene.store.KeepsCounters t.scene.store)
    (hMemory : t.memory = s.memory) (hHeld : t.course.held ⊆ s.course.held)
    (hCounted : ∀ pair, t.course.counted = some pair → s.course.counted = some pair)
    (hReady : t.course.ready ⊆ s.course.ready)
    (hConfined : t.Confined fun name id => (name, id) ∈ s.memory) (h : Sequential s) : Sequential t := by
  obtain ⟨scene, course, memory⟩ := t
  obtain rfl : memory = s.memory := hMemory
  refine ⟨h.ordered, h.counts.keep hKeeps, fun e hEntry => ?_, fun e last hPair => ?_, fun τ hτ => ?_,
    hConfined⟩
  · obtain ⟨row, hRow, hSame⟩ := h.held e (hHeld hEntry)
    obtain ⟨now, hNow, hNext⟩ := hKeeps _ _ hRow
    exact ⟨now, hNow, hNext.trans hSame⟩
  · exact h.counted e last (hCounted _ hPair)
  · exact h.ready τ (hReady hτ)

/-- Results stay those of ids handed out: a task whose turn it comes to be was ready before. -/
theorem Sequential.confines {r : Request} {a : r.Answer} (hPermits : s.course.Permits setup restoring r)
    (hHears : (handouts gaps).Hears faulty r s a t) (h : Sequential s) :
    t.Confined fun name id => (name, id) ∈ s.memory :=
  h.confined.hears hPermits hHears fun τ id _ hHead hId _ => h.ready τ (List.mem_of_head? hHead) id hId

theorem Sequential.snapshot {a : Except Error (List Entry)}
    (hPermits : s.course.Permits setup restoring .activeEntries)
    (hHears : (handouts gaps).Hears faulty .activeEntries s a t) (h : Sequential s) : Sequential t := by
  have hConfined := h.confines hPermits hHears
  have hScene : t.scene = s.scene := hHears.answer.2
  have hMemory : t.memory = s.memory := hHears.memory_eq
  have hCourse := hHears.course_eq
  cases a with
  | error e =>
      refine h.keep (hScene ▸ .of_entries_eq rfl) hMemory ?_ ?_ ?_ hConfined <;>
        simp [hCourse, Course.after]
  | ok entries =>
      obtain ⟨-, -, hRows⟩ := Scene.snapshot_answer hHears.answer
      obtain ⟨scene, course, memory⟩ := t
      subst hScene hMemory hCourse
      refine ⟨h.ordered, h.counts, fun e hEntry => ?_, ?_, ?_, hConfined⟩
      · obtain ⟨row, hRow, -, rfl⟩ := hRows e hEntry
        exact ⟨row, hRow, rfl⟩
      · rintro _ _ ⟨⟩
      · rintro _ ⟨⟩

/-- The newest result of an entry is of an id that was handed out, and of the latest if there are no gaps. -/
theorem Sequential.counting {name : String} {a : Except Error (Option TaskId)} (hGaps : ¬ gaps)
    (hPermits : s.course.Permits setup restoring (.lastTaskId name))
    (hHears : (handouts gaps).Hears faulty (.lastTaskId name) s a t) (h : Sequential s) :
    Sequential t := by
  have hConfined := h.confines hPermits hHears
  have hScene : t.scene = s.scene := hHears.answer.2
  have hMemory : t.memory = s.memory := hHears.memory_eq
  have hCourse := hHears.course_eq
  cases a with
  | error fault =>
      refine h.keep (hScene ▸ .of_entries_eq rfl) hMemory ?_ ?_ ?_ hConfined <;>
        simp [hCourse, Course.after]
  | ok last =>
      obtain ⟨-, e, rest, hHeld, rfl⟩ := hPermits
      obtain ⟨hAdmitted, ⟨hRead, -⟩, -, -⟩ := hHears
      obtain ⟨scene, course, memory⟩ := t
      subst hScene hMemory hCourse
      refine ⟨h.ordered, h.counts, fun other hOther => h.held other (List.mem_of_mem_tail hOther), ?_,
        h.ready, hConfined⟩
      intro other newest hCounted
      obtain ⟨rfl, hLast⟩ : other = e ∧ last = some newest := by
        cases last <;> simp_all [Course.after]
      subst hLast
      rcases hRead with hRead | ⟨-, _, hError⟩
      · have hResult := (Store.lastTaskId_spec hRead.symm).1 newest rfl
        exact ⟨h.confined.results _ _ hResult, hAdmitted.resolve_left hGaps⟩
      · cases hError

/-- Restoring the counter of an entry sets it to what it is. -/
theorem Sequential.nextTaskId_of_restores {f : Entry} {row : EntryRow} (hRestores : s.course.Restores f)
    (hRow : s.scene.store.row? f.name = some row) (h : Sequential s) : row.nextTaskId = f.nextTaskId := by
  obtain ⟨e, last, next, hCounted, hNext, rfl⟩ := hRestores
  obtain ⟨hLast, hNewest⟩ := h.counted e last hCounted
  have hRowNext := h.counts.toInt_eq hLast hNewest hRow
  exact Int64.toInt_inj.mp (hRowNext.trans (Tick.succ?_eq_some_iff.mp hNext).symm)

theorem Sequential.restores {f : Entry} {a : Except Error Unit} (hRestores : s.course.Restores f)
    (hPermits : s.course.Permits setup restoring (.saveCursor f))
    (hHears : (handouts gaps).Hears faulty (.saveCursor f) s a t) (h : Sequential s) :
    s.scene.store.KeepsCounters t.scene.store ∧ Sequential t := by
  have hConfined := h.confines hPermits hHears
  have hKeeps : s.scene.store.KeepsCounters t.scene.store := by
    rcases Scene.Writes.cases hHears.answer with ⟨store, hStore, -, hScene⟩ | ⟨-, -, hScene⟩
    · rw [hScene]
      refine .of_rewrites (Store.rewrites_of_saveCursor hStore) fun row hRow => ?_
      have hSame := h.nextTaskId_of_restores hRestores hRow
      exact (EntryRow.nextTaskId_withCursor (Int64.le_of_eq hSame)).trans hSame.symm
    · exact hScene ▸ .of_entries_eq rfl
  obtain ⟨e, last, next, hCounted, -⟩ := hRestores
  have hMemory : t.memory = s.memory := by
    rw [hHears.memory_eq]
    cases a with
    | ok => simp [handouts, Course.handout, hCounted]
    | error => rfl
  refine ⟨hKeeps, h.keep hKeeps hMemory ?_ ?_ ?_ hConfined⟩ <;>
    cases a <;> simp [hHears.course_eq, Course.after, hCounted]

/-- The counter of the entry comes to where its cursor is. -/
theorem Sequential.counter_of_saves {e f : Entry} {rest : List Entry} (hSaves : s.Saves e rest f t)
    (h : Sequential s) : ∃ row, s.scene.store.row? e.name = some row ∧
      row.nextTaskId = e.nextTaskId ∧ (row.withCursor f).nextTaskId = f.nextTaskId := by
  obtain ⟨row, hRow, hSame⟩ := h.held e hSaves.mem
  exact ⟨row, hRow, hSame, EntryRow.nextTaskId_withCursor (hSame ▸ hSaves.consumes.le_nextTaskId)⟩

/-- Nothing is due of an entry: its counter is kept. -/
theorem Sequential.idle {e f : Entry} {rest : List Entry} (hSaves : s.Saves e rest f t)
    (hDue : s.course.due = none) (hMemory : t.memory = s.course.handout.toList ++ s.memory)
    (hConfined : t.Confined fun name id => (name, id) ∈ s.memory) (h : Sequential s) : Sequential t := by
  obtain ⟨row, hRow, hSame, hCounter⟩ := h.counter_of_saves hSaves
  have hKeeps : s.scene.store.KeepsCounters t.scene.store := by
    refine .of_rewrites hSaves.rewrites fun found hFound => ?_
    cases hFound.symm.trans hRow
    exact (hCounter.trans (hSaves.consumes.idle hDue).2.1).trans hSame.symm
  rw [Course.handout_of_consumes hSaves.counted hSaves.consumes, hDue] at hMemory
  refine h.keep hKeeps hMemory ?_ ?_ ?_ hConfined <;> simp [hSaves.course_eq, hSaves.held, hDue]

/-- A task that is due takes the id that the counter of its entry is at. -/
theorem Sequential.hand {e f : Entry} {rest : List Entry} {τ : Task} (hSaves : s.Saves e rest f t)
    (hDue : s.course.due = some τ) (hMemory : t.memory = s.course.handout.toList ++ s.memory)
    (hNames : s.course.names.Nodup) (hConfined : t.Confined fun name id => (name, id) ∈ s.memory)
    (h : Sequential s) : Sequential t := by
  have hTaken := hSaves.consumes.takes τ hDue
  obtain ⟨row, hRow, hSame, hCounter⟩ := h.counter_of_saves hSaves
  replace hMemory : t.memory = (e.name, row.nextTaskId) :: s.memory := by
    rw [hMemory, Course.handout_of_consumes hSaves.counted hSaves.consumes, hDue, hSame]
    rfl
  obtain ⟨scene, course, memory⟩ := t
  subst hMemory
  refine ⟨h.ordered.cons fun pair hPair hName => ?_, ?_, fun other hOther => ?_, fun other last hPair => ?_,
    fun σ hσ id hId => ?_, hConfined.mono fun _ _ => List.mem_cons_of_mem _⟩
  · exact h.counts.countsPast hPair row (hName ▸ hRow)
  · refine h.counts.hand hRow (hSaves.rewrites.found hRow) ?_ fun other => hSaves.rewrites.other
    rw [hCounter, hTaken.id_succ, hSame]
  · obtain ⟨hHeld, hKept⟩ := hSaves.other hNames hOther
    exact hKept ▸ h.held other hHeld
  · rw [hSaves.course_eq] at hPair
    cases hSaves.counted.symm.trans hPair
  · rcases hSaves.mem_ready hσ with hσ | hNew
    · exact List.mem_cons_of_mem _ (h.ready σ hσ id hId)
    · obtain rfl : e.nextTaskId = id := Option.some.inj (hNew.taskId_eq.symm.trans hId)
      rw [hNew.entryName_eq, ← hSame]
      exact List.mem_cons_self

theorem Sequential.takes {f : Entry} {a : Except Error Unit} (hTakes : s.course.Takes f)
    (hPermits : s.course.Permits setup restoring (.saveCursor f)) (hNames : s.course.names.Nodup)
    (hHears : (handouts gaps).Hears faulty (.saveCursor f) s a t) (h : Sequential s) : Sequential t := by
  have hConfined := h.confines hPermits hHears
  rcases hHears.saves hTakes with ⟨fault, rfl, hScene, hCourse⟩ | ⟨e, rest, rfl, hSaves⟩
  · refine h.keep (hScene ▸ .of_entries_eq rfl) hHears.memory_eq ?_ ?_ ?_ hConfined <;> simp [hCourse]
  · cases hDue : s.course.due with
    | none => exact h.idle hSaves hDue hHears.memory_eq hConfined
    | some τ => exact h.hand hSaves hDue hHears.memory_eq hNames hConfined

theorem Sequential.hears {r : Request} {a : r.Answer} (hGaps : ¬ gaps)
    (hPermits : s.course.Permits setup restoring r) (hNames : s.course.names.Nodup)
    (hHears : (handouts gaps).Hears faulty r s a t) (h : Sequential s) : Sequential t := by
  by_cases hSnapshot : r = .activeEntries
  · subst hSnapshot
    exact h.snapshot hPermits hHears
  by_cases hCount : ∃ name, r = .lastTaskId name
  · obtain ⟨name, rfl⟩ := hCount
    exact h.counting hGaps hPermits hHears
  by_cases hSave : ∃ f, r = .saveCursor f
  · obtain ⟨f, rfl⟩ := hSave
    have hSaves : (restoring ∧ s.course.Restores f) ∨ s.course.Takes f := hPermits
    rcases hSaves with ⟨-, hRestores⟩ | hTakes
    · exact (h.restores hRestores hPermits hHears).2
    · exact h.takes hTakes hPermits hNames hHears
  have hKeeps := Store.KeepsCounters.of_entries_eq
    (Scene.entries_of_answers hHears.answer (not_exists.mp hSave))
  have hMemory : t.memory = s.memory := by
    rw [hHears.memory_eq]
    cases r <;> first | rfl | exact absurd ⟨_, rfl⟩ hSave
  refine h.keep hKeeps hMemory ?_ ?_ ?_ (h.confines hPermits hHears) <;> rw [hHears.course_eq]
  · exact Course.held_after_subset hSnapshot
  · exact fun pair => Course.counted_after (not_exists.mp hCount)
  · exact Course.ready_after_subset (not_exists.mp hSave)

/-- Saving a cursor never lowers a counter. -/
theorem Sequential.raises {f : Entry} {a : Except Error Unit}
    (hPermits : s.course.Permits setup restoring (.saveCursor f))
    (hHears : (handouts gaps).Hears faulty (.saveCursor f) s a t) (h : Sequential s) {name : String}
    {row now : EntryRow} (hRow : s.scene.store.row? name = some row)
    (hNow : t.scene.store.row? name = some now) : row.nextTaskId ≤ now.nextTaskId := by
  have hSaves : (restoring ∧ s.course.Restores f) ∨ s.course.Takes f := hPermits
  rcases hSaves with ⟨-, hRestores⟩ | hTakes
  · obtain ⟨found, hFound, hSame⟩ := (h.restores hRestores hPermits hHears).1 name row hRow
    cases hFound.symm.trans hNow
    exact Int64.le_of_eq hSame.symm
  rcases hHears.saves hTakes with ⟨-, -, hScene, -⟩ | ⟨e, rest, -, hSaves⟩
  · rw [hScene, hRow] at hNow
    cases hNow
    exact Int64.le_refl _
  · have hCounter (found : EntryRow) (hFound : s.scene.store.row? e.name = some found) :
        found.nextTaskId = e.nextTaskId := by
      obtain ⟨held, hHeld, hSame, -⟩ := h.counter_of_saves hSaves
      cases hHeld.symm.trans hFound
      exact hSame
    obtain ⟨old, hOld, hLe⟩ := hSaves.raises hCounter hNow
    cases hOld.symm.trans hRow
    exact hLe

theorem Sequential.passes (hPasses : (handouts gaps).Passes faulty s t) (h : Sequential s) :
    Sequential t := by
  cases hPasses with
  | elapse hElapses =>
      exact h.keep (.of_entries_eq hElapses.entries_eq) rfl (List.Subset.refl _) (fun _ => id)
        (List.Subset.refl _) (h.confined.elapses hElapses)
  | deed hAllowed hStore =>
      exact h.keep (.of_apply hStore hAllowed) rfl (List.Subset.refl _) (fun _ => id)
        (List.Subset.refl _) (h.confined.deed hStore _)

/-- What a scheduler is asked to do keeps ids in order, and does not lower a counter. -/
theorem Sequential.of_leads {duty : Duty} {rest : Program Request Request.Answer Unit} (hGaps : ¬ gaps)
    (hLeads : Program.Leads ((handouts gaps).conduct faulty) (duty.program setup)
      (.begin s.scene s.memory) rest t) (h : Sequential s) :
    Sequential t ∧ ∀ f next a u, rest = .ask (.saveCursor f) next →
      (handouts gaps).Hears faulty (.saveCursor f) t a u → ∀ name row now,
        t.scene.store.row? name = some row → u.scene.store.row? name = some now →
          row.nextTaskId ≤ now.nextTaskId := by
  have hBegin : Sequential (.begin s.scene s.memory) := h.begin rfl fun _ => id
  obtain ⟨hSequential, -, hObeys⟩ := Watch.of_leads Sequential Sequential.passes (Sequential.hears hGaps)
    hLeads duty.obeys_program .nil hBegin
  refine ⟨hSequential, ?_⟩
  rintro f next a u rfl hHears name row now hRow hNow
  have hPermits : t.course.Permits setup duty.Restores (.saveCursor f) := hObeys.1
  exact hSequential.raises hPermits hHears hRow hNow

theorem Lives.sequential (hGaps : ¬ gaps) (h : Lives (handouts gaps) faulty [] s) : Sequential s := by
  induction h with
  | empty clock => exact .empty clock
  | renew _ ih => exact ih.begin rfl nofun
  | serve setup duty _ hLeads ih => exact (ih.of_leads hGaps hLeads).1

/-! ### An id without a result -/

/-- Runs at every tenth tick. -/
def steady : Entry :=
  Draft.entryFrom ⟨"steady", "act", some 2, some 1, none, false, some 10, none, none⟩ 1 none "then"

/-- Runs once, at the second of these ticks and before the other one. -/
def flaw : Entry :=
  Draft.entryFrom ⟨"flaw", "act", some 1, some 11, none, false, none, none, none⟩ 11 none "then"

/-- Begun again when the clock has gone on. -/
def later (clock : Tick) (s : Watched (List (String × TaskId))) : Watched (List (String × TaskId)) :=
  .begin { s.scene with clock } s.memory

theorem admits_handouts (s : Watched (List (String × TaskId))) (r : Request) (a : r.Answer) :
    (handouts True).admits s r a := by
  cases r with
  | lastTaskId =>
      cases a with
      | ok last => cases last <;> simp [handouts]
      | error => exact trivial
  | _ => exact trivial

theorem Lives.rehearse (outcome : Task → Outcome) {first : List Deed} {clock : Tick} (duty : Duty)
    (hFirst : ∀ deed ∈ first, ∀ name, deed ≠ .delete name) (hClock : s.scene.clock ≤ clock)
    (h : Lives (handouts True) faulty [] s) : Lives (handouts True) faulty []
      ((handouts True).rehearse outcome (fun _ => []) first (duty.program setup) (later clock s)) := by
  have hAges : s.scene.Elapses faulty { s.scene with clock } := .age ⟨clock, hClock, rfl⟩
  -- nothing has to be done for time to go by
  have hLater : Lives (handouts True) faulty []
      ⟨{ s.scene with clock }, { time := s.scene.clock }, s.memory⟩ :=
    .serve setup (.passes 0) h (.move (.elapse hAges) (.stay _ _))
  have hNone (task : Task) (deed : Deed) (hDeed : deed ∈ ((fun _ => []) : Task → List Deed) task)
      (s : Watched (List (String × TaskId))) : (handouts True).allows s deed := nomatch hDeed
  have hLeads : Program.Leads ((handouts True).conduct faulty) (duty.program setup) (later clock s) _ _ :=
    leads_rehearse admits_handouts outcome hNone (fun deed hDeed _ => hFirst deed hDeed) _ _
  exact .serve setup duty hLater hLeads

/-- After the first tick of the one entry. -/
def firstTick : Watched (List (String × TaskId)) :=
  (handouts True).rehearse (fun _ => .returned none) (fun _ => []) [.insert steady]
    ((Duty.passes 1).program {}) (later 1 (.begin { store := .empty, clock := 0 } []))

/-- After the second tick, at which the other one fails and the pass is cut short. -/
def secondTick : Watched (List (String × TaskId)) :=
  (handouts True).rehearse (fun _ => .failed []) (fun _ => []) [.insert flaw]
    ((Duty.passes 1).program { settings := { maxConsecutiveFailures := some 1 } }) (later 11 firstTick)

/-- After a run at the third tick. -/
def thirdTick : Watched (List (String × TaskId)) :=
  (handouts True).rehearse (fun _ => .returned none) (fun _ => []) [] ((Duty.run 1).program {})
    (later 21 secondTick)

/-- The second id of the one entry is handed out at both of its later ticks. -/
theorem memory_thirdTick : firstTick.scene.clock = 1 ∧ secondTick.scene.clock = 11 ∧
    thirdTick.memory = [("steady", 2), ("steady", 2), ("flaw", 1), ("steady", 1)] := by
  -- merge sort does not compute well, putting tasks in one by one does
  unfold thirdTick secondTick firstTick Watch.rehearse Watch.reply Watch.hearing Duty.program Duty.series
    Run.run Run.untilStopped Pass.runOnce Pass.pass Pass.passOver Course.after
  rw [TaskQueue.ofList_eq]
  decide +kernel

theorem lives_thirdTick (faulty : Prop) : Lives (handouts True) faulty [] thirdTick := by
  obtain ⟨hFirstClock, hSecondClock, -⟩ := memory_thirdTick
  have hFirst : Lives (handouts True) faulty [] firstTick := by
    unfold firstTick
    exact Lives.rehearse _ (.passes 1) (by simp) (by decide) (.empty 0)
  have hSecond : Lives (handouts True) faulty [] secondTick := by
    unfold secondTick
    exact Lives.rehearse _ (.passes 1) (by simp) (by rw [hFirstClock]; decide) hFirst
  unfold thirdTick
  exact Lives.rehearse _ (.run 1) (by simp) (by rw [hSecondClock]; decide) hSecond

/-- Over all schedulers that a store ever has, the ids that an entry hands out increase and its counter is
never lowered, as long as each result that a run goes by is of the latest id handed out. -/
theorem ids_increase_iff (gaps : Prop) :
    (∀ s, Lives (handouts gaps) True [] s →
      (s.memory.Pairwise fun later earlier => later.1 = earlier.1 → earlier.2 < later.2) ∧
      ∀ (setup : LoopSetup) (duty : Duty) (rest : Program Request Request.Answer Unit)
        (t : Watched (List (String × TaskId))),
        Program.Leads ((handouts gaps).conduct True) (duty.program setup) (.begin s.scene s.memory) rest t →
        ∀ f next a u, rest = .ask (.saveCursor f) next →
          (handouts gaps).Hears True (.saveCursor f) t a u → ∀ name row now,
            t.scene.store.row? name = some row → u.scene.store.row? name = some now →
              row.nextTaskId ≤ now.nextTaskId) ↔ ¬ gaps := by
  constructor
  · intro hAll hGap
    obtain rfl : gaps = True := eq_true hGap
    have hOrdered := (hAll thirdTick (lives_thirdTick True)).1
    rw [memory_thirdTick.2.2] at hOrdered
    exact absurd hOrdered (by decide)
  · intro hGaps s hLives
    have hSequential := hLives.sequential hGaps
    exact ⟨hSequential.ordered, fun setup duty rest t hLeads => (hSequential.of_leads hGaps hLeads).2⟩

/-- Even if nothing fails but an action, an id is handed out twice. -/
theorem handed_out_twice : ∃ s, Lives (handouts True) False [] s ∧ s.memory.count ("steady", 2) = 2 :=
  ⟨thirdTick, lives_thirdTick False, by rw [memory_thirdTick.2.2]; decide⟩

end Watch

end TickScheduler
