import TickScheduler.Proofs.Deletion.Remains
/-!
Entries that take the name of a deleted one. A pass knows entries by their names only, and a new entry
counts its tasks from the beginning. So the tasks of a deleted entry and the results that it left pass
for those of its namesake, unless the name is not taken again before the pass is done with it.
-/
namespace TickScheduler

namespace Watched

/-- Nothing that goes on is about an entry of this name, and no results of one are stored. -/
def IsUnused {Memory : Type} (name : String) (s : Watched Memory) : Prop :=
  name ∉ s.course.names ∧ s.Confined fun other _ => other ≠ name

end Watched

namespace Watch

/-- Remembers which entries were deleted since the latest snapshot. If names may not be reused, an entry is
inserted only under a name that is not used any more. -/
def namesakes (reuse : Prop) : Watch (List String) where
  heard
    | _, _, .activeEntries, _ => []
    | vanished, _, _, _ => vanished
  seen
    | vanished, .delete name => name :: vanished
    | vanished, _ => vanished
  allows s
    | .insert e => reuse ∨ s.IsUnused e.name
    | _ => True

/-- Whatever the loop is at work on is what it was in the snapshot, or is gone. -/
structure Apart (s : Watched (List String)) : Prop where
  vanished : ∀ name ∈ s.memory, name ∈ s.course.names → s.scene.store.row? name = none
  held : ∀ e ∈ s.course.held, ∀ row, s.scene.store.row? e.name = some row →
    row.nextTaskId = e.nextTaskId
  ready : ∀ τ ∈ s.course.ready, ∀ id, τ.taskId = some id → s.scene.store.CountsPast τ.entryName id
  confined : s.Confined s.scene.store.CountsPast

variable {reuse faulty : Prop} {s t : Watched (List String)} {setup : LoopSetup}

theorem Apart.begin {scene : Scene} (hJobs : scene.jobs = [])
    (hResults : ∀ name id, scene.store.HasResult name id → scene.store.CountsPast name id) :
    Apart (.begin scene []) where
  vanished _ := nofun
  held _ := nofun
  ready _ hτ := nomatch hτ
  confined :=
    { results := hResults
      jobs := fun job hJob => by simp [Watched.begin, hJobs] at hJob
      current := fun _ _ _ => nofun }

/-- As long as nothing happens to the entries, the loop only gets done with what it is at work on. -/
private theorem Apart.keep (hRow : ∀ name, t.scene.store.row? name = s.scene.store.row? name)
    (hMemory : t.memory = s.memory) (hNames : t.course.names ⊆ s.course.names)
    (hHeld : t.course.held ⊆ s.course.held) (hReady : t.course.ready ⊆ s.course.ready)
    (hConfined : t.Confined s.scene.store.CountsPast) (h : Apart s) : Apart t := by
  have hSame : t.scene.store.CountsPast = s.scene.store.CountsPast := by
    funext name id
    simp only [Store.CountsPast, hRow]
  refine ⟨fun name hGone hName => ?_, fun e hEntry row hFound => ?_, fun τ hτ => ?_, hSame ▸ hConfined⟩
  · exact (hRow name).trans (h.vanished name (hMemory ▸ hGone) (hNames hName))
  · exact h.held e (hHeld hEntry) row ((hRow e.name).symm.trans hFound)
  · exact hSame ▸ h.ready τ (hReady hτ)

/-- Results stay those of ids that were counted: a task whose turn it comes to be was ready before. -/
theorem Apart.confines {r : Request} {a : r.Answer} (hPermits : s.course.Permits setup False r)
    (hHears : (namesakes reuse).Hears faulty r s a t) (h : Apart s) :
    t.Confined s.scene.store.CountsPast :=
  h.confined.hears hPermits hHears fun τ id _ hHead hId _ => h.ready τ (List.mem_of_head? hHead) id hId

/-- A snapshot begins anew. -/
theorem Apart.snapshot {a : Except Error (List Entry)}
    (hPermits : s.course.Permits setup False .activeEntries)
    (hHears : (namesakes reuse).Hears faulty .activeEntries s a t) (h : Apart s) : Apart t := by
  have hConfined := h.confines hPermits hHears
  obtain ⟨-, hAnswer, hCourse, hMemory⟩ := hHears
  obtain ⟨scene, course, memory⟩ := t
  obtain rfl : memory = [] := hMemory
  have hScene : scene = s.scene := hAnswer.2
  subst hScene hCourse
  refine ⟨fun _ => nofun, fun e hEntry row hRow => ?_, fun τ hτ => ?_, hConfined⟩
  · cases a with
    | error fault => cases hEntry
    | ok entries =>
        obtain ⟨-, -, hRows⟩ := Scene.snapshot_answer hAnswer
        obtain ⟨stored, hStored, -, rfl⟩ := hRows e hEntry
        cases hStored.symm.trans hRow
        rfl
  · cases a <;> cases hτ

/-- Saving a cursor only raises the counter of its entry, and past the id of the task that is due. -/
theorem Apart.saves {f : Entry} {a : Except Error Unit}
    (hPermits : s.course.Permits setup False (.saveCursor f)) (hNames : s.course.names.Nodup)
    (hHears : (namesakes reuse).Hears faulty (.saveCursor f) s a t) (h : Apart s) : Apart t := by
  have hTakes : s.course.Takes f := hPermits.resolve_left fun hRestores => hRestores.1
  have hMemory : t.memory = s.memory := hHears.memory_eq
  have hSubset : t.course.names ⊆ s.course.names :=
    hHears.course_eq ▸ Course.names_after_subset (by simp)
  have hConfined := h.confines hPermits hHears
  rcases hHears.saves hTakes with ⟨fault, -, hScene, hCourse⟩ | ⟨e, rest, -, hSaves⟩
  · exact h.keep (by simp [hScene]) hMemory hSubset (by simp [hCourse]) (by simp [hCourse]) hConfined
  have hRaises (name : String) (id : TaskId) (hPast : s.scene.store.CountsPast name id) :
      t.scene.store.CountsPast name id :=
    hPast.mono fun _ => hSaves.raises (h.held e hSaves.mem)
  refine ⟨fun name hGone hName => ?_, fun other hOther row hRow => ?_, fun τ hτ id hId => ?_,
    hConfined.mono hRaises⟩
  · have hNone := h.vanished name (hMemory ▸ hGone) (hSubset hName)
    exact Scene.row?_eq_none_of_answers hHears.answer hNone
  · obtain ⟨hHeld, hSame⟩ := hSaves.other hNames hOther
    exact h.held other hHeld row (hSame.symm.trans hRow)
  · rcases hSaves.mem_ready hτ with hτ | hTaken
    · exact hRaises _ _ (h.ready τ hτ id hId)
    · -- the task has the id that the counter was at
      obtain rfl : e.nextTaskId = id := Option.some.inj (hTaken.taskId_eq.symm.trans hId)
      exact hTaken.entryName_eq ▸ hSaves.countsPast hTaken

theorem Apart.hears {r : Request} {a : r.Answer} (hPermits : s.course.Permits setup False r)
    (hNames : s.course.names.Nodup) (hHears : (namesakes reuse).Hears faulty r s a t) (h : Apart s) :
    Apart t := by
  by_cases hSnapshot : r = .activeEntries
  · subst hSnapshot
    exact h.snapshot hPermits hHears
  by_cases hSave : ∃ f, r = .saveCursor f
  · obtain ⟨f, rfl⟩ := hSave
    exact h.saves hPermits hNames hHears
  have hEntries := Scene.entries_of_answers hHears.answer (not_exists.mp hSave)
  have hMemory : t.memory = s.memory := by
    rw [hHears.memory_eq]
    cases r <;> first | rfl | exact absurd rfl hSnapshot
  refine h.keep (Store.row?_congr hEntries) hMemory ?_ ?_ ?_ (h.confines hPermits hHears) <;>
    rw [hHears.course_eq]
  · exact Course.names_after_subset hSnapshot
  · exact Course.held_after_subset hSnapshot
  · exact Course.ready_after_subset (not_exists.mp hSave)

/-- An entry of an unused name meets nothing that is older. -/
theorem Apart.insert {e : Entry} {store : Store} (hUnused : s.IsUnused e.name)
    (hStore : (Deed.insert e).apply s.scene.store = .ok store) (h : Apart s) :
    Apart ⟨{ s.scene with store }, s.course, s.memory⟩ := by
  obtain ⟨hName, hConfined⟩ := hUnused
  have hGains := Store.gains_of_insertEntry hStore
  have hRow {name : String} (hNe : name ≠ e.name) : store.row? name = s.scene.store.row? name :=
    (hGains.row?_eq name).trans (if_neg hNe)
  have hPast (name : String) (id : TaskId) (hNe : name ≠ e.name)
      (hPast : s.scene.store.CountsPast name id) : store.CountsPast name id :=
    hPast.mono fun now hNow => ⟨now, (hRow hNe).symm.trans hNow, Int64.le_refl _⟩
  have hNe {other : String} (hOther : other ∈ s.course.names) : other ≠ e.name :=
    ne_of_mem_of_not_mem hOther hName
  refine ⟨fun name hGone hMem => ?_, fun other hOther row hFound => ?_, fun τ hτ id hId => ?_, ?_⟩
  · exact (hRow (hNe hMem)).trans (h.vanished name hGone hMem)
  · have hSame := hRow (hNe (Course.mem_names_of_held hOther))
    exact h.held other hOther row (hSame.symm.trans hFound)
  · exact hPast _ _ (hNe (Course.mem_names_of_ready hτ)) (h.ready τ hτ id hId)
  · exact ((hConfined.and h.confined).mono fun name id hBoth => hPast name id hBoth.1 hBoth.2).deed hStore _

/-- Other deeds move no counter. -/
theorem Apart.deed {deed : Deed} {store : Store} (hOther : ∀ e, deed ≠ .insert e)
    (hStore : deed.apply s.scene.store = .ok store) (h : Apart s) :
    Apart ⟨{ s.scene with store }, s.course, (namesakes reuse).seen s.memory deed⟩ := by
  have hOld {name : String} {row : EntryRow} (hRow : store.row? name = some row) :
      ∃ old, s.scene.store.row? name = some old ∧ row.nextTaskId = old.nextTaskId :=
    (Deed.nextTaskId_of_apply hStore hRow).resolve_right fun ⟨e, hInsert, _⟩ => hOther e hInsert
  have hPast (name : String) (id : TaskId) (hPast : s.scene.store.CountsPast name id) :
      store.CountsPast name id := by
    refine hPast.mono fun now hNow => ?_
    obtain ⟨old, hFound, hSame⟩ := hOld hNow
    exact ⟨old, hFound, Int64.le_of_eq hSame.symm⟩
  refine ⟨fun name hGone hMem => ?_, fun e hEntry row hRow => ?_, fun τ hτ id hId => ?_, ?_⟩
  · change store.row? name = none
    cases hRow : store.row? name with
    | none => rfl
    | some row =>
        obtain ⟨old, hFound, -⟩ := hOld hRow
        cases deed with
        | delete gone =>
            rcases List.mem_cons.mp hGone with rfl | hGone
            · have hDrops := Store.drops_of_deleteEntry hStore
              cases hRow.symm.trans ((hDrops.row?_eq _).trans (if_pos rfl))
            · cases (h.vanished name hGone hMem).symm.trans hFound
        | _ => cases (h.vanished name hGone hMem).symm.trans hFound
  · obtain ⟨old, hFound, hSame⟩ := hOld hRow
    exact hSame.trans (h.held e hEntry old hFound)
  · exact hPast _ _ (h.ready τ hτ id hId)
  · exact (h.confined.mono hPast).deed hStore _

theorem Apart.passes (hReuse : ¬ reuse) (hPasses : (namesakes reuse).Passes faulty s t) (h : Apart s) :
    Apart t := by
  cases hPasses with
  | elapse hElapses =>
      exact h.keep (Store.row?_congr hElapses.entries_eq) rfl (List.Subset.refl _) (List.Subset.refl _)
        (List.Subset.refl _) (h.confined.elapses hElapses)
  | @deed deed store hAllowed hStore =>
      by_cases hInsert : ∃ e, deed = .insert e
      · obtain ⟨e, rfl⟩ := hInsert
        exact h.insert (hAllowed.resolve_left hReuse) hStore
      · exact h.deed (not_exists.mp hInsert) hStore

/-- As long as names are not reused, a task runs only for the entry that it was made of. -/
theorem Apart.of_leads {scene : Scene} {count : Nat} {rest : Program Request Request.Answer Unit}
    (hReuse : ¬ reuse) (hJobs : scene.jobs = [])
    (hResults : ∀ name id, scene.store.HasResult name id → scene.store.CountsPast name id)
    (hLeads : Program.Leads ((namesakes reuse).conduct faulty) ((Duty.passes count).program setup)
      (.begin scene []) rest t) :
    Apart t ∧ ∀ name next e u, rest = .ask (.entry name) next →
      (namesakes reuse).Hears faulty (.entry name) t (.ok e) u → name ∉ t.memory := by
  obtain ⟨hApart, -, hObeys⟩ := Watch.of_leads Apart (Apart.passes hReuse) Apart.hears hLeads
    (Duty.obeys_program (.passes count)) .nil (Apart.begin hJobs hResults)
  refine ⟨hApart, ?_⟩
  rintro name next e u rfl hHears hGone
  obtain ⟨⟨τ, others, hReady, rfl, -⟩, -⟩ := hObeys
  obtain ⟨-, row, hRow⟩ := Scene.row_of_found hHears.answer
  have hName : τ.entryName ∈ t.course.names := Course.mem_names_of_ready (by simp [hReady])
  cases (hApart.vanished _ hGone hName).symm.trans hRow

/-! ### An entry in the place of another -/

/-- Runs at the first tick, before the other one. -/
def usurper : Entry :=
  Draft.entryFrom ⟨"usurper", "act", some 1, some 1, none, false, none, none, none⟩ 1 none "then"

def victim : Entry :=
  Draft.entryFrom ⟨"victim", "act", some 2, some 1, none, false, none, none, none⟩ 1 none "then"

/-- A pass over both, of which the first replaces the other by one of the same name. -/
def replacement : Watched (List String) :=
  (namesakes True).rehearse (fun _ => .returned none)
    (fun task => if task.entryName = "usurper" then [.delete "victim", .insert victim] else [])
    [.insert usurper, .insert victim] ((Duty.passes 1).program {})
    (.begin { store := .empty, clock := 1 } [])

theorem leads_replacement (faulty : Prop) : Program.Leads ((namesakes True).conduct faulty)
    ((Duty.passes 1).program {}) (.begin { store := .empty, clock := 1 } []) (.done ()) replacement := by
  have hAllows (deed : Deed) (s : Watched (List String)) : (namesakes True).allows s deed := by
    cases deed <;> simp [namesakes]
  exact leads_rehearse (fun _ _ _ => trivial) _ (fun _ deed _ => hAllows deed)
    (fun deed _ => hAllows deed) _ _

/-- The task of the entry that is gone was run, and its result is one that the new entry has yet to
count to. -/
theorem result_replacement :
    replacement.scene.executed.map Task.entryName = ["usurper", "victim"] ∧
      replacement.scene.jobs.isEmpty = true ∧
      (replacement.scene.store.result? ⟨"victim", 1⟩).isSome = true ∧
      (replacement.scene.store.row? "victim").map EntryRow.nextTaskId = some 1 := by
  -- merge sort does not compute well, putting tasks in one by one does
  unfold replacement Watch.rehearse Watch.reply Watch.hearing Duty.program Duty.series Pass.runOnce
    Pass.pass Pass.passOver Course.after
  rw [TaskQueue.ofList_eq]
  decide +kernel

theorem not_countsPast_replacement : ¬ replacement.scene.store.CountsPast "victim" 1 := by
  intro hPast
  obtain ⟨row, hRow, hCounter⟩ := Option.map_eq_some_iff.mp result_replacement.2.2.2
  exact absurd (hCounter ▸ hPast row hRow) (by decide)

/-- A task runs only for the entry that it was made of, and no entry has a result of an id that it has not
handed out, as long as names are not reused while anything about an entry of that name is left. -/
theorem tasks_of_own_entry_iff (reuse : Prop) :
    (∀ (scene : Scene) (setup : LoopSetup) (count : Nat) (rest : Program Request Request.Answer Unit)
      (t : Watched (List String)), scene.jobs = [] →
      (∀ name id, scene.store.HasResult name id → scene.store.CountsPast name id) →
      Program.Leads ((namesakes reuse).conduct True) ((Duty.passes count).program setup)
        (.begin scene []) rest t →
      (∀ name next e u, rest = .ask (.entry name) next →
        (namesakes reuse).Hears True (.entry name) t (.ok e) u → name ∉ t.memory) ∧
      ∀ name id, t.scene.store.HasResult name id → t.scene.store.CountsPast name id) ↔ ¬ reuse := by
  constructor
  · intro hAll hReuse
    obtain rfl : reuse = True := eq_true hReuse
    obtain ⟨-, -, hResult, -⟩ := result_replacement
    have hNone (name : String) (id : TaskId) (h : Store.empty.HasResult name id) :
        Store.empty.CountsPast name id := by simp [Store.HasResult] at h
    have hPast := (hAll _ _ _ _ _ rfl hNone (leads_replacement True)).2 "victim" 1 hResult
    exact not_countsPast_replacement hPast
  · intro hReuse scene setup count rest t hJobs hResults hLeads
    obtain ⟨hApart, hRuns⟩ := Apart.of_leads hReuse hJobs hResults hLeads
    exact ⟨hRuns, hApart.confined.results⟩

/-- Even if nothing fails and nobody but actions does anything, a task runs for an entry that has just come
in the place of its own. -/
theorem result_of_entry_replaced : ∃ scene t, Program.Leads ((namesakes True).conduct False)
    ((Duty.passes 1).program {}) (.begin scene []) (.done ()) t ∧
      t.scene.executed.map Task.entryName = ["usurper", "victim"] ∧ t.scene.jobs = [] ∧
        t.scene.store.HasResult "victim" 1 ∧ ¬ t.scene.store.CountsPast "victim" 1 := by
  obtain ⟨hExecuted, hJobs, hResult, -⟩ := result_replacement
  exact ⟨_, _, leads_replacement False, hExecuted, List.isEmpty_iff.mp hJobs, hResult,
    not_countsPast_replacement⟩

end Watch

end TickScheduler
