import TickScheduler.Proofs.Engine.Rehearsal
/-!
Cursors that are saved while others edit the entries. A pass saves the cursor of an entry as it was in the
snapshot, without a lock in between. The version of the entry tells whether it has been edited since:
if so, only the counter is saved, and only forward. This is safe if no two versions of an entry are called
the same.
-/
namespace TickScheduler

/-- A cursor is saved with nothing done to the store that anyone else would mind. `edited` says whether the
entry was edited since it was read. -/
structure Store.SavesSafely (s : Store) (f : Entry) (edited : Prop) (t : Store) : Prop where
  other : ∀ name, name ≠ f.name → t.row? name = s.row? name
  results_eq : t.results = s.results
  absent : s.row? f.name = none → t.row? f.name = none
  /-- The configuration stays, and so does the version. -/
  configuration : ∀ row now, s.row? f.name = some row → t.row? f.name = some now →
    now = { row with
      nextTaskTime := now.nextTaskTime
      nextTaskId := now.nextTaskId
      activeFlag := now.activeFlag }
  /-- An entry can only become inactive. -/
  active : ∀ row now, s.row? f.name = some row → t.row? f.name = some now →
    now.activeFlag = row.activeFlag ∨ now.activeFlag = 0
  counter : ∀ row now, s.row? f.name = some row → t.row? f.name = some now →
    row.nextTaskId ≤ now.nextTaskId
  /-- What an edit wrote stays as it is. -/
  edit : edited → ∀ row now, s.row? f.name = some row → t.row? f.name = some now →
    now.nextTaskTime = row.nextTaskTime ∧ now.activeFlag = row.activeFlag

namespace Store.SavesSafely

variable {s t : Store} {f : Entry} {edited : Prop}

theorem refl (s : Store) (f : Entry) (edited : Prop) : s.SavesSafely f edited s := by
  refine ⟨fun _ _ => rfl, rfl, id, ?_, ?_, ?_, fun _ => ?_⟩ <;>
    (intro row now hRow hNow; cases hRow.symm.trans hNow)
  · rfl
  · exact .inl rfl
  · exact Int64.le_refl _
  · exact ⟨rfl, rfl⟩

/-- Every row comes from one whose version is the same and whose counter is not higher. -/
theorem source (h : s.SavesSafely f edited t) {name : String} {now : EntryRow}
    (hNow : t.row? name = some now) :
    ∃ row, s.row? name = some row ∧ row.nextTaskId ≤ now.nextTaskId ∧
      now.modifiedAt = row.modifiedAt ∧
      ((name = f.name → edited) →
        now.nextTaskTime = row.nextTaskTime ∧ now.activeFlag = row.activeFlag) := by
  by_cases hName : name = f.name
  · subst hName
    cases hRow : s.row? f.name with
    | none => cases (h.absent hRow).symm.trans hNow
    | some row =>
        refine ⟨row, rfl, h.counter row now hRow hNow, ?_, fun hEdit => ?_⟩
        · rw [h.configuration row now hRow hNow]
        · exact h.edit (hEdit rfl) row now hRow hNow
  · exact ⟨now, (h.other name hName).symm.trans hNow, Int64.le_refl _, rfl, fun _ => ⟨rfl, rfl⟩⟩

end Store.SavesSafely

/-- What has happened to the entries. -/
structure Ledger where
  /-- Names and versions of the entries that there are or were. -/
  versions : List (String × String)
  /-- What was done since the latest snapshot, the latest first. -/
  since : List Deed := []
  /-- Ids that entries have handed out since they were inserted. -/
  taken : List (String × TaskId) := []

namespace Ledger

/-- Whether the entry was edited since the latest snapshot. -/
def Edited (l : Ledger) (name : String) : Prop :=
  ∃ deed ∈ l.since, deed.name = name

/-- The latest edit of an entry since the latest snapshot. -/
def latest? (l : Ledger) (name : String) : Option Deed :=
  l.since.find? (·.name = name)

theorem edited_of_latest? {l : Ledger} {name : String} {deed : Deed} (h : l.latest? name = some deed) :
    l.Edited name :=
  ⟨deed, List.mem_of_find?_eq_some h, by simpa using List.find?_some h⟩

end Ledger

namespace Watch

/-- Keeps the ledger. Every version of an entry is called as none before. -/
def ledger : Watch Ledger where
  heard
    | l, _, .activeEntries, _ => { l with since := [] }
    | l, φ, .saveCursor _, .ok () => { l with taken := φ.handout.toList ++ l.taken }
    | l, _, _, _ => l
  seen l deed :=
    { versions := deed.stamp?.toList.map (fun stamp => (deed.name, stamp)) ++ l.versions
      since := deed :: l.since
      taken := match deed with
        | .insert e => l.taken.filter (·.1 ≠ e.name)
        | _ => l.taken }
  allows s deed := ∀ stamp, deed.stamp? = some stamp → (deed.name, stamp) ∉ s.memory.versions

/-- The versions tell whether an entry that the loop holds is still the one of the snapshot. -/
structure Versioned (s : Watched Ledger) : Prop where
  stored : ∀ name row, s.scene.store.row? name = some row → (name, row.modifiedAt) ∈ s.memory.versions
  read : ∀ e ∈ s.course.held, (e.name, e.modifiedAt) ∈ s.memory.versions
  held : ∀ e ∈ s.course.held, ∀ row, s.scene.store.row? e.name = some row →
    row.modifiedAt = e.modifiedAt →
      row.nextTaskId = e.nextTaskId ∧ row.activeFlag = 1 ∧ ¬ s.memory.Edited e.name
  latest : ∀ name row deed, s.scene.store.row? name = some row → s.memory.latest? name = some deed →
    deed.Leaves row
  taken : ∀ name id, (name, id) ∈ s.memory.taken → s.scene.store.CountsPast name id

variable {faulty : Prop} {s t : Watched Ledger} {setup : LoopSetup}

theorem Versioned.begin {scene : Scene} {versions : List (String × String)}
    (hVersions : ∀ name row, scene.store.row? name = some row → (name, row.modifiedAt) ∈ versions) :
    Versioned (.begin scene { versions }) where
  stored := hVersions
  read _ := nofun
  held _ := nofun
  latest _ _ _ _ hLatest := by simp [Watched.begin, Ledger.latest?] at hLatest
  taken _ _ hTaken := by simp [Watched.begin] at hTaken

/-- As long as nothing happens to the entries, only what is held matters. -/
theorem Versioned.keep (hRow : ∀ name, t.scene.store.row? name = s.scene.store.row? name)
    (hMemory : t.memory = s.memory) (hHeld : t.course.held ⊆ s.course.held) (h : Versioned s) :
    Versioned t := by
  obtain ⟨scene, course, memory⟩ := t
  obtain rfl : memory = s.memory := hMemory
  refine ⟨fun name row hNow => ?_, fun e hEntry => h.read e (hHeld hEntry), fun e hEntry row hNow => ?_,
    fun name row deed hNow => ?_, fun name id hTaken => ?_⟩
  · exact h.stored name row ((hRow name).symm.trans hNow)
  · exact h.held e (hHeld hEntry) row ((hRow e.name).symm.trans hNow)
  · exact h.latest name row deed ((hRow name).symm.trans hNow)
  · exact (h.taken name id hTaken).mono fun now hNow =>
      ⟨now, (hRow name).symm.trans hNow, Int64.le_refl _⟩

/-- The cursor of an entry that the loop holds is saved safely. -/
theorem Versioned.savesSafely {e f : Entry} {rest : List Entry} (hSaves : s.Saves e rest f t)
    (h : Versioned s) : s.scene.store.SavesSafely f (s.memory.Edited f.name) t.scene.store := by
  obtain ⟨hName, hVersion⟩ :=
    And.intro hSaves.consumes.moves.name_eq hSaves.consumes.moves.modifiedAt_eq
  have hRewrites : s.scene.store.Rewrites f.name (·.withCursor f) t.scene.store :=
    hName ▸ hSaves.rewrites
  have hNow {row now : EntryRow} (hRow : s.scene.store.row? f.name = some row)
      (hNow : t.scene.store.row? f.name = some now) : now = row.withCursor f :=
    Option.some.inj (hNow.symm.trans (hRewrites.found hRow))
  -- a row of the version that was read is as it was read
  have hSame {row : EntryRow} (hRow : s.scene.store.row? f.name = some row)
      (hEqual : row.modifiedAt = f.modifiedAt) :=
    h.held e hSaves.mem row (hName ▸ hRow) (hEqual.trans hVersion)
  refine ⟨fun _ => hRewrites.other, hRewrites.results_eq, fun hNone => ?_, fun row now hRow hFound => ?_,
    fun row now hRow hFound => ?_, fun row now hRow hFound => ?_, fun hEdited row now hRow hFound => ?_⟩
  · rw [hRewrites.same, hNone, Option.map_none]
  all_goals obtain rfl := hNow hRow hFound
  · unfold EntryRow.withCursor
    split <;> rfl
  · by_cases hEqual : row.modifiedAt = f.modifiedAt
    · rw [EntryRow.withCursor, if_pos hEqual, (hSame hRow hEqual).2.1]
      cases f.isActive <;> simp [EntryRow.flag]
    · exact .inl (by rw [EntryRow.withCursor_of_other hEqual])
  · by_cases hEqual : row.modifiedAt = f.modifiedAt
    · have hCounter : row.nextTaskId ≤ f.nextTaskId :=
        (hSame hRow hEqual).1 ▸ hSaves.consumes.le_nextTaskId
      exact Int64.le_trans hCounter (row.le_nextTaskId_withCursor f)
    · exact EntryRow.nextTaskId_le_withCursor hEqual
  · have hNe : row.modifiedAt ≠ f.modifiedAt := fun hEqual =>
      (hSame hRow hEqual).2.2 (hName ▸ hEdited)
    rw [EntryRow.withCursor_of_other hNe]
    exact ⟨rfl, rfl⟩

/-- Saving a cursor is safe, and the id that was taken is noted. -/
theorem Versioned.saves {f : Entry} {a : Except Error Unit} (hTakes : s.course.Takes f)
    (hNames : s.course.names.Nodup) (hHears : ledger.Hears faulty (.saveCursor f) s a t)
    (h : Versioned s) :
    s.scene.store.SavesSafely f (s.memory.Edited f.name) t.scene.store ∧ Versioned t := by
  rcases hHears.saves hTakes with ⟨fault, rfl, hScene, hCourse⟩ | ⟨e, rest, rfl, hSaves⟩
  · exact ⟨hScene ▸ .refl _ _ _, h.keep (by simp [hScene]) hHears.memory_eq (by simp [hCourse])⟩
  have hSafe := h.savesSafely hSaves
  have hMemory : t.memory = { s.memory with
      taken := (s.course.due.map fun _ => (e.name, e.nextTaskId)).toList ++ s.memory.taken } := by
    rw [hHears.memory_eq, ← Course.handout_of_consumes hSaves.counted hSaves.consumes]
    rfl
  obtain ⟨scene, course, memory⟩ := t
  subst hMemory
  refine ⟨hSafe, fun name now hNow => ?_, fun other hOther => ?_, fun other hOther now hNow => ?_,
    fun name now deed hNow hLatest => ?_, fun name id hTaken => ?_⟩
  · obtain ⟨row, hRow, -, hVersion, -⟩ := hSafe.source hNow
    rw [hVersion]
    exact h.stored name row hRow
  · exact h.read other (hSaves.other hNames hOther).1
  · obtain ⟨hHeld, hSame⟩ := hSaves.other hNames hOther
    exact h.held other hHeld now (hSame.symm.trans hNow)
  · obtain ⟨row, hRow, -, hVersion, hKept⟩ := hSafe.source hNow
    obtain ⟨hTime, hFlag⟩ := hKept fun hSame => hSame ▸ Ledger.edited_of_latest? hLatest
    exact (h.latest name row deed hRow hLatest).congr hVersion hTime hFlag
  · rcases List.mem_append.mp hTaken with hNew | hOld
    · obtain ⟨τ, hDue, hPair⟩ := Option.map_eq_some_iff.mp (Option.mem_toList.mp hNew)
      obtain ⟨rfl, rfl⟩ := Prod.mk.inj hPair
      exact hSaves.countsPast (hSaves.consumes.takes τ hDue)
    · refine (h.taken name id hOld).mono fun now hNow => ?_
      obtain ⟨row, hRow, hLe, -⟩ := hSafe.source hNow
      exact ⟨row, hRow, hLe⟩

/-- With a snapshot, nothing has been edited yet. -/
theorem Versioned.snapshot {a : Except Error (List Entry)}
    (hHears : ledger.Hears faulty .activeEntries s a t) (h : Versioned s) : Versioned t := by
  obtain ⟨-, hAnswer, hCourse, hMemory⟩ := hHears
  obtain ⟨scene, course, memory⟩ := t
  obtain rfl : memory = { s.memory with since := [] } := hMemory
  have hScene : scene = s.scene := hAnswer.2
  subst hScene hCourse
  have hRead : ∀ e ∈ (s.course.after .activeEntries a).held, ∃ row,
      s.scene.store.row? e.name = some row ∧ row.activeFlag = 1 ∧ e = row.toEntry := by
    intro e hEntry
    cases a with
    | ok entries => exact (Scene.snapshot_answer hAnswer).2.2 e hEntry
    | error fault => cases hEntry
  refine ⟨h.stored, fun e hEntry => ?_, fun e hEntry row hRow _ => ?_, fun name row deed _ hLatest => ?_,
    h.taken⟩
  · obtain ⟨row, hRow, -, rfl⟩ := hRead e hEntry
    exact h.stored _ row hRow
  · obtain ⟨stored, hStored, hFlag, rfl⟩ := hRead e hEntry
    cases hStored.symm.trans hRow
    exact ⟨rfl, hFlag, fun hEdited => by simp [Ledger.Edited] at hEdited⟩
  · simp [Ledger.latest?] at hLatest

theorem Versioned.hears {r : Request} {a : r.Answer} (hPermits : s.course.Permits setup False r)
    (hNames : s.course.names.Nodup) (hHears : ledger.Hears faulty r s a t) (h : Versioned s) :
    Versioned t := by
  by_cases hSnapshot : r = .activeEntries
  · subst hSnapshot
    exact h.snapshot hHears
  by_cases hSave : ∃ f, r = .saveCursor f
  · obtain ⟨f, rfl⟩ := hSave
    have hTakes : s.course.Takes f := hPermits.resolve_left fun hRestores => hRestores.1
    exact (h.saves hTakes hNames hHears).2
  have hEntries := Scene.entries_of_answers hHears.answer (not_exists.mp hSave)
  have hMemory : t.memory = s.memory := by
    rw [hHears.memory_eq]
    cases r <;> first | rfl | exact absurd rfl hSnapshot | exact absurd ⟨_, rfl⟩ hSave
  refine h.keep (Store.row?_congr hEntries) hMemory ?_
  rw [hHears.course_eq]
  exact Course.held_after_subset hSnapshot

/-- A deed calls the version it makes as none before. -/
theorem Versioned.deed {deed : Deed} {store : Store} (hAllowed : ledger.allows s deed)
    (hStore : deed.apply s.scene.store = .ok store) (h : Versioned s) :
    Versioned ⟨{ s.scene with store }, s.course, ledger.seen s.memory deed⟩ := by
  have hOther {name : String} (hName : name ≠ deed.name) :
      store.row? name = s.scene.store.row? name := Deed.row?_of_ne hStore hName
  refine ⟨fun name row hRow => ?_, fun e hEntry => ?_, fun e hEntry row hRow hVersion => ?_,
    fun name row latest hRow hLatest => ?_, fun name id hTaken => ?_⟩
  · by_cases hName : name = deed.name
    · subst hName
      have hStamp := (Deed.leaves_of_apply hStore hRow).stamp?_eq
      exact List.mem_append_left _ (by simp [hStamp])
    · exact List.mem_append_right _ (h.stored name row ((hOther hName).symm.trans hRow))
  · exact List.mem_append_right _ (h.read e hEntry)
  · by_cases hName : e.name = deed.name
    · -- the version is a new one, but the one that was read is not
      have hStamp := (Deed.leaves_of_apply hStore (hName ▸ hRow)).stamp?_eq
      have hRead := h.read e hEntry
      rw [hName, ← hVersion] at hRead
      exact absurd hRead (hAllowed _ hStamp)
    · obtain ⟨hCounter, hFlag, hKept⟩ := h.held e hEntry row ((hOther hName).symm.trans hRow) hVersion
      refine ⟨hCounter, hFlag, ?_⟩
      rintro ⟨other, hMem, hSame⟩
      rcases List.mem_cons.mp hMem with rfl | hMem
      · exact hName hSame.symm
      · exact hKept ⟨other, hMem, hSame⟩
  · by_cases hName : name = deed.name
    · obtain rfl : deed = latest := by
        simpa [Ledger.latest?, ledger, hName] using hLatest
      exact Deed.leaves_of_apply hStore (hName ▸ hRow)
    · have hOld : s.memory.latest? name = some latest := by
        simpa [Ledger.latest?, ledger, Ne.symm hName] using hLatest
      exact h.latest name row latest ((hOther hName).symm.trans hRow) hOld
  · have hOld : (name, id) ∈ s.memory.taken ∧ ∀ e, deed = .insert e → name ≠ e.name := by
      cases deed with
      | insert e => simpa [ledger] using hTaken
      | _ => exact ⟨hTaken, fun _ => nofun⟩
    refine (h.taken name id hOld.1).mono fun now hNow => ?_
    rcases Deed.nextTaskId_of_apply hStore hNow with ⟨old, hFound, hSame⟩ | ⟨e, hInsert, hName, -⟩
    · exact ⟨old, hFound, Int64.le_of_eq hSame.symm⟩
    · exact absurd hName (hOld.2 e hInsert)

theorem Versioned.passes (hPasses : ledger.Passes faulty s t) (h : Versioned s) : Versioned t := by
  cases hPasses with
  | elapse hElapses =>
      exact h.keep (Store.row?_congr hElapses.entries_eq) rfl (List.Subset.refl _)
  | deed hAllowed hStore => exact h.deed hAllowed hStore

/-- The counter of an entry that is there and is not deleted is not lowered. -/
theorem Versioned.raised_of_leads {name : String} {row : EntryRow}
    {p rest : Program Request Request.Answer Unit}
    (hObeys : p.Obeys (Course.discipline setup False) (fun _ _ => True) s.course)
    (hNames : s.course.names.Nodup) (hRow : s.scene.store.row? name = some row)
    (hLeads : Program.Leads ((ledger.sparing name).conduct faulty) p s rest t) (h : Versioned s) :
    ∃ now, t.scene.store.row? name = some now ∧ row.nextTaskId ≤ now.nextTaskId := by
  let raised (u : Watched Ledger) : Prop :=
    ∃ now, u.scene.store.row? name = some now ∧ row.nextTaskId ≤ now.nextTaskId
  refine (Watch.of_leads (fun u => Versioned u ∧ raised u) ?_ ?_ hLeads hObeys hNames
    ⟨h, row, hRow, Int64.le_refl _⟩).1.2
  · rintro u v hPasses ⟨hVersioned, before, hBefore, hLe⟩
    refine ⟨hVersioned.passes hPasses.of_sparing, ?_⟩
    cases hPasses with
    | elapse hElapses => exact ⟨before, (Store.row?_congr hElapses.entries_eq name).trans hBefore, hLe⟩
    | deed hAllowed hStore =>
        obtain ⟨now, hNow⟩ := Option.isSome_iff_exists.mp
          (Deed.isSome_row? hStore hAllowed.2 (Option.isSome_of_mem hBefore))
        refine ⟨now, hNow, ?_⟩
        rcases Deed.nextTaskId_of_apply hStore hNow with ⟨old, hOld, hSame⟩ | ⟨e, -, -, hNone, -⟩
        · cases hOld.symm.trans hBefore
          exact hSame ▸ hLe
        · cases hNone.symm.trans hBefore
  · rintro r u a v hPermits hNames hHears ⟨hVersioned, before, hBefore, hLe⟩
    refine ⟨hVersioned.hears hPermits hNames hHears.of_sparing, ?_⟩
    have hSome := Scene.isSome_row?_of_answers hHears.answer name
    rw [hBefore] at hSome
    obtain ⟨now, hNow⟩ := Option.isSome_iff_exists.mp hSome
    refine ⟨now, hNow, Int64.le_trans hLe ?_⟩
    by_cases hSave : ∃ f, r = .saveCursor f
    · obtain ⟨f, rfl⟩ := hSave
      have hTakes : u.course.Takes f := hPermits.resolve_left fun hRestores => hRestores.1
      obtain ⟨old, hOld, hRaised, -⟩ :=
        (hVersioned.saves hTakes hNames hHears.of_sparing).1.source hNow
      cases hOld.symm.trans hBefore
      exact hRaised
    · have hSame := Store.row?_congr (Scene.entries_of_answers hHears.answer (not_exists.mp hSave)) name
      cases (hSame.symm.trans hNow).symm.trans hBefore
      exact Int64.le_refl _

/-- Passes save cursors safely, whatever others do to the entries meanwhile. What an edit wrote after the
snapshot is still there, counters are past all ids that were taken, and the counter of an entry is not
lowered until it is deleted. -/
theorem cursors_saved_safely {scene : Scene} {versions : List (String × String)} {count : Nat}
    {rest : Program Request Request.Answer Unit}
    (hVersions : ∀ name row, scene.store.row? name = some row → (name, row.modifiedAt) ∈ versions)
    (hLeads : Program.Leads (ledger.conduct True) ((Duty.passes count).program setup)
      (.begin scene { versions }) rest t) :
    (∀ f next a u, rest = .ask (.saveCursor f) next → ledger.Hears True (.saveCursor f) t a u →
      t.scene.store.SavesSafely f (t.memory.Edited f.name) u.scene.store) ∧
    (∀ name row deed, t.scene.store.row? name = some row → t.memory.latest? name = some deed →
      deed.Leaves row) ∧
    (∀ name id, (name, id) ∈ t.memory.taken → t.scene.store.CountsPast name id) ∧
    ∀ name row later u, t.scene.store.row? name = some row →
      Program.Leads ((ledger.sparing name).conduct True) rest t later u →
        ∃ now, u.scene.store.row? name = some now ∧ row.nextTaskId ≤ now.nextTaskId := by
  obtain ⟨hVersioned, hNames, hObeys⟩ := Watch.of_leads Versioned Versioned.passes Versioned.hears
    hLeads (Duty.obeys_program (.passes count)) .nil (Versioned.begin hVersions)
  refine ⟨?_, hVersioned.latest, hVersioned.taken, fun name row later u hRow hLater => ?_⟩
  · rintro f next a u rfl hHears
    have hSaves : (False ∧ t.course.Restores f) ∨ t.course.Takes f := hObeys.1
    exact (hVersioned.saves (hSaves.resolve_left And.left) hNames hHears).1
  · exact hVersioned.raised_of_leads hObeys hNames hRow hLater

/-! ### A cursor that is saved after an edit -/

/-- The entry whose cursor a program saves next. -/
def saving? : Program Request Request.Answer Unit → Option Entry
  | .ask (.saveCursor f) _ => some f
  | _ => none

theorem eq_ask_of_saving? {p : Program Request Request.Answer Unit} {f : Entry} (h : saving? p = some f) :
    ∃ next, p = .ask (.saveCursor f) next := by
  unfold saving? at h
  split at h
  · obtain rfl := Option.some.inj h
    exact ⟨_, rfl⟩
  · cases h

def reminder : Entry :=
  Draft.entryFrom ⟨"job", "act", none, some 1, none, false, none, none, none⟩ 1 none "first"

/-- A pass that has taken its snapshot. -/
def beforeEdit : Program Request Request.Answer Unit × Watched Ledger :=
  ledger.start (fun _ => .unknown) (fun _ => []) 1 ((Duty.passes 1).program {})
    (ledger.perform (.begin { store := .empty, clock := 1 } { versions := [] }) (.insert reminder))

/-- The entry has been taken out of the schedule, and the pass is about to save its cursor. -/
def afterEdit : Program Request Request.Answer Unit × Watched Ledger :=
  ledger.start (fun _ => .unknown) (fun _ => []) 2 beforeEdit.1
    (ledger.perform beforeEdit.2 (.deactivate "job" "second"))

theorem versions_beforeEdit : beforeEdit.2.memory.versions = [("job", "first")] := by
  decide +kernel

theorem saving?_afterEdit : (saving? afterEdit.1).map Entry.name = some "job" ∧
    (afterEdit.2.memory.latest? "job").isSome = true := by
  decide +kernel

theorem leads_afterEdit (faulty : Prop) : Program.Leads (ledger.conduct faulty)
    ((Duty.passes 1).program {}) (.begin { store := .empty, clock := 1 } { versions := [] })
    afterEdit.1 afterEdit.2 := by
  have hAdmits (s : Watched Ledger) (r : Request) (a : r.Answer) : ledger.admits s r a := trivial
  have hInsert : (ledger.conduct faulty).Drifts (.begin { store := .empty, clock := 1 } { versions := [] })
      (ledger.perform _ (.insert reminder)) := drifts_perform fun _ _ => List.not_mem_nil
  have hEdit : (ledger.conduct faulty).Drifts beforeEdit.2
      (ledger.perform beforeEdit.2 (.deactivate "job" "second")) := by
    refine drifts_perform fun stamp hStamp => ?_
    cases hStamp
    rw [versions_beforeEdit]
    decide
  have hBefore : Program.Leads (ledger.conduct faulty) ((Duty.passes 1).program {}) _ beforeEdit.1 _ :=
    leads_start hAdmits _ (by simp) _ _ _
  have hAfter : Program.Leads (ledger.conduct faulty) beforeEdit.1 _ afterEdit.1 _ :=
    leads_start hAdmits _ (by simp) _ _ _
  exact (Program.Leads.of_drifts hInsert).trans
    (hBefore.trans ((Program.Leads.of_drifts hEdit).trans hAfter))

/-- An entry is taken out of the schedule between the snapshot of a pass and the saving of its cursor. -/
theorem cursor_saved_safely_after_edit : ∃ rest t f next, Program.Leads (ledger.conduct True)
    ((Duty.passes 1).program {}) (.begin { store := .empty, clock := 1 } { versions := [] }) rest t ∧
      rest = .ask (.saveCursor f) next ∧ t.memory.Edited f.name ∧
      ∀ a u, ledger.Hears True (.saveCursor f) t a u →
        t.scene.store.SavesSafely f (t.memory.Edited f.name) u.scene.store := by
  obtain ⟨hSaving, hLatest⟩ := saving?_afterEdit
  obtain ⟨f, hNext, hName⟩ := Option.map_eq_some_iff.mp hSaving
  obtain ⟨next, hRest⟩ := eq_ask_of_saving? hNext
  obtain ⟨deed, hDeed⟩ := Option.isSome_iff_exists.mp hLatest
  have hLeads := leads_afterEdit True
  have hSafe := (cursors_saved_safely (by simp) hLeads).1
  exact ⟨_, _, f, next, hLeads, hRest, hName ▸ Ledger.edited_of_latest? hDeed,
    fun a u => hSafe f next a u hRest⟩

end Watch

end TickScheduler
