import TickScheduler.Proofs.Engine.Confinement
import TickScheduler.Proofs.Engine.Rehearsal
import TickScheduler.Proofs.Entry.WellFormed
/-!
A store that any number of clients and schedulers have in common. Each of them makes one step at a time,
in no particular order: a client may take its time between reading an entry and writing an update of it,
and so may a scheduler between its snapshot and the cursors that it saves. Still all that is stored is
well formed, as long as no two versions of an entry are called the same.
-/
namespace TickScheduler

/-- One version of an entry: what it is called, and when its series starts. -/
structure Version where
  name : String
  stamp : String
  start : Tick
deriving DecidableEq, Repr

def Entry.version (e : Entry) : Version :=
  ⟨e.name, e.modifiedAt, e.start⟩

/-- The entry that a deed brings into the store. -/
def Deed.entry? : Deed → Option Entry
  | insert e | write e => some e
  | deactivate _ _ | delete _ => none

/-- A scheduler at work: what is left of its program, and the scene as it last saw it. -/
structure Scheduler where
  rest : Program Request Request.Answer Unit
  scene : Scene

structure Commons where
  store : Store := .empty
  /-- The versions of entries that there are or were. -/
  versions : List Version := []
  /-- Entries that clients have read in order to update them. -/
  copies : List Entry := []
  schedulers : List Scheduler := []

namespace Commons

/-- After an edit of the entry of this name. -/
def edited (s : Commons) (store : Store) (name : String) : Commons :=
  { s with store, versions := (store.row? name).toList.map (·.toEntry.version) ++ s.versions }

/-- Whether a deed calls the version that it makes as none before. -/
def IsFresh (s : Commons) (deed : Deed) : Prop :=
  ∀ v ∈ s.versions, v.name = deed.name → deed.stamp? ≠ some v.stamp

/-- What clients and actions do to entries. An update is of an entry as it was read, however long ago. -/
def Offers (s : Commons) : Deed → Prop
  | .insert e => ∃ draft now known stamp, Draft.toEntry draft now known stamp = .ok e
  | .write u => ∃ e ∈ s.copies, ∃ updated now stamp,
      Entry.checkTiming updated.start updated.stop updated.interval = .ok () ∧
        e.applyUpdate updated now stamp = .ok u
  | .deactivate _ _ | .delete _ => True

/-- One step of one of them. Any operation may also fail, which changes nothing. -/
inductive Steps : Commons → Commons → Prop where
  /-- A scheduler is started. -/
  | engage {s : Commons} (setup : LoopSetup) (duty : Duty) (clock : Tick) :
      Steps s { s with schedulers := ⟨duty.program setup, { store := s.store, clock }⟩ :: s.schedulers }
  /-- A scheduler has ended, or is lost with all that it had in the background. -/
  | dismiss {s : Commons} {before after : List Scheduler} {d : Scheduler}
      (hAt : s.schedulers = before ++ d :: after) : Steps s { s with schedulers := before ++ after }
  /-- A scheduler has an answer. -/
  | answer {s : Commons} {before after : List Scheduler} {r : Request}
      {next : r.Answer → Program Request Request.Answer Unit} {scene t : Scene} {a : r.Answer}
      (hAt : s.schedulers = before ++ ⟨.ask r next, scene⟩ :: after)
      (hAnswer : Scene.Answers True r { scene with store := s.store } a t) :
      Steps s { s with store := t.store, schedulers := before ++ ⟨next a, t⟩ :: after }
  /-- Something happens to a scheduler: its background works, time goes by or it is asked to stop. -/
  | elapse {s : Commons} {before after : List Scheduler} {d : Scheduler} {t : Scene}
      (hAt : s.schedulers = before ++ d :: after)
      (hElapses : Scene.Elapses True { d.scene with store := s.store } t) :
      Steps s { s with store := t.store, schedulers := before ++ ⟨d.rest, t⟩ :: after }
  /-- A client reads an entry. -/
  | read {s : Commons} {name : String} {e : Entry} (hRead : s.store.getEntry name = .ok e) :
      Steps s { s with copies := e :: s.copies }
  | deed {s : Commons} {deed : Deed} {store : Store} (hOffers : s.Offers deed) (hFresh : s.IsFresh deed)
      (hStore : deed.apply s.store = .ok store) : Steps s (s.edited store deed.name)
  /-- An entry is read, updated and written back at once. -/
  | update {s : Commons} {updated u : Entry} {now : Tick} {stamp : String} {store : Store}
      (hFresh : s.IsFresh (.write u)) (hUpdate : s.store.updateEntry updated now stamp = .ok (u, store)) :
      Steps s (s.edited store u.name)

/-- What can come of an empty store. -/
def Reachable : Commons → Prop :=
  Relation.ReflTransGen Steps {}

end Commons

/-- The entry is well formed, and one of these versions. -/
def Entry.KnownAs (versions : List Version) (e : Entry) : Prop :=
  e.WellFormed ∧ e.version ∈ versions

variable {versions later : List Version} {e f : Entry}

theorem Entry.KnownAs.mono (hSub : versions ⊆ later) (h : e.KnownAs versions) : e.KnownAs later :=
  ⟨h.1, hSub h.2⟩

/-! ### A scheduler -/

/-- All that a scheduler holds was stored once, and its ids are positive. -/
structure Course.Sound (versions : List Version) (φ : Course) : Prop where
  held : ∀ e ∈ φ.held, e.KnownAs versions
  counted : ∀ e last, φ.counted = some (e, last) → e.KnownAs versions ∧ 1 ≤ last
  ready : ∀ τ ∈ φ.ready, ∀ id, τ.taskId = some id → 1 ≤ id

/-- The same of what is stored. Versions differ in what they are called. -/
structure Store.Sound (versions : List Version) (s : Store) : Prop where
  rows : ∀ name row, s.row? name = some row → row.toEntry.KnownAs versions
  results : ∀ name id, s.HasResult name id → 1 ≤ id
  unique : ∀ v ∈ versions, ∀ w ∈ versions, v.name = w.name → v.stamp = w.stamp → v.start = w.start

namespace Course.Sound

variable {φ : Course} {s t : Scene} {r : Request} {a : r.Answer} {setup : LoopSetup} {restoring : Prop}

theorem mono (hSub : versions ⊆ later) (h : φ.Sound versions) : φ.Sound later where
  held e hEntry := (h.held e hEntry).mono hSub
  counted e last hCounted := ⟨(h.counted e last hCounted).1.mono hSub, (h.counted e last hCounted).2⟩
  ready := h.ready

/-- Whatever cursor a scheduler saves is one of a version that was stored. -/
theorem knownAs_of_permits (hPermits : φ.Permits setup restoring (.saveCursor f))
    (h : φ.Sound versions) : f.KnownAs versions := by
  have hSaves : (restoring ∧ φ.Restores f) ∨ φ.Takes f := hPermits
  rcases hSaves with ⟨-, e, last, next, hCounted, hNext, rfl⟩ | ⟨e, rest, -, hHeld, hConsume⟩
  · obtain ⟨⟨hFormed, hVersion⟩, hLast⟩ := h.counted e last hCounted
    exact ⟨hFormed.restore hLast hNext, hVersion⟩
  · obtain ⟨hFormed, hVersion⟩ := h.held e (by simp [hHeld])
    refine ⟨hFormed.consume hConsume, ?_⟩
    obtain ⟨_, _, _, -⟩ := (Entry.consumes_of_consume hConsume).moves
    exact hVersion

theorem one_le_of_due {τ : Task} {id : TaskId} (hTakes : φ.Takes f) (hDue : φ.due = some τ)
    (hId : τ.taskId = some id) (h : φ.Sound versions) : 1 ≤ id := by
  obtain ⟨e, rest, -, hHeld, hConsume⟩ := hTakes
  have hTaken := (Entry.consumes_of_consume hConsume).takes τ hDue
  obtain rfl : e.nextTaskId = id := Option.some.inj (hTaken.taskId_eq.symm.trans hId)
  exact (h.held e (by simp [hHeld])).1.one_le_id

/-- What a scheduler holds after an answer. -/
theorem after (hPermits : φ.Permits setup restoring r) (hAnswer : Scene.Answers True r s a t)
    (hStore : s.store.Sound versions) (h : φ.Sound versions) : (φ.after r a).Sound versions where
  held := by
    by_cases hSnapshot : r = .activeEntries
    · subst hSnapshot
      cases a with
      | error fault => exact fun _ => nofun
      | ok entries =>
          intro e hEntry
          obtain ⟨row, hRow, -, rfl⟩ := (Scene.snapshot_answer hAnswer).2.2 e hEntry
          exact hStore.rows _ row hRow
    · exact fun e hEntry => h.held e (Course.held_after_subset hSnapshot hEntry)
  counted := by
    by_cases hCount : ∃ name, r = .lastTaskId name
    · obtain ⟨name, rfl⟩ := hCount
      obtain ⟨-, e, rest, hHeld, rfl⟩ := hPermits
      cases a with
      | error fault => exact fun _ _ => nofun
      | ok last =>
          intro other newest hCounted
          obtain ⟨rfl, rfl⟩ : other = e ∧ last = some newest := by
            cases last <;> simp_all [Course.after]
          refine ⟨h.held other (by simp [hHeld]), ?_⟩
          rcases hAnswer.1 with hRead | ⟨-, _, hError⟩
          · exact hStore.results _ _ ((Store.lastTaskId_spec hRead.symm).1 newest rfl)
          · cases hError
    · exact fun e last hCounted => h.counted e last (Course.counted_after (not_exists.mp hCount) hCounted)
  ready := by
    by_cases hSave : ∃ f, r = .saveCursor f
    · obtain ⟨f, rfl⟩ := hSave
      have hSaves : (restoring ∧ φ.Restores f) ∨ φ.Takes f := hPermits
      intro τ hτ id hId
      cases a with
      | error fault => cases hτ
      | ok =>
          rw [Course.after] at hτ
          split at hτ
          · exact h.ready τ hτ id hId
          · rename_i hNone
            rcases List.mem_append.mp hτ with hτ | hDue
            · exact h.ready τ hτ id hId
            rcases hSaves with ⟨-, _, _, _, hCounted, -⟩ | hTakes
            · simp [hCounted] at hNone
            · exact h.one_le_of_due hTakes (Option.mem_toList.mp hDue) hId
    · exact fun τ hτ => h.ready τ (Course.ready_after_subset (not_exists.mp hSave) hτ)

end Course.Sound

namespace Store.Sound

variable {s t : Scene} {r : Request} {a : r.Answer} {φ : Course} {setup : LoopSetup} {restoring : Prop}

/-- What a scheduler does to the rows. -/
theorem rows_of_answers (hPermits : φ.Permits setup restoring r) (hAnswer : Scene.Answers True r s a t)
    (hCourse : φ.Sound versions) (h : s.store.Sound versions) :
    ∀ name row, t.store.row? name = some row → row.toEntry.KnownAs versions := by
  by_cases hSave : ∃ f, r = .saveCursor f
  · obtain ⟨f, rfl⟩ := hSave
    rcases Scene.Writes.cases hAnswer with ⟨store, hStore, -, rfl⟩ | ⟨fault, -, rfl⟩
    · intro name now hNow
      rcases (Store.rewrites_of_saveCursor hStore).source hNow with ⟨-, hOld⟩ | ⟨rfl, row, hRow, rfl⟩
      · exact h.rows name now hOld
      obtain ⟨hFormed, hVersion⟩ := h.rows f.name row hRow
      obtain ⟨hEntry, hKnown⟩ := hCourse.knownAs_of_permits hPermits
      -- the cursor is taken over by its own version only, and that starts where the cursor's series starts
      refine ⟨EntryRow.wellFormed_withCursor (fun hStamp => ?_) hEntry hFormed, ?_⟩
      · exact h.unique _ hVersion _ hKnown (Store.name_of_row? hRow) hStamp
      · unfold EntryRow.withCursor
        split <;> exact hVersion
    · exact h.rows
  · intro name row hRow
    exact h.rows name row ((Store.row?_congr (Scene.entries_of_answers hAnswer (not_exists.mp hSave))
      name).symm.trans hRow)

end Store.Sound

/-- Nothing in particular is watched for. -/
def Watch.idle : Watch Unit where
  heard _ _ _ _ := ()
  seen _ _ := ()

namespace Scheduler

/-- A scheduler has come to `φ` in its course, and everything there is in order. -/
structure SoundAt (versions : List Version) (store : Store) (φ : Course) (d : Scheduler) : Prop where
  obeys : ∃ setup restoring, d.rest.Obeys (Course.discipline setup restoring) (fun _ _ => True) φ
  course : φ.Sound versions
  confined : Watched.Confined (fun _ id => 1 ≤ id) (⟨{ d.scene with store }, φ, ()⟩ : Watched Unit)

def Sound (versions : List Version) (store : Store) (d : Scheduler) : Prop :=
  ∃ φ, d.SoundAt versions store φ

variable {d : Scheduler} {store now : Store} {scene t : Scene} {r : Request} {a : r.Answer}
  {next : r.Answer → Program Request Request.Answer Unit}

/-- What others do does not concern a scheduler, as long as no result of theirs is out of order. -/
theorem Sound.frame (hSub : versions ⊆ later) (hResults : ∀ name id, now.HasResult name id → 1 ≤ id)
    (h : d.Sound versions store) : d.Sound later now := by
  obtain ⟨φ, h⟩ := h
  exact ⟨φ, h.obeys, h.course.mono hSub, ⟨hResults, h.confined.jobs, h.confined.current⟩⟩

theorem sound_engage {clock : Tick} (setup : LoopSetup) (duty : Duty) (hStore : store.Sound versions) :
    Sound versions store ⟨duty.program setup, { store, clock }⟩ := by
  refine ⟨{ time := clock }, ⟨setup, duty.Restores, duty.obeys_program⟩, ?_, ?_⟩
  · exact ⟨fun _ => nofun, fun _ _ => nofun, fun _ hτ => nomatch hτ⟩
  · exact ⟨hStore.results, fun _ => nofun, fun _ _ _ => nofun⟩

/-- An answer leaves the scheduler and what is stored in order. -/
theorem Sound.answer (hAnswer : Scene.Answers True r { scene with store } a t)
    (hStore : store.Sound versions) (h : Sound versions store ⟨.ask r next, scene⟩) :
    Sound versions t.store ⟨next a, t⟩ ∧ t.store.Sound versions := by
  obtain ⟨φ, ⟨setup, restoring, hObeys⟩, hCourse, hConfined⟩ := h
  obtain ⟨hPermits, hNext⟩ : φ.Permits setup restoring r ∧ _ := hObeys
  have hHears : Watch.idle.Hears True r ⟨{ scene with store }, φ, ()⟩ a ⟨t, φ.after r a, ()⟩ :=
    ⟨trivial, hAnswer, rfl, rfl⟩
  have hStill : Watched.Confined (fun _ id => 1 ≤ id) (⟨t, φ.after r a, ()⟩ : Watched Unit) :=
    hConfined.hears hPermits hHears fun τ id _ hHead hId _ =>
      hCourse.ready τ (List.mem_of_head? hHead) id hId
  refine ⟨⟨φ.after r a, ⟨setup, restoring, ?_⟩, hCourse.after hPermits hAnswer hStore, hStill⟩, ?_⟩
  · exact hNext a (Scene.sensible_of_answers hAnswer)
  · exact ⟨hStore.rows_of_answers hPermits hAnswer hCourse, hStill.results, hStore.unique⟩

theorem Sound.elapse (hElapses : Scene.Elapses True { d.scene with store } t)
    (hStore : store.Sound versions) (h : d.Sound versions store) :
    Sound versions t.store ⟨d.rest, t⟩ ∧ t.store.Sound versions := by
  obtain ⟨φ, hObeys, hCourse, hConfined⟩ := h
  have hStill := hConfined.elapses hElapses
  refine ⟨⟨φ, hObeys, hCourse, hStill⟩, fun name row hRow => ?_, hStill.results, hStore.unique⟩
  exact hStore.rows name row ((Store.row?_congr hElapses.entries_eq name).symm.trans hRow)

end Scheduler

/-! ### Everyone together -/

namespace Commons

variable {s t : Commons} {deed : Deed} {store : Store}

structure Sound (s : Commons) : Prop where
  store : s.store.Sound s.versions
  copies : ∀ e ∈ s.copies, e.WellFormed
  schedulers : ∀ d ∈ s.schedulers, d.Sound s.versions s.store

/-- What is read from the store is well formed. -/
theorem Sound.wellFormed_of_getEntry {name : String} (hRead : s.store.getEntry name = .ok e) (h : s.Sound) :
    e.WellFormed := by
  obtain ⟨row, hRow, hEntry⟩ := Store.getEntry_eq_ok_iff.mp hRead
  obtain ⟨-, rfl⟩ := EntryRow.read_eq_ok_iff.mp hEntry
  exact (h.store.rows name row hRow).1

/-- A scheduler takes the place of one that it comes from. -/
theorem Sound.replace {before after : List Scheduler} {d next : Scheduler}
    (hAt : s.schedulers = before ++ d :: after)
    (hNext : next.Sound s.versions store ∧ store.Sound s.versions) (h : s.Sound) :
    Sound { s with store, schedulers := before ++ next :: after } := by
  have hOthers : ∀ other ∈ s.schedulers, other.Sound s.versions store := fun other hOther =>
    (h.schedulers other hOther).frame (List.Subset.refl _) hNext.2.results
  rw [hAt] at hOthers
  refine ⟨hNext.2, h.copies, fun other hOther => ?_⟩
  rcases List.mem_append.mp hOther with hOther | hOther
  · exact hOthers other (List.mem_append_left _ hOther)
  rcases List.mem_cons.mp hOther with rfl | hOther
  · exact hNext.1
  · exact hOthers other (List.mem_append_right _ (List.mem_cons_of_mem _ hOther))

/-- The row that a deed leaves. -/
theorem Sound.wellFormed_of_apply {row : EntryRow} (hEntry : ∀ e, deed.entry? = some e → e.WellFormed)
    (hStore : deed.apply s.store = .ok store) (hRow : store.row? deed.name = some row) (h : s.Sound) :
    row.toEntry.WellFormed := by
  have hOld {name : String} {old : EntryRow} (hOld : s.store.row? name = some old) :
      old.toEntry.WellFormed := (h.store.rows name old hOld).1
  cases deed with
  | insert e =>
      have hNew := ((Store.gains_of_insertEntry hStore).row?_eq e.name).trans (if_pos rfl)
      cases hRow.symm.trans hNew
      exact EntryRow.wellFormed_ofEntry (hEntry e rfl)
  | write u =>
      obtain ⟨old, hBefore, rfl⟩ :=
        Option.map_eq_some_iff.mp ((Store.rewrites_of_writeUpdate hStore).same.symm.trans hRow)
      exact EntryRow.wellFormed_withUpdate (hEntry u rfl) (hOld hBefore)
  | deactivate name stamp =>
      obtain ⟨old, hBefore, rfl⟩ :=
        Option.map_eq_some_iff.mp ((Store.rewrites_of_deactivate hStore).same.symm.trans hRow)
      exact EntryRow.wellFormed_deactivated stamp (hOld hBefore)
  | delete name =>
      have hNone := ((Store.drops_of_deleteEntry hStore).row?_eq name).trans (if_pos rfl)
      cases hNone.symm.trans hRow

/-- A version that is called as none before does not get in the way of others. -/
theorem Sound.unique_edited (hFresh : s.IsFresh deed) (hStore : deed.apply s.store = .ok store)
    (h : s.Sound) : ∀ v ∈ (s.edited store deed.name).versions, ∀ w ∈ (s.edited store deed.name).versions,
      v.name = w.name → v.stamp = w.stamp → v.start = w.start := by
  have hNew {v : Version} (hv : v ∈ (store.row? deed.name).toList.map (·.toEntry.version)) :
      ∃ row, store.row? deed.name = some row ∧ v = row.toEntry.version := by
    obtain ⟨row, hRow, rfl⟩ := List.mem_map.mp hv
    exact ⟨row, Option.mem_toList.mp hRow, rfl⟩
  have hApart {v w : Version} (hv : v ∈ (store.row? deed.name).toList.map (·.toEntry.version))
      (hw : w ∈ s.versions) (hName : v.name = w.name) : v.stamp ≠ w.stamp := by
    obtain ⟨row, hRow, rfl⟩ := hNew hv
    have hStamp := (Deed.leaves_of_apply hStore hRow).stamp?_eq
    have hSame : row.name = deed.name := Store.name_of_row? hRow
    exact fun hEqual => hFresh w hw (hName.symm.trans hSame) (hStamp.trans (congrArg some hEqual))
  intro v hv w hw hName hStamp
  rcases List.mem_append.mp hv with hv | hv <;> rcases List.mem_append.mp hw with hw | hw
  · obtain ⟨row, hRow, rfl⟩ := hNew hv
    obtain ⟨other, hOther, rfl⟩ := hNew hw
    cases hRow.symm.trans hOther
    rfl
  · exact absurd hStamp (hApart hv hw hName)
  · exact absurd hStamp.symm (hApart hw hv hName.symm)
  · exact h.store.unique v hv w hw hName hStamp

/-- An edit leaves everything in order if what it brings in is well formed. -/
theorem Sound.edited (hEntry : ∀ e, deed.entry? = some e → e.WellFormed) (hFresh : s.IsFresh deed)
    (hStore : deed.apply s.store = .ok store) (h : s.Sound) : (s.edited store deed.name).Sound := by
  have hSub : s.versions ⊆ (s.edited store deed.name).versions := List.subset_append_right _ _
  have hResults (name : String) (id : TaskId) (hResult : store.HasResult name id) : 1 ≤ id :=
    h.store.results name id (Deed.hasResult_of_apply hStore hResult)
  refine ⟨⟨fun name row hRow => ?_, hResults, h.unique_edited hFresh hStore⟩, h.copies,
    fun d hScheduler => (h.schedulers d hScheduler).frame hSub hResults⟩
  by_cases hName : name = deed.name
  · subst hName
    refine ⟨h.wellFormed_of_apply hEntry hStore hRow, List.mem_append_left _ ?_⟩
    exact List.mem_map_of_mem (f := fun row : EntryRow => row.toEntry.version) (Option.mem_toList.mpr hRow)
  · exact (h.store.rows name row ((Deed.row?_of_ne hStore hName).symm.trans hRow)).mono hSub

theorem Sound.offers (hOffers : s.Offers deed) (h : s.Sound) :
    ∀ e, deed.entry? = some e → e.WellFormed := by
  intro e hEntry
  cases deed with
  | insert f =>
      obtain rfl := Option.some.inj hEntry
      obtain ⟨draft, now, known, stamp, hDraft⟩ := hOffers
      exact Draft.wellFormed_of_toEntry hDraft
  | write u =>
      obtain rfl := Option.some.inj hEntry
      obtain ⟨old, hCopy, updated, now, stamp, hTiming, hUpdate⟩ := hOffers
      exact (h.copies old hCopy).update hTiming hUpdate
  | deactivate | delete => cases hEntry

theorem Sound.step (hStep : Steps s t) (h : s.Sound) : t.Sound := by
  cases hStep with
  | engage setup duty clock =>
      refine ⟨h.store, h.copies, List.forall_mem_cons.mpr ⟨?_, h.schedulers⟩⟩
      exact Scheduler.sound_engage setup duty h.store
  | dismiss hAt =>
      have hKept := h.schedulers
      rw [hAt] at hKept
      refine ⟨h.store, h.copies, fun d hScheduler => hKept d ?_⟩
      exact (List.mem_append.mp hScheduler).elim (List.mem_append_left _)
        fun hAfter => List.mem_append_right _ (List.mem_cons_of_mem _ hAfter)
  | answer hAt hAnswer => exact h.replace hAt ((h.schedulers _ (by simp [hAt])).answer hAnswer h.store)
  | elapse hAt hElapses => exact h.replace hAt ((h.schedulers _ (by simp [hAt])).elapse hElapses h.store)
  | read hRead =>
      exact ⟨h.store, List.forall_mem_cons.mpr ⟨h.wellFormed_of_getEntry hRead, h.copies⟩, h.schedulers⟩
  | deed hOffers hFresh hStore => exact h.edited (h.offers hOffers) hFresh hStore
  | @update _ u _ _ _ hFresh hUpdate =>
      obtain ⟨hTiming, e, hRead, hApply, hWrite⟩ := Store.updateEntry_eq_ok_iff.mp hUpdate
      have hUpdated : ∀ e, Deed.entry? (.write u) = some e → e.WellFormed := by
        rintro _ ⟨⟩
        exact (h.wellFormed_of_getEntry hRead).update hTiming hApply
      exact h.edited hUpdated hFresh hWrite

theorem sound_of_reachable (h : s.Reachable) : s.Sound := by
  induction h with
  | refl =>
      refine ⟨⟨fun _ _ => nofun, fun name id hResult => ?_, fun _ => nofun⟩, fun _ => nofun, fun _ => nofun⟩
      simp [Store.HasResult] at hResult
  | tail _ hStep ih => exact ih.step hStep

/-- Whatever clients and schedulers do to a store, every entry that is stored is well formed. -/
theorem wellFormed_of_reachable {name : String} {row : EntryRow} (h : s.Reachable)
    (hRow : s.store.row? name = some row) : row.toEntry.WellFormed :=
  ((sound_of_reachable h).store.rows name row hRow).1

/-! ### An update that comes late -/

/-- What a scheduler can come to on its own it can come to here, if all others wait for it. -/
theorem reachable_of_leads {p q : Program Request Request.Answer Unit} {scene after : Scene}
    {others : List Scheduler} (hLeads : Program.Leads Scene.quiet p scene q after)
    (hAt : s.schedulers = ⟨p, scene⟩ :: others) (hStore : scene.store = s.store) (h : s.Reachable) :
    Reachable { s with store := after.store, schedulers := ⟨q, after⟩ :: others } := by
  induction hLeads generalizing s with
  | stay p scene =>
      obtain ⟨store, versions, copies, schedulers⟩ := s
      obtain rfl : scene.store = store := hStore
      obtain rfl : schedulers = _ := hAt
      exact h
  | @move p _ scene t _ hMove _ ih =>
      have hFirst : s.schedulers = [] ++ ⟨p, scene⟩ :: others := hAt
      have hElapses : Scene.Elapses True { scene with store := s.store } t := by
        rw [← hStore]
        exact .work (hMove.mono False.elim)
      exact ih (s := { s with store := t.store, schedulers := ⟨p, t⟩ :: others }) rfl rfl
        (h.tail (.elapse hFirst hElapses))
  | @answer r next _ scene t _ a hAnswer _ ih =>
      have hFirst : s.schedulers = [] ++ ⟨.ask r next, scene⟩ :: others := hAt
      have hAnswers : Scene.Answers True r { scene with store := s.store } a t := by
        rw [← hStore]
        exact hAnswer.mono False.elim
      exact ih (s := { s with store := t.store, schedulers := ⟨next a, t⟩ :: others }) rfl rfl
        (h.tail (.answer hFirst hAnswers))

/-- Runs at every tenth tick. -/
def steady : Entry :=
  Draft.entryFrom ⟨"steady", "act", none, some 1, none, false, some 10, none, none⟩ 1 none "first"

/-- The entry in an empty store. -/
def stocked : Store :=
  { Store.empty with entries := some (Table.empty.put (.ofEntry steady)) }

/-- A pass over it. -/
def afterPass : Scene :=
  (((Duty.passes 1).program {}).run (Scene.reply fun _ => .unknown) { store := stocked, clock := 1 }).2

/-- After the pass, a client still has the entry as it was before. -/
def overtaken : Commons :=
  { edited {} stocked "steady" with
    store := afterPass.store
    copies := [steady]
    schedulers := [⟨.done (), afterPass⟩] }

/-- An update, made of the entry as it was before the pass, that lets its series start later. -/
def postponed : Entry :=
  { steady with start := 30, nextTaskTime := 30, modifiedAt := "second" }

theorem nextTaskId_afterPass :
    (afterPass.store.row? "steady").map EntryRow.nextTaskId = some 2 := by
  unfold afterPass Duty.program Duty.series Pass.runOnce Pass.pass Pass.passOver
  rw [TaskQueue.ofList_eq]
  decide +kernel

/-- A client reads an entry and writes its update after a whole pass. -/
theorem wellFormed_of_postponed : ∃ s row, Reachable s ∧ s.store.row? "steady" = some row ∧
    row.start = 30 ∧ row.nextTaskTime = 30 ∧ row.nextTaskId = 2 ∧ row.toEntry.WellFormed := by
  -- the entry is inserted and read, then a scheduler makes its pass
  have hOffered : Offers {} (.insert steady) :=
    ⟨⟨"steady", "act", none, some 1, none, false, some 10, none, none⟩, 1, fun _ => true, "first", rfl⟩
  have hInsert : (Deed.insert steady).apply Store.empty = .ok stocked := rfl
  have hInserted : Reachable (edited {} stocked "steady") := .single (.deed hOffered (fun _ => nofun) hInsert)
  have hEntry : (edited {} stocked "steady").store.getEntry "steady" = .ok steady := rfl
  have hEngaged := (hInserted.tail (.read hEntry)).tail (.engage {} (.passes 1) 1)
  have hPassed : Reachable overtaken :=
    reachable_of_leads (Scene.leads_run (fun _ => .unknown) _ _) rfl rfl hEngaged
  -- only then is the update written
  obtain ⟨old, hOld, hCounter⟩ := Option.map_eq_some_iff.mp nextTaskId_afterPass
  obtain ⟨table, hTable, -⟩ := Option.bind_eq_some_iff.mp hOld
  obtain ⟨store, hWrite, -⟩ := Store.exists_writeUpdate (Option.isSome_of_mem hTable) postponed
  have hRow := (Store.rewrites_of_writeUpdate hWrite).found hOld
  have hUpdate : overtaken.Offers (.write postponed) :=
    ⟨steady, List.mem_singleton_self _, { steady with start := 30 }, 1, "second", rfl, rfl⟩
  have hFresh : overtaken.IsFresh (.write postponed) := by
    unfold IsFresh overtaken
    decide
  have hWritten := hPassed.tail (.deed hUpdate hFresh hWrite)
  exact ⟨_, _, hWritten, hRow, rfl, rfl, hCounter, wellFormed_of_reachable hWritten hRow⟩

end Commons

end TickScheduler
