import TickScheduler.Proofs.Engine.QuietPass
import TickScheduler.Proofs.Entry.Series
import TickScheduler.Proofs.Once.Ticks
/-!
Clients that edit entries while the loop is at work. An edit reads an entry and writes it later; so does
the loop with every entry, whose cursor it stores some time after the snapshot. Each of the two can get
between the reading and the writing of the other. As long as neither does, no tick runs twice; either
is enough for a tick to run twice.
-/
namespace TickScheduler

namespace Entry

/-- The entry with another configuration, as far as that does not concern its cursor. -/
def edited (e updated : Entry) (stamp : String) : Entry :=
  { e with
    action := updated.action
    priority := updated.priority
    stop := updated.stop
    callbackUrl := updated.callbackUrl
    owner := updated.owner
    modifiedAt := stamp }

/-- An update that keeps the timing and the state of an entry keeps its cursor. -/
theorem applyUpdate_eq_edited {e updated : Entry} {now : Tick} {stamp : String}
    (hStart : updated.start = e.start) (hInterval : updated.interval = e.interval)
    (hActive : updated.isActive = e.isActive) :
    e.applyUpdate updated now stamp = .ok (e.edited updated stamp) := by
  unfold applyUpdate updatedTaskTime edited
  rw [if_pos ⟨hStart, hInterval⟩, hStart, hInterval, hActive]
  rfl

end Entry

namespace Scene

/-- Which operations may get between a reading and a writing. -/
structure Overlaps where
  /-- A cursor may be saved over another version than it was read from. -/
  late : Prop
  /-- An update may be written over another cursor than it was made of. -/
  stale : Prop

/-- Whether an update leaves the stored cursor as it is. -/
def OnCursor (u : Entry) (s : Scene) : Prop :=
  ∀ row, s.store.row? u.name = some row → u.isActive = true →
    row.activeFlag = 1 ∧ row.nextTaskTime = u.nextTaskTime

/-- Whether no version of any entry had this stamp, from the first store on. -/
def IsFreshStamp (first : Store) (s : Scene) (stamp : String) : Prop :=
  (∀ name row, first.row? name = some row → row.modifiedAt ≠ stamp) ∧
    ∀ u, .edited u ∈ s.journal → u.modifiedAt ≠ stamp

/-- The two halves of `Store.updateEntry`, for updates that keep start, interval and state. -/
inductive Edits (first : Store) (overlaps : Overlaps) : Scene → Scene → Prop where
  | read {s : Scene} {e updated u : Entry} {stamp : String}
      (hTiming : Entry.checkTiming updated.start updated.stop updated.interval = .ok ())
      (hRead : s.store.getEntry updated.name = .ok e)
      (hStart : updated.start = e.start) (hInterval : updated.interval = e.interval)
      (hActive : updated.isActive = e.isActive)
      (hUpdate : e.applyUpdate updated s.clock stamp = .ok u) (hStamp : IsFreshStamp first s stamp) :
      Edits first overlaps s ({ s with copies := u :: s.copies }.note (.edited u))
  | write {s : Scene} {u : Entry} {store : Store} (hCopy : u ∈ s.copies)
      (hStore : s.store.writeUpdate u = .ok store) (hOrder : overlaps.stale ∨ OnCursor u s) :
      Edits first overlaps s { s with store, copies := s.copies.erase u }

/-- Whether a cursor that is saved was read from the stored version, unless late ones are allowed. -/
def OnTime (overlaps : Overlaps) (s : Scene) : (r : Request) → r.Answer → Prop
  | .saveCursor e, a => a = .ok () → overlaps.late ∨ OnVersion e s
  | _, _ => True

/-- Clients edit entries, and time goes by. If the scene is faulty, operations of the store may fail. -/
def racing (faulty : Prop) (first : Store) (overlaps : Overlaps) :
    Conduct Request Request.Answer Scene where
  answers r s a t := Answers faulty r s a t ∧ OnTime overlaps s r a
  moves s t := Works faulty s t ∨ Ages s t ∨ Edits first overlaps s t

variable {faulty : Prop} {first store : Store} {overlaps : Overlaps} {s t : Scene}

theorem racing_of_answers {r : Request} {a : r.Answer} (h : Answers False r s a t)
    (hSave : ∀ e, r = .saveCursor e → overlaps.late ∨ OnVersion e s) :
    (racing faulty first overlaps).answers r s a t := by
  refine ⟨h.mono False.elim, ?_⟩
  cases r with
  | saveCursor e => exact fun _ => hSave e rfl
  | _ => trivial

/-! ### Without overlaps -/

theorem Edits.calm (hStale : ¬ overlaps.stale) (h : Edits first overlaps s t) : Calm False s t := by
  cases h with
  | @read _ _ u _ hTiming hRead hStart hInterval hActive hUpdate hStamp =>
      exact .of_entries rfl ((executed_note _ (.edited u)).trans (List.append_nil _))
  | @write u store hCopy hStore hOrder =>
      have hRewrites := Store.rewrites_of_writeUpdate hStore
      refine ⟨rfl, fun name hStored => by rwa [hRewrites.isSome_row?], fun name row hRow hFlag => ?_⟩
      rcases hRewrites.source hRow with ⟨-, hRow⟩ | ⟨rfl, old, hOld, rfl⟩
      · exact .inr ⟨row, hRow, hFlag, rfl, nofun⟩
      · have hActive : u.isActive = true := by
          cases hActive : u.isActive with
          | true => rfl
          | false => simp [EntryRow.withUpdate, EntryRow.flag, hActive] at hFlag
        obtain ⟨hOldFlag, hTime⟩ := (hOrder.resolve_left hStale) old hOld hActive
        exact .inr ⟨old, hOld, hOldFlag, hTime.symm, nofun⟩

/-- Where neither overlap occurs, no cursor is lost. -/
theorem racing_calms (hLate : ¬ overlaps.late) (hStale : ¬ overlaps.stale) :
    Calms False (racing faulty first overlaps) where
  answers h := h.1.mono fun _ => trivial
  moves h := by
    rcases h with hWorks | ⟨clock, -, rfl⟩ | hEdits
    · obtain ⟨hEntries, hExecuted⟩ := entries_of_works hWorks
      exact .of_entries hEntries hExecuted
    · exact .of_entries rfl rfl
    · exact hEdits.calm hStale
  saves := by
    refine .inr fun e s t hAnswer row hRow hFlag => ?_
    obtain ⟨hAnswer, hOrder⟩ := hAnswer
    rcases Writes.cases hAnswer with ⟨store, hStore, -, rfl⟩ | ⟨fault, hError, -⟩
    · have hRewrites := Store.rewrites_of_saveCursor hStore
      obtain ⟨old, hOld, rfl⟩ := Option.map_eq_some_iff.mp (hRewrites.same.symm.trans hRow)
      rcases EntryRow.active_withCursor hFlag with ⟨-, hActive, hTime⟩ | ⟨hOther, -⟩
      · exact ⟨hActive, hTime⟩
      · exact absurd ((hOrder rfl).resolve_left hLate old hOld) hOther
    · cases hError

/-! ### A tick that runs twice -/

/-- Quiet surroundings in which all time is over once a late cursor is to be saved. -/
def careful : Conduct Request Request.Answer Scene where
  answers r s a t := (Answers False r s a t ∧ ∀ e, r = .saveCursor e → OnVersion e s) ∨
    ∃ e, r = .saveCursor e ∧ ¬ OnVersion e s ∧ t = { s with clock := Int64.maxValue }
  moves := Works False

theorem careful_quietens : Quietens True careful where
  answers := by
    rintro r s a t hVersion (⟨h, -⟩ | ⟨e, hSave, hOther, -⟩)
    · exact h
    · exact absurd (hVersion trivial e hSave) hOther
  moves h := h

theorem careful_responsive : careful.Responsive := by
  intro r s
  obtain ⟨t, a, u, hDrift, hAnswer⟩ := quiet_responsive r s
  by_cases hVersion : ∀ e, r = .saveCursor e → OnVersion e t
  · exact ⟨t, a, u, hDrift, .inl ⟨hAnswer, hVersion⟩⟩
  · obtain ⟨e, hVersion⟩ := Classical.not_forall.mp hVersion
    obtain ⟨hSave, hOther⟩ := Classical.not_imp.mp hVersion
    exact ⟨t, a, _, hDrift, .inr ⟨e, hSave, hOther, rfl⟩⟩

/-- Clients keep their copies, and time that is over stays over. -/
theorem frame_of_careful {Result : Type} {p q : Program Request Request.Answer Result}
    (hLeads : Program.Leads careful p s q t) :
    t.copies = s.copies ∧ (s.clock = Int64.maxValue → t.clock = Int64.maxValue) := by
  refine hLeads.keeps
    (P := fun u => u.copies = s.copies ∧ (s.clock = Int64.maxValue → u.clock = Int64.maxValue))
    (fun r u a v hAnswer h => ?_) (fun u v hMove h => ?_) ⟨rfl, id⟩
  · rcases hAnswer with ⟨hAnswer, -⟩ | ⟨-, -, -, rfl⟩
    · obtain ⟨_, _, _, _, rfl⟩ := frame_of_answers hAnswer
      exact h
    · exact ⟨h.1, fun _ => rfl⟩
  · obtain ⟨_, _, _, _, rfl⟩ := frame_of_works hMove
    exact h

/-- While there is still time, nothing late was saved. -/
theorem leads_of_careful {Result : Type} {p q : Program Request Request.Answer Result}
    (hLeads : Program.Leads careful p s q t) (hTime : t.clock < Int64.maxValue) :
    Program.Leads (racing faulty first overlaps) p s q t := by
  induction hLeads with
  | stay => exact .stay _ _
  | move hMove _ ih => exact .move (.inl (hMove.mono False.elim)) (ih hTime)
  | @answer r next q s u t a hAnswer hRest ih =>
      refine .answer ?_ (ih hTime)
      rcases hAnswer with ⟨hAnswer, hVersion⟩ | ⟨-, -, -, rfl⟩
      · exact racing_of_answers hAnswer fun e hSave => .inr (hVersion e hSave)
      · rw [(frame_of_careful hRest).2 rfl] at hTime
        exact absurd hTime Int64.lt_irrefl

theorem quiet_within (hLate : overlaps.late) : quiet.Within (racing faulty first overlaps) where
  answers h := racing_of_answers h fun _ _ => .inl hLate
  moves h := .inl (h.mono False.elim)

theorem leads_runOnce {c : Conduct Request Request.Answer Scene} {setup : LoopSetup} {listed : List Entry}
    {rest : Program Request Request.Answer (Except Failure Unit)} {u : Scene}
    (hSnapshot : c.answers .activeEntries s (.ok listed) t)
    (hRest : Program.Leads c
      (ExceptT.run (Pass.passOver setup listed >>= fun _ => Engine.ask .setIdle)) t rest u) :
    Program.Leads c (ExceptT.run (Pass.runOnce setup)) s rest u := by
  unfold Pass.runOnce Pass.pass
  rw [bind_assoc]
  exact .answer hSnapshot hRest

theorem leads_two_passes {c : Conduct Request Request.Answer Scene} {setup : LoopSetup} {u v : Scene}
    {first second : Except Failure Unit}
    (hFirst : Program.Leads c (ExceptT.run (Pass.runOnce setup)) s (.done first) t)
    (hDrift : c.Drifts t u)
    (hSecond : Program.Leads c (ExceptT.run (Pass.runOnce setup)) u (.done second) v) :
    Program.Leads c ((Duty.passes 2).program setup) s (.done ()) v :=
  (hFirst.bind _).trans ((Program.Leads.of_drifts hDrift).trans (hSecond.bind _))

section

variable {entries : List Entry} {e updated : Entry} {clock : Tick} {stamp : String} {setup : LoopSetup}

/-- An update of a fresh entry that is none of the scheduler's business. -/
structure Harmless (e updated : Entry) : Prop where
  name_eq : updated.name = e.name
  start_eq : updated.start = e.start
  interval_eq : updated.interval = e.interval
  isActive_eq : updated.isActive = e.isActive
  stop_eq : updated.stop = e.stop

/-- The scene after a client has read an entry. -/
def reading (store : Store) (clock : Tick) (u : Entry) : Scene :=
  { store, clock, copies := [u], journal := [.edited u] }

theorem edits_reading (hStock : store.Stocks entries) (hEntry : e ∈ entries)
    (hHarmless : Harmless e updated)
    (hStamp : ∀ name row, store.row? name = some row → row.modifiedAt ≠ stamp) :
    Edits store overlaps { store, clock } (reading store clock (e.edited updated stamp)) := by
  have hFresh := hStock.fresh e hEntry
  have hTiming : Entry.checkTiming updated.start updated.stop updated.interval = .ok () := by
    rw [hHarmless.start_eq, hHarmless.interval_eq, hHarmless.stop_eq]
    exact hFresh.checkTiming_eq_ok hFresh.start_lt
  have hRead : store.getEntry updated.name = .ok e := by
    rw [hHarmless.name_eq, Store.getEntry_eq_ok_iff]
    exact ⟨_, hStock.row?_eq e hEntry, EntryRow.read_ofEntry e⟩
  exact .read (s := { store, clock }) (e := e) hTiming hRead hHarmless.start_eq hHarmless.interval_eq
    hHarmless.isActive_eq
    (Entry.applyUpdate_eq_edited hHarmless.start_eq hHarmless.interval_eq hHarmless.isActive_eq)
    ⟨hStamp, by simp⟩

variable (hBreaker : setup.settings.maxConsecutiveFailures = none) (hStock : store.Stocks entries)
  (hEntry : e ∈ entries) (hNow : clock < Int64.maxValue) (hHarmless : Harmless e updated)
  (hStamp : ∀ name row, store.row? name = some row → row.modifiedAt ≠ stamp)

include hBreaker hStock hEntry hNow hHarmless hStamp

/-- A pass with an edit between its snapshot and everything else: the task runs, and the cursor is lost. -/
theorem exists_late_pass (faulty : Prop) (hLate : overlaps.late) {τ : Task}
    (hTask : e.dueTask clock = some τ) :
    ∃ result t rows taskId, Program.Leads (racing faulty store overlaps)
        (ExceptT.run (Pass.runOnce setup)) { store, clock } (.done result) t ∧
      (∃ tasks, t.Shows rows clock tasks ∧ τ ∈ tasks) ∧
      rows.IsOpen ∧ rows e.name = some { (EntryRow.ofEntry e).withUpdate (e.edited updated stamp) with
        nextTaskId := taskId } := by
  have hBelow := below_of_stocks hStock
  have hOpen : Rows.IsOpen store.row? := hBelow.mono (by decide)
  have hStored := hStock.row?_eq e hEntry
  have hFlag := (EntryRow.activeFlag_ofEntry e).mpr (hStock.fresh e hEntry).isActive
  have hShows : Shows store.row? clock [] { store, clock } := .self (s := { store, clock }) hStock.tables
  obtain ⟨listed, hSnapshot, hLists⟩ := hShows.exists_lists fun name row hRow _ => (hOpen name row hRow).1
  have hListed : e ∈ listed := (hLists.mem_iff e).mpr ⟨_, hStored, hFlag, EntryRow.toEntry_ofEntry e⟩
  let u := e.edited updated stamp
  obtain ⟨edited, hWrite, hTable⟩ := Store.exists_writeUpdate hStock.tables.1 u
  have hRewrites := Store.rewrites_of_writeUpdate hWrite
  let after : Scene := { reading store clock u with store := edited, copies := [u].erase u }
  have hRead : Edits store overlaps { store, clock } (reading store clock u) :=
    edits_reading hStock hEntry hHarmless hStamp
  have hOrder : OnCursor u (reading store clock u) := by
    intro row hRow _
    obtain rfl := Option.some.inj (hRow.symm.trans hStored)
    exact ⟨hFlag, rfl⟩
  have hWritten : Edits store overlaps (reading store clock u) after :=
    .write List.mem_cons_self hWrite (.inr hOrder)
  have hDrift : (racing faulty store overlaps).Drifts { store, clock } after :=
    .tail (.single (.inr (.inr hRead))) (.inr (.inr hWritten))
  have hEdited : Shows edited.row? clock [] after :=
    .self (s := after) ⟨hTable, hRewrites.results_eq ▸ hStock.tables.2⟩
  have hBelowEdited : Rows.Below 2 edited.row? := hBelow.of_writeUpdate hRewrites
  have hRows : ∀ f ∈ listed, ∃ row, edited.row? f.name = some row ∧ row.IsReadable := by
    intro f hf
    obtain ⟨row, hRow, -⟩ := hLists.row hf
    obtain ⟨other, hOther⟩ := Option.isSome_iff_exists.mp
      ((hRewrites.isSome_row? f.name).trans (Option.isSome_of_mem hRow))
    exact ⟨other, hOther, (hBelowEdited _ other hOther).1⟩
  -- the rest of the pass works on the snapshot
  obtain ⟨result, t, hRest⟩ := Program.exists_leads_done quiet_responsive
    (ExceptT.run (Pass.passOver setup listed >>= fun _ => Engine.ask .setIdle)) after
  have hYields : ∀ f ∈ listed, f.Yields clock := fun f hf => hLists.yields (hOpen.yields hNow) hf
  have hEnds := ends_rest quiet_quietens hYields hBreaker hRows nofun hEdited
  obtain ⟨-, -, hShown⟩ := (hEnds.of_leads hRest).post_here
  have hPass := (Program.Leads.of_drifts hDrift).trans (hRest.mono (quiet_within hLate))
  have hLost : ((EntryRow.ofEntry e).withUpdate u).modifiedAt ≠ (e.settled clock).modifiedAt := by
    rw [(e.moves_settled clock).modifiedAt_eq]
    exact (hStamp _ _ hStored).symm
  have hRow := hLists.foldl_save_of_mem clock edited.row? hListed
  have hFound : edited.row? e.name = some ((EntryRow.ofEntry e).withUpdate u) := hRewrites.found hStored
  rw [hFound, Option.map_some, EntryRow.withCursor_of_other hLost] at hRow
  have hLeads : Program.Leads (racing faulty store overlaps) (ExceptT.run (Pass.runOnce setup))
      { store, clock } (.done result) t := leads_runOnce ⟨⟨.inl hSnapshot.symm, rfl⟩, trivial⟩ hPass
  refine ⟨result, t, _, _, hLeads, ⟨_, hShown, ?_⟩, ?_, hRow⟩
  · exact mem_dueTasks.mpr ⟨e, hListed, hTask⟩
  · exact (hLists.below_foldl_save hNow (by decide) hBelow hBelowEdited).mono (by decide)

variable (hStart : e.start ≤ clock)

include hStart

/-- An update that is made and written before the cursor of a snapshot is saved: the next pass finds the
entry as if nothing had run. -/
theorem exists_twice_of_late (hLate : overlaps.late) :
    ∃ t, Program.Leads (racing faulty store overlaps) ((Duty.passes 2).program setup)
        { store, clock } (.done ()) t ∧
      ¬ t.RunsNoTickTwice := by
  have hFresh := hStock.fresh e hEntry
  obtain ⟨τ, hTask⟩ := exists_dueTask hFresh hStart hNow
  obtain ⟨result, t, rows, taskId, hFirst, ⟨tasks, hShown, hτ⟩, hOpen, hRow⟩ :=
    exists_late_pass hBreaker hStock hEntry hNow hHarmless hStamp faulty hLate hTask
  have hFlag : EntryRow.flag e.isActive = 1 := (EntryRow.activeFlag_ofEntry e).mpr hFresh.isActive
  obtain ⟨v, hSecond, -, hTwice⟩ := exists_repeat quiet_quietens quiet_responsive hBreaker hNow hFresh
    hTask hτ hOpen hRow hFlag hHarmless.stop_eq rfl rfl hShown
  exact ⟨v, leads_two_passes hFirst .refl (hSecond.mono (quiet_within hLate)), hTwice⟩

/-- An update that is made before a pass and written after it: the cursor goes back. -/
theorem exists_twice_of_stale (hStale : overlaps.stale) :
    ∃ t, Program.Leads (racing faulty store overlaps) ((Duty.passes 2).program setup)
        { store, clock } (.done ()) t ∧
      ¬ t.RunsNoTickTwice := by
  have hFresh := hStock.fresh e hEntry
  obtain ⟨τ, hTask⟩ := exists_dueTask hFresh hStart hNow
  let u := e.edited updated stamp
  have hRead : Edits store overlaps { store, clock } (reading store clock u) :=
    edits_reading hStock hEntry hHarmless hStamp
  obtain ⟨tasks, t, hPass, hShown, hτ, hSettled, hBelow⟩ :=
    exists_first careful_quietens careful_responsive hBreaker hNow hStock hEntry hTask
      (.self (s := reading store clock u) hStock.tables)
  have hFirst : Program.Leads (racing faulty store overlaps) _ _ _ t :=
    leads_of_careful hPass (hShown.clock_eq ▸ hNow)
  -- the write, with the cursor from before the pass
  have hCopies : t.copies = [u] := (frame_of_careful hPass).1
  obtain ⟨edited, hWrite, hTable⟩ := Store.exists_writeUpdate hShown.entries u
  have hRewrites := Store.rewrites_of_writeUpdate hWrite
  let after : Scene := { t with store := edited, copies := t.copies.erase u }
  have hWritten : Edits store overlaps t after :=
    .write (hCopies ▸ List.mem_cons_self) hWrite (.inl hStale)
  have hEdited : Shows edited.row? clock tasks after :=
    ⟨fun _ => rfl, hTable, hRewrites.results_eq ▸ hShown.results, hShown.clock_eq, hShown.executed_eq⟩
  have hOpen : Rows.IsOpen edited.row? := (hBelow.of_writeUpdate hRewrites).mono (by decide)
  have hFlag : EntryRow.flag e.isActive = 1 := (EntryRow.activeFlag_ofEntry e).mpr hFresh.isActive
  obtain ⟨v, hSecond, hClock, hTwice⟩ := exists_repeat careful_quietens careful_responsive hBreaker hNow
    hFresh hTask hτ hOpen (hRewrites.found hSettled) hFlag hHarmless.stop_eq rfl rfl hEdited
  exact ⟨v, leads_two_passes (.move (.inr (.inr hRead)) hFirst) (.single (.inr (.inr hWritten)))
    (leads_of_careful hSecond (hClock ▸ hNow)), hTwice⟩

end

/-! ### When ticks run once -/

theorem exists_stamp (stamps : List String) : ∃ stamp : String, ∀ other ∈ stamps,
    other.length < stamp.length := by
  induction stamps with
  | nil => exact ⟨"", nofun⟩
  | cons first rest ih =>
      obtain ⟨stamp, hLonger⟩ := ih
      refine ⟨first ++ stamp ++ "+", fun other hOther => ?_⟩
      have hPlus : ("+" : String).length = 1 := rfl
      rw [String.length_append, String.length_append, hPlus]
      rcases List.mem_cons.mp hOther with rfl | hOther
      · omega
      · have := hLonger other hOther
        omega

/-- Clients may edit entries while a scheduler is at work on them, whatever it was started for, just as
long as neither overlap occurs. If one of them may occur, every entry that can run at all can run a tick
twice. -/
theorem ticks_once_iff {entries : List Entry} {clock : Tick}
    (hDrafts : ∀ e ∈ entries, ∃ draft now known stamp, Draft.toEntry draft now known stamp = .ok e)
    (hStore : entries.foldlM Store.insertEntry .empty = .ok store)
    (hEntries : ∃ e ∈ entries, e.start < Int64.maxValue) (hNow : clock < Int64.maxValue) :
    (∀ setup duty rest t, Program.Leads (racing faulty store overlaps) (Duty.program setup duty)
      { store, clock } rest t → t.RunsNoTickTwice) ↔ ¬ overlaps.late ∧ ¬ overlaps.stale := by
  constructor
  · intro hOnce
    have hStock := Store.stocks_of_drafts hDrafts hStore
    obtain ⟨e, hEntry, hStart⟩ := hEntries
    obtain ⟨later, hLater, hDue, hEnd⟩ : ∃ later, clock ≤ later ∧ e.start ≤ later ∧
      later < Int64.maxValue := by
      rcases Int64.le_total clock e.start with hEarly | hLate
      · exact ⟨e.start, hEarly, Int64.le_refl _, hStart⟩
      · exact ⟨clock, Int64.le_refl _, hLate, hNow⟩
    obtain ⟨stamp, hStamp⟩ := exists_stamp (entries.map Entry.modifiedAt)
    have hFresh : ∀ name row, store.row? name = some row → row.modifiedAt ≠ stamp := by
      rintro name row hRow rfl
      obtain ⟨f, hf, -, rfl⟩ := hStock.source name row hRow
      exact Nat.lt_irrefl _ (hStamp _ (List.mem_map_of_mem hf))
    have hHarmless : Harmless e e := ⟨rfl, rfl, rfl, rfl, rfl⟩
    have hBreaker : ({} : LoopSetup).settings.maxConsecutiveFailures = none := rfl
    have hAge : (racing faulty store overlaps).moves { store, clock } { store, clock := later } :=
      .inr (.inl ⟨later, hLater, rfl⟩)
    constructor
    · intro hLate
      obtain ⟨t, hLeads, hTwice⟩ :=
        exists_twice_of_late hBreaker hStock hEntry hEnd hHarmless hFresh hDue hLate
      exact hTwice (hOnce {} (.passes 2) _ t (.move hAge hLeads))
    · intro hStale
      obtain ⟨t, hLeads, hTwice⟩ :=
        exists_twice_of_stale hBreaker hStock hEntry hEnd hHarmless hFresh hDue hStale
      exact hTwice (hOnce {} (.passes 2) _ t (.move hAge hLeads))
  · rintro ⟨hLate, hStale⟩ setup duty rest t hLeads
    have hStart : TicksOnce { store, clock } := ⟨nofun, nofun, .nil⟩
    exact ((LoopInvariant.upholds_duty duty hStart
      (L := ticksOnce setup (racing_calms hLate hStale))).of_leads hLeads).inv_here.once

/-- For an entry of every tenth tick there is nothing to fear without overlaps. -/
theorem ticks_once_of_beat : ∃ beat store,
    Draft.toEntry ⟨"job", "beep", none, some 1, none, false, some 10, none, none⟩ 1 (· == "beep") "now" =
        .ok beat ∧
      [beat].foldlM Store.insertEntry .empty = .ok store ∧
      ∀ setup duty rest t, Program.Leads (racing True store ⟨False, False⟩) (Duty.program setup duty)
        { store, clock := 1 } rest t → t.RunsNoTickTwice := by
  obtain ⟨beat, store, hBeat, hStore⟩ : ∃ beat store,
      Draft.toEntry ⟨"job", "beep", none, some 1, none, false, some 10, none, none⟩ 1 (· == "beep") "now" =
          .ok beat ∧
        [beat].foldlM Store.insertEntry .empty = .ok store ∧ beat.start = 1 := ⟨_, _, rfl, rfl, rfl⟩
  have hDrafts : ∀ e ∈ [beat], ∃ draft now known stamp, Draft.toEntry draft now known stamp = .ok e :=
    fun e hEntry => ⟨_, _, _, _, List.mem_singleton.mp hEntry ▸ hBeat⟩
  have hEntries : ∃ e ∈ [beat], e.start < Int64.maxValue :=
    ⟨beat, List.mem_cons_self, by rw [hStore.2]; decide⟩
  refine ⟨beat, store, hBeat, hStore.1, ?_⟩
  have hNow : (1 : Tick) < Int64.maxValue := by decide
  exact (ticks_once_iff hDrafts hStore.1 hEntries hNow).mpr ⟨id, id⟩

/-- Its priority is changed between the snapshot of a pass and the saving of its cursor: the tick 1 runs
in this pass and in the next. -/
theorem beat_runs_twice : ∃ beat store t,
    Draft.toEntry ⟨"job", "beep", none, some 1, none, false, some 10, none, none⟩ 1 (· == "beep") "now" =
        .ok beat ∧
      [beat].foldlM Store.insertEntry .empty = .ok store ∧
      Program.Leads (racing False store ⟨True, True⟩) ((Duty.passes 2).program {})
        { store, clock := 1 } (.done ()) t ∧
      ¬ t.RunsNoTickTwice := by
  obtain ⟨beat, store, hBeat, hStore, hStart, hVersion⟩ : ∃ beat store,
      Draft.toEntry ⟨"job", "beep", none, some 1, none, false, some 10, none, none⟩ 1 (· == "beep") "now" =
          .ok beat ∧
        [beat].foldlM Store.insertEntry .empty = .ok store ∧ beat.start = 1 ∧ beat.modifiedAt = "now" :=
    ⟨_, _, rfl, rfl, rfl, rfl⟩
  have hStock := Store.stocks_of_drafts
    (fun e hEntry => ⟨_, _, _, _, List.mem_singleton.mp hEntry ▸ hBeat⟩) hStore
  have hStamp : ∀ name row, store.row? name = some row → row.modifiedAt ≠ "later" := by
    intro name row hRow
    obtain ⟨e, hEntry, -, rfl⟩ := hStock.source name row hRow
    obtain rfl := List.mem_singleton.mp hEntry
    rw [show (EntryRow.ofEntry e).modifiedAt = "now" from hVersion]
    decide
  have hBreaker : ({} : LoopSetup).settings.maxConsecutiveFailures = none := rfl
  have hNow : (1 : Tick) < Int64.maxValue := by decide
  have hHarmless : Harmless beat { beat with priority := 5 } := ⟨rfl, rfl, rfl, rfl, rfl⟩
  have hLate : Overlaps.late ⟨True, True⟩ := trivial
  obtain ⟨t, hLeads, hTwice⟩ := exists_twice_of_late hBreaker hStock List.mem_cons_self hNow hHarmless
    hStamp (Int64.le_of_eq hStart) hLate
  exact ⟨beat, store, t, hBeat, hStore, hLeads, hTwice⟩

end Scene

end TickScheduler
