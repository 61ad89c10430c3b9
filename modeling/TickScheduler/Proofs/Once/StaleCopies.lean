import Mathlib.Data.List.Chain
import TickScheduler.Proofs.Engine.QuietPass
import TickScheduler.Proofs.Once.Ticks
/-!
Whole operations one after the other: passes, deactivations, and updates that are made of copies which
may be as old as they like. The only thing that an old copy can do is to bring an entry back to the
schedule, and with it, if it runs once, its tick.
-/
namespace TickScheduler.Scene

/-- Nobody but the loop and its background does anything. -/
def solitary (faulty : Prop) : Conduct Request Request.Answer Scene where
  answers := Answers faulty
  moves := Works faulty

theorem copies_of_leads {faulty : Prop} {Result : Type} {p q : Program Request Request.Answer Result}
    {s t : Scene}
    (hLeads : Program.Leads (solitary faulty) p s q t) : t.copies = s.copies := by
  refine hLeads.keeps (P := fun u => u.copies = s.copies) (fun _ _ _ _ hAnswer h => ?_)
    (fun _ _ hMove h => ?_) rfl
  · obtain ⟨_, _, _, _, rfl⟩ := frame_of_answers hAnswer
    exact h
  · obtain ⟨_, _, _, _, rfl⟩ := frame_of_works hMove
    exact h

/-- An entry is updated with the configuration of a copy, changed where that does not concern the
cursor. The answer is not kept. -/
def Updates (s : Scene) (copy : Entry) (t : Scene) : Prop :=
  copy ∈ s.copies ∧ ∃ updated u stamp store, updated.name = copy.name ∧ updated.start = copy.start ∧
    updated.interval = copy.interval ∧ updated.isActive = copy.isActive ∧
    s.store.updateEntry updated s.clock stamp = .ok (u, store) ∧ t = { s with store }

/-- One whole operation, or what happens between two of them. If the scene is faulty, operations of the
store may fail during a pass. -/
inductive Operation (faulty : Prop) : Scene → Scene → Prop where
  | age {s t : Scene} (hAge : Ages s t) : Operation faulty s t
  | work {s t : Scene} (hWork : Works faulty s t) : Operation faulty s t
  | pass {s t : Scene} {result : Except Failure Unit} (setup : LoopSetup)
      (hPass : Program.Leads (solitary faulty) (ExceptT.run (Pass.runOnce setup)) s (.done result) t) :
      Operation faulty s t
  | deactivate {s : Scene} {name stamp : String} {store : Store}
      (hStore : s.store.deactivate name stamp = .ok store) : Operation faulty s { s with store }
  | load {s : Scene} {name : String} {e : Entry} (hRead : s.store.getEntry name = .ok e) :
      Operation faulty s { s with copies := e :: s.copies }
  | update {s t : Scene} {copy : Entry} (hUpdate : Updates s copy t) : Operation faulty s t

/-- An update makes an entry active that is not any more. -/
def Revives (s t : Scene) : Prop :=
  ∃ copy row, Updates s copy t ∧ copy.isActive = true ∧ s.store.row? copy.name = some row ∧
    row.activeFlag = 0

/-- Entries that were not active are still not. -/
def StaysIdle (s t : Scene) : Prop :=
  ∀ name old row, s.store.row? name = some old → old.activeFlag = 0 → t.store.row? name = some row →
    row.activeFlag = 0

/-- A flag that the program writes itself. -/
def IsFlagged (row : EntryRow) : Prop :=
  row.activeFlag = 0 ∨ row.activeFlag = 1

/-- Every row comes from one of the same timing, and none becomes active. -/
def Settles (s t : Scene) : Prop :=
  ∀ name row, t.store.row? name = some row → ∃ old, s.store.row? name = some old ∧
    row.start = old.start ∧ row.interval = old.interval ∧ (IsFlagged old → IsFlagged row) ∧
    (old.activeFlag = 0 → row.activeFlag = 0)

variable {s t u : Scene} {faulty : Prop}

namespace Settles

theorem refl (s : Scene) : Settles s s :=
  fun _ row hRow => ⟨row, hRow, rfl, rfl, id, id⟩

theorem trans (first : Settles s t) (second : Settles t u) : Settles s u := by
  intro name row hRow
  obtain ⟨mid, hMid, hStart, hInterval, hFlagged, hIdle⟩ := second name row hRow
  obtain ⟨old, hOld, hStartOld, hIntervalOld, hFlaggedOld, hIdleOld⟩ := first name mid hMid
  exact ⟨old, hOld, hStart.trans hStartOld, hInterval.trans hIntervalOld, hFlagged ∘ hFlaggedOld,
    hIdle ∘ hIdleOld⟩

theorem of_entries (h : t.store.entries = s.store.entries) : Settles s t :=
  fun name row hRow => ⟨row, (Store.row?_congr h name).symm.trans hRow, rfl, rfl, id, id⟩

theorem of_rewrites {name : String} {change : EntryRow → EntryRow}
    (hRewrites : s.store.Rewrites name change t.store)
    (hChange : ∀ old, s.store.row? name = some old → (change old).start = old.start ∧
      (change old).interval = old.interval ∧ (IsFlagged old → IsFlagged (change old)) ∧
      (old.activeFlag = 0 → (change old).activeFlag = 0)) : Settles s t := by
  intro other row hRow
  rcases hRewrites.source hRow with ⟨-, hRow⟩ | ⟨rfl, old, hOld, rfl⟩
  · exact ⟨row, hRow, rfl, rfl, id, id⟩
  · exact ⟨old, hOld, hChange old hOld⟩

theorem staysIdle (h : Settles s t) : StaysIdle s t := by
  intro name old row hOld hIdle hRow
  obtain ⟨other, hOther, -, -, -, hStill⟩ := h name row hRow
  obtain rfl := Option.some.inj (hOld.symm.trans hOther)
  exact hStill hIdle

end Settles

/-- What an update does to the row of its copy: the cursor stays unless the timing is another one. -/
theorem rewrites_of_updates {copy : Entry} (hUpdate : Updates s copy t) :
    ∃ old u, s.store.row? copy.name = some old ∧ s.store.Rewrites copy.name (·.withUpdate u) t.store ∧
      u.start = copy.start ∧ u.interval = copy.interval ∧ u.isActive = copy.isActive ∧
      (old.start = copy.start → old.interval = copy.interval → u.nextTaskTime = old.nextTaskTime) ∧
      t = { s with store := t.store } := by
  obtain ⟨-, updated, u, stamp, store, hName, hStart, hInterval, hActive, hAnswer, rfl⟩ := hUpdate
  obtain ⟨old, hUpdates⟩ := Store.updates_of_updateEntry hAnswer
  rw [← hName, ← hStart, ← hInterval, ← hActive]
  exact ⟨old, u, hUpdates.stored, hUpdates.rewrites, hUpdates.start_eq, hUpdates.interval_eq,
    hUpdates.isActive_eq, fun hOldStart hOldInterval => hUpdates.kept ⟨hOldStart.symm, hOldInterval.symm⟩,
    rfl⟩

theorem isFlagged_flag (row : EntryRow) (isActive : Bool) :
    IsFlagged { row with activeFlag := EntryRow.flag isActive } := by
  cases isActive
  · exact .inl rfl
  · exact .inr rfl

theorem settles_of_saveCursor {e : Entry} (hRewrites : s.store.Rewrites e.name (·.withCursor e) t.store) :
    Settles s t := by
  refine .of_rewrites hRewrites fun old _ => ?_
  unfold EntryRow.withCursor
  split
  · refine ⟨rfl, rfl, fun _ => isFlagged_flag old _, fun hIdle => ?_⟩
    simp [hIdle, EntryRow.flag]
  · exact ⟨rfl, rfl, id, id⟩

theorem settles_of_answers {r : Request} {a : r.Answer} (h : Answers faulty r s a t) : Settles s t := by
  by_cases hPassive : r.IsPassive
  · obtain ⟨_, rfl⟩ := passive_answer hPassive h
    exact .of_entries rfl
  · cases r with
    | saveCursor =>
        rcases Writes.cases h with ⟨_, hStore, -, rfl⟩ | ⟨_, -, rfl⟩
        · exact settles_of_saveCursor (Store.rewrites_of_saveCursor hStore)
        · exact .refl _
    | final => exact .of_entries (entries_of_answersFinal h).1
    | call | spawn =>
        obtain rfl := h
        exact .of_entries rfl
    | _ => exact (hPassive trivial).elim

theorem solitary_calms : Calms True (solitary faulty) where
  answers h := h.mono fun _ => trivial
  moves h := .of_entries (entries_of_works h).1 (entries_of_works h).2
  saves := .inl trivial

/-! ### What every operation keeps -/

/-- What holds as long as no update brings an entry back. -/
structure Sound (s : Scene) : Prop where
  ticks : s.TicksOnce
  flagged : ∀ name row, s.store.row? name = some row → IsFlagged row
  timing : ∀ copy ∈ s.copies, ∀ row, s.store.row? copy.name = some row →
    row.start = copy.start ∧ row.interval = copy.interval

/-- The timing of copies is that of the rows as long as rows settle. -/
theorem Sound.of_settles (hTicks : t.TicksOnce) (hSettles : Settles s t) (hCopies : t.copies = s.copies)
    (h : s.Sound) : t.Sound where
  ticks := hTicks
  flagged name row hRow := by
    obtain ⟨old, hOld, -, -, hFlagged, -⟩ := hSettles name row hRow
    exact hFlagged (h.flagged name old hOld)
  timing copy hCopy row hRow := by
    obtain ⟨old, hOld, hStart, hInterval, -⟩ := hSettles copy.name row hRow
    rw [hStart, hInterval]
    exact h.timing copy (hCopies ▸ hCopy) old hOld

/-- An update that brings no entry back leaves its cursor alone. -/
theorem Sound.of_updates {copy : Entry} (hUpdate : Updates s copy t) (hOrder : ¬ Revives s t)
    (h : s.Sound) :
    t.Sound ∧ Settles s t := by
  obtain ⟨old, u, hOld, hRewrites, hStart, hInterval, hActive, hTime, hSame⟩ :=
    rewrites_of_updates hUpdate
  obtain ⟨hOldStart, hOldInterval⟩ := h.timing copy hUpdate.1 old hOld
  replace hTime := hTime hOldStart hOldInterval
  have hIdle : old.activeFlag = 0 → u.isActive = false := by
    intro hIdle
    rw [hActive]
    refine Bool.eq_false_iff.mpr fun hOn => hOrder ⟨copy, old, hUpdate, hOn, hOld, hIdle⟩
  have hSettles : Settles s t := by
    refine .of_rewrites hRewrites fun row hRow => ?_
    obtain rfl := Option.some.inj (hOld.symm.trans hRow)
    refine ⟨hStart.trans hOldStart.symm, hInterval.trans hOldInterval.symm,
      fun _ => isFlagged_flag (old.withUpdate u) u.isActive, fun hOff => ?_⟩
    change EntryRow.flag u.isActive = 0
    rw [hIdle hOff]
    rfl
  have hCalm : Calm False s t := by
    refine ⟨by rw [hSame]; rfl, fun name hStored => by rwa [hRewrites.isSome_row?],
      fun name row hRow hFlag => ?_⟩
    rcases hRewrites.source hRow with ⟨-, hRow⟩ | ⟨rfl, prior, hPrior, rfl⟩
    · exact .inr ⟨row, hRow, hFlag, rfl, nofun⟩
    · obtain rfl := Option.some.inj (hOld.symm.trans hPrior)
      refine .inr ⟨old, hOld, ?_, hTime, nofun⟩
      rcases h.flagged _ old hOld with hOff | hOn
      · change EntryRow.flag u.isActive = 1 at hFlag
        rw [hIdle hOff] at hFlag
        cases hFlag
      · exact hOn
  exact ⟨h.of_settles (h.ticks.of_calm hCalm) hSettles (by rw [hSame]), hSettles⟩

/-- A pass leaves the invariant, the copies and the idle entries as they are. -/
theorem Sound.of_pass {setup : LoopSetup} {result : Except Failure Unit}
    (hPass : Program.Leads (solitary faulty) (ExceptT.run (Pass.runOnce setup)) s (.done result) t)
    (h : s.Sound) :
    t.Sound ∧ Settles s t := by
  have hSettles : Settles s t := hPass.keeps (P := Settles s)
    (fun _ _ _ _ hAnswer hSettles => hSettles.trans (settles_of_answers hAnswer))
    (fun _ _ hMove hSettles => hSettles.trans (.of_entries (entries_of_works hMove).1)) (.refl s)
  have hTicks := ((LoopInvariant.upholds_runOnce h.ticks (L := ticksOnce setup solitary_calms)).of_leads
    hPass).inv_here
  exact ⟨h.of_settles hTicks hSettles (copies_of_leads hPass), hSettles⟩

theorem Sound.step (hStep : Operation faulty s t) (hOrder : ¬ Revives s t) (h : s.Sound) :
    t.Sound ∧ Settles s t := by
  cases hStep with
  | age hAge =>
      obtain ⟨clock, -, rfl⟩ := hAge
      have hCalm : Calm False s { s with clock } := .of_entries rfl rfl
      exact ⟨⟨h.ticks.of_calm hCalm, h.flagged, h.timing⟩, .of_entries rfl⟩
  | work hWork =>
      obtain ⟨hEntries, hExecuted⟩ := entries_of_works hWork
      have hCalm : Calm False s t := .of_entries hEntries hExecuted
      have hSettles : Settles s t := .of_entries hEntries
      have hCopies : t.copies = s.copies := by
        obtain ⟨_, _, _, _, rfl⟩ := frame_of_works hWork
        rfl
      exact ⟨h.of_settles (h.ticks.of_calm hCalm) hSettles hCopies, hSettles⟩
  | pass setup hPass => exact h.of_pass hPass
  | @deactivate name stamp store hStore =>
      have hRewrites := Store.rewrites_of_deactivate hStore
      have hSettles : Settles s { s with store } :=
        .of_rewrites hRewrites fun _ _ => ⟨rfl, rfl, fun _ => .inl rfl, fun _ => rfl⟩
      have hCalm : Calm False s { s with store } := by
        refine ⟨rfl, fun name hStored => by rwa [hRewrites.isSome_row?], fun name row hRow hFlag => ?_⟩
        rcases hRewrites.source hRow with ⟨-, hRow⟩ | ⟨-, old, -, rfl⟩
        · exact .inr ⟨row, hRow, hFlag, rfl, nofun⟩
        · cases hFlag
      exact ⟨h.of_settles (h.ticks.of_calm hCalm) hSettles rfl, hSettles⟩
  | @load name e hRead =>
      have hCalm : Calm False s { s with copies := e :: s.copies } := .of_entries rfl rfl
      refine ⟨⟨h.ticks.of_calm hCalm, h.flagged, fun copy hCopy row hRow => ?_⟩, .of_entries rfl⟩
      rcases List.mem_cons.mp hCopy with rfl | hCopy
      · obtain ⟨stored, hStored, hRead⟩ := Store.getEntry_eq_ok_iff.mp hRead
        obtain ⟨-, rfl⟩ := EntryRow.read_eq_ok_iff.mp hRead
        obtain rfl := Option.some.inj (((Store.name_of_row? hStored) ▸ hStored).symm.trans hRow)
        exact ⟨rfl, rfl⟩
      · exact h.timing copy hCopy row hRow
  | update hUpdate => exact h.of_updates hUpdate hOrder

/-! ### Histories -/

/-- If no update brings an entry back, every scene is sound, and rows settle all along. -/
theorem Sound.along {history : List Scene} (hCourse : (s :: history).IsChain (Operation faulty))
    (hOrder : (s :: history).IsChain fun s t => ¬ Revives s t) (h : s.Sound) :
    (∀ t ∈ s :: history, t.Sound) ∧ (s :: history).IsChain Settles := by
  induction history generalizing s with
  | nil => exact ⟨fun t ht => List.mem_singleton.mp ht ▸ h, .singleton s⟩
  | cons next rest ih =>
      obtain ⟨hStep, hCourse⟩ := List.isChain_cons_cons.mp hCourse
      obtain ⟨hFirst, hOrder⟩ := List.isChain_cons_cons.mp hOrder
      obtain ⟨hNext, hSettles⟩ := h.step hStep hFirst
      obtain ⟨hAll, hChain⟩ := ih hCourse hOrder hNext
      exact ⟨List.forall_mem_cons.mpr ⟨h, hAll⟩, List.isChain_cons_cons.mpr ⟨hSettles, hChain⟩⟩

theorem Sound.of_stocks {store : Store} {entries : List Entry} (hStock : store.Stocks entries)
    (clock : Tick) : Sound { store, clock } where
  ticks := ⟨nofun, nofun, .nil⟩
  flagged name row hRow := by
    obtain ⟨e, hEntry, -, rfl⟩ := hStock.source name row hRow
    exact .inr ((EntryRow.activeFlag_ofEntry e).mpr (hStock.fresh e hEntry).isActive)
  timing := nofun

/-- What an update has brought back is active again. -/
theorem Revives.not_staysIdle (h : Revives s t) : ¬ StaysIdle s t := by
  obtain ⟨copy, row, hUpdate, hCopy, hRow, hIdle⟩ := h
  obtain ⟨old, u, -, hRewrites, -, -, hActive, -, -⟩ := rewrites_of_updates hUpdate
  intro hStays
  have hFlag : EntryRow.flag u.isActive = 0 :=
    hStays copy.name row (row.withUpdate u) hRow hIdle (hRewrites.found hRow)
  rw [hActive, hCopy] at hFlag
  cases hFlag

/-! ### An entry that runs twice -/

section

variable {entries : List Entry} {store : Store} {clock : Tick} {e f : Entry}

/-- An old copy of a fresh entry can be written whatever has become of the cursor since. -/
theorem exists_updates (hFresh : e.IsFresh) (hMoves : e.Moves f) (hCopy : e ∈ s.copies)
    (hTable : s.store.entries.isSome = true) (hRow : s.store.row? e.name = some (.ofEntry f))
    (priority : Int32) :
    ∃ u edited, Updates s e { s with store := edited } ∧ s.store.Rewrites e.name (·.withUpdate u) edited ∧
      edited.entries.isSome = true ∧ u.stop = e.stop ∧ u.interval = e.interval ∧ u.isActive = e.isActive ∧
      u.nextTaskTime = f.nextTaskTime := by
  let updated : Entry := { e with priority }
  have hTiming : Entry.checkTiming updated.start updated.stop updated.interval = .ok () :=
    hFresh.checkTiming_eq_ok hFresh.start_lt
  have hRead : s.store.getEntry updated.name = .ok f :=
    Store.getEntry_eq_ok_iff.mpr ⟨_, hRow, EntryRow.read_ofEntry f⟩
  have hSame : updated.start = f.start ∧ updated.interval = f.interval := by
    cases hMoves
    exact ⟨rfl, rfl⟩
  obtain ⟨u, hApply, hName, hKept⟩ : ∃ u, f.applyUpdate updated s.clock "" = .ok u ∧ u.name = f.name ∧
      u.stop = e.stop ∧ u.interval = e.interval ∧ u.isActive = e.isActive ∧
      u.nextTaskTime = f.nextTaskTime := by
    unfold Entry.applyUpdate Entry.updatedTaskTime
    rw [if_pos hSame]
    exact ⟨_, rfl, rfl, rfl, rfl, rfl, rfl⟩
  obtain ⟨edited, hWrite, hEdited⟩ := Store.exists_writeUpdate hTable u
  have hRewrites := Store.rewrites_of_writeUpdate hWrite
  rw [hName, hMoves.name_eq] at hRewrites
  have hAnswer := Store.updateEntry_eq_ok_iff.mpr ⟨hTiming, f, hRead, hApply, hWrite⟩
  exact ⟨u, edited, ⟨hCopy, updated, u, "", edited, rfl, rfl, rfl, rfl, hAnswer, rfl⟩, hRewrites,
    hEdited, hKept⟩

theorem loads (hStock : store.Stocks entries) (hEntry : e ∈ entries) :
    Operation faulty { store, clock } { store, clock, copies := [e] } :=
  .load (s := { store, clock })
    (Store.getEntry_eq_ok_iff.mpr ⟨_, hStock.row?_eq e hEntry, EntryRow.read_ofEntry e⟩)

/-- Every entry that runs once runs twice if it is updated with a copy from before it ran. -/
theorem exists_twice_of_copy (hStock : store.Stocks entries) (hEntry : e ∈ entries)
    (hOnce : e.interval = none)
    (hStart : e.start ≤ clock) (hNow : clock < Int64.maxValue) (priority : Int32) :
    ∃ history, (({ store, clock } : Scene) :: history).IsChain (Operation False) ∧
      ∃ s ∈ history, ¬ s.RunsNoTickTwice := by
  have hFresh := hStock.fresh e hEntry
  have hBreaker : ({} : LoopSetup).settings.maxConsecutiveFailures = none := rfl
  obtain ⟨τ, hTask⟩ := exists_dueTask hFresh hStart hNow
  let loaded : Scene := { store, clock, copies := [e] }
  obtain ⟨tasks, t, hPass, hShown, hτ, hSettled, hBelow⟩ :=
    exists_first quiet_quietens quiet_responsive hBreaker hNow hStock hEntry hTask
      (.self (s := loaded) hStock.tables)
  -- the copy is written over the cursor of an entry that has no tick left
  have hCopies : t.copies = [e] := copies_of_leads hPass
  obtain ⟨u, edited, hUpdate, hRewrites, hTable, hStop, hInterval, hActive, hTime⟩ :=
    exists_updates hFresh (e.moves_settled clock) (hCopies ▸ List.mem_cons_self) hShown.entries
      hSettled priority
  rw [Entry.nextTaskTime_settled hOnce] at hTime
  have hEdited : Shows edited.row? clock tasks { t with store := edited } :=
    ⟨fun _ => rfl, hTable, hRewrites.results_eq ▸ hShown.results, hShown.clock_eq, hShown.executed_eq⟩
  have hOpen : Rows.IsOpen edited.row? := (hBelow.of_writeUpdate hRewrites).mono (by decide)
  have hFlag : EntryRow.flag u.isActive = 1 :=
    hActive ▸ (EntryRow.activeFlag_ofEntry e).mpr hFresh.isActive
  obtain ⟨v, hSecond, -, hTwice⟩ := exists_repeat quiet_quietens quiet_responsive hBreaker hNow hFresh
    hTask hτ hOpen (hRewrites.found hSettled) hFlag hStop hInterval hTime hEdited
  refine ⟨[loaded, t, { t with store := edited }, v], ?_, v, by simp, hTwice⟩
  exact .cons_cons (loads hStock hEntry) <| .cons_cons (.pass {} hPass) <| .cons_cons (.update hUpdate) <|
    .cons_cons (.pass {} hSecond) <| .singleton v

end

/-! ### When histories are sound -/

/-- Old copies do no harm as long as none of them brings an entry back: no tick of an entry runs twice,
and entries that were deactivated, by hand or because nothing was left of them, stay so. Only an update
with the copy of an active entry that is not active any more breaks one of the two. -/
theorem history_sound_iff {store : Store} {entries : List Entry} {clock : Tick} {history : List Scene}
    (hDrafts : ∀ e ∈ entries, ∃ draft now known stamp, Draft.toEntry draft now known stamp = .ok e)
    (hStore : entries.foldlM Store.insertEntry .empty = .ok store)
    (hCourse : (({ store, clock } : Scene) :: history).IsChain (Operation faulty)) :
    ((∀ s ∈ ({ store, clock } : Scene) :: history, s.RunsNoTickTwice) ∧
        (({ store, clock } : Scene) :: history).Pairwise StaysIdle) ↔
      (({ store, clock } : Scene) :: history).IsChain fun s t => ¬ Revives s t := by
  constructor
  · rintro ⟨-, hStays⟩
    exact hStays.isChain.imp fun s t hStays hRevives => hRevives.not_staysIdle hStays
  · intro hOrder
    have hStart : Sound { store, clock } := .of_stocks (Store.stocks_of_drafts hDrafts hStore) clock
    obtain ⟨hSound, hSettles⟩ := hStart.along hCourse hOrder
    have : Trans Settles Settles Settles := ⟨Settles.trans⟩
    exact ⟨fun s hs => (hSound s hs).ticks.once, hSettles.pairwise.imp Settles.staysIdle⟩

/-- Where the entries that there are copies of are active, there is none to bring back. -/
theorem not_revives
    (hActive : ∀ copy ∈ s.copies, ∀ row, s.store.row? copy.name = some row → row.activeFlag = 1) :
    ¬ Revives s t := by
  rintro ⟨copy, row, hUpdate, -, hRow, hIdle⟩
  have hOn := hActive copy hUpdate.1 row hRow
  rw [hIdle] at hOn
  cases hOn

/-- The first tick of an entry runs; then the entry is updated with a copy from before. -/
theorem history_sound_of_beat : ∃ beat store history,
    Draft.toEntry ⟨"job", "beep", none, some 1, none, false, some 10, none, none⟩ 1 (· == "beep") "now" =
        .ok beat ∧
      [beat].foldlM Store.insertEntry .empty = .ok store ∧
      (({ store, clock := 1 } : Scene) :: history).IsChain (Operation False) ∧
      (∃ s ∈ history, s.executed ≠ []) ∧
      (∀ s ∈ ({ store, clock := 1 } : Scene) :: history, s.RunsNoTickTwice) ∧
      (({ store, clock := 1 } : Scene) :: history).Pairwise StaysIdle := by
  obtain ⟨beat, store, hBeat, hStore, hStart, hOn⟩ : ∃ beat store,
      Draft.toEntry ⟨"job", "beep", none, some 1, none, false, some 10, none, none⟩ 1 (· == "beep") "now" =
          .ok beat ∧
        [beat].foldlM Store.insertEntry .empty = .ok store ∧ beat.start = 1 ∧
        (beat.settled 1).isActive = true := ⟨_, _, rfl, rfl, rfl, rfl⟩
  have hDrafts : ∀ e ∈ [beat], ∃ draft now known stamp, Draft.toEntry draft now known stamp = .ok e :=
    fun e hEntry => ⟨_, _, _, _, List.mem_singleton.mp hEntry ▸ hBeat⟩
  have hStock := Store.stocks_of_drafts hDrafts hStore
  have hEntry : beat ∈ [beat] := List.mem_cons_self
  have hFresh := hStock.fresh beat hEntry
  have hNow : (1 : Tick) < Int64.maxValue := by decide
  have hBreaker : ({} : LoopSetup).settings.maxConsecutiveFailures = none := rfl
  obtain ⟨τ, hTask⟩ := exists_dueTask hFresh (Int64.le_of_eq hStart) hNow
  let loaded : Scene := { store, clock := 1, copies := [beat] }
  obtain ⟨tasks, t, hPass, hShown, hτ, hSettled, -⟩ :=
    exists_first quiet_quietens quiet_responsive hBreaker hNow hStock hEntry hTask
      (.self (s := loaded) hStock.tables)
  have hCopies : t.copies = [beat] := copies_of_leads hPass
  obtain ⟨-, edited, hUpdate, -⟩ :=
    exists_updates hFresh (beat.moves_settled 1) (hCopies ▸ hEntry) hShown.entries hSettled 5
  have hCourse : (({ store, clock := 1 } : Scene) :: [loaded, t, { t with store := edited }]).IsChain
      (Operation False) :=
    .cons_cons (loads hStock hEntry) <| .cons_cons (.pass {} hPass) <| .cons_cons (.update hUpdate) <|
      .singleton _
  have hFirst : ¬ Revives loaded t := by
    refine not_revives fun copy hCopy row hRow => ?_
    obtain rfl := List.mem_singleton.mp hCopy
    obtain rfl := Option.some.inj (hRow.symm.trans (hStock.row?_eq copy hEntry))
    exact (EntryRow.activeFlag_ofEntry copy).mpr hFresh.isActive
  have hSecond : ¬ Revives t { t with store := edited } := by
    refine not_revives fun copy hCopy row hRow => ?_
    obtain rfl := List.mem_singleton.mp (hCopies ▸ hCopy)
    obtain rfl := Option.some.inj (hRow.symm.trans hSettled)
    exact (EntryRow.activeFlag_ofEntry _).mpr hOn
  have hOrder : (({ store, clock := 1 } : Scene) :: [loaded, t, { t with store := edited }]).IsChain
      fun s t => ¬ Revives s t :=
    .cons_cons (not_revives nofun) <| .cons_cons hFirst <| .cons_cons hSecond <| .singleton _
  refine ⟨beat, store, _, hBeat, hStore, hCourse, ⟨t, by simp, ?_⟩,
    (history_sound_iff hDrafts hStore hCourse).mpr hOrder⟩
  rw [hShown.executed_eq]
  exact List.ne_nil_of_mem hτ

/-- A copy is made of an entry that runs once; it runs, is updated with the copy, and runs again. -/
theorem once_runs_twice : ∃ once store history,
    Draft.toEntry ⟨"job", "beep", none, some 1, none, false, none, none, none⟩ 1 (· == "beep") "now" =
        .ok once ∧
      [once].foldlM Store.insertEntry .empty = .ok store ∧
      (({ store, clock := 1 } : Scene) :: history).IsChain (Operation False) ∧
      ∃ s ∈ history, ¬ s.RunsNoTickTwice := by
  obtain ⟨once, store, hOnce, hStore, hInterval, hStart⟩ : ∃ once store,
      Draft.toEntry ⟨"job", "beep", none, some 1, none, false, none, none, none⟩ 1 (· == "beep") "now" =
          .ok once ∧
        [once].foldlM Store.insertEntry .empty = .ok store ∧ once.interval = none ∧ once.start = 1 :=
    ⟨_, _, rfl, rfl, rfl, rfl⟩
  have hStock := Store.stocks_of_drafts
    (fun e hEntry => ⟨_, _, _, _, List.mem_singleton.mp hEntry ▸ hOnce⟩) hStore
  have hDue : once.start ≤ 1 := Int64.le_of_eq hStart
  obtain ⟨history, hCourse, hTwice⟩ :=
    exists_twice_of_copy hStock List.mem_cons_self hInterval hDue (by decide) 5
  exact ⟨once, store, history, hOnce, hStore, hCourse, hTwice⟩

end TickScheduler.Scene
