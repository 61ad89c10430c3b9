import TickScheduler.Proofs.Engine.Rehearsal
import TickScheduler.Proofs.Entry.Series
/-!
Updates between passes. A change of start or interval starts a series over, and so takes its cursor back
or forward; other changes let the entry out of the schedule and in again. Still no tick comes a second
time, and none in the past: a cursor is ahead of all that was run, as long as the entry may run again at
all, and it starts over only in the future.
-/
namespace TickScheduler

namespace Entry

/-- An update brings an entry back that has run its only tick or was taken out before it. -/
def Reawakens (e updated : Entry) : Prop :=
  e.isActive = false ∧ e.interval = none ∧ updated.isActive = true ∧ updated.start = e.start ∧
    updated.interval = e.interval

/-- An update changes when an entry runs, its stop apart. -/
def Reschedules (e updated : Entry) : Prop :=
  updated.start ≠ e.start ∨ updated.interval ≠ e.interval

end Entry

/-- The entry is active, or can become so with its cursor where it is. -/
def EntryRow.MayRun (row : EntryRow) : Prop :=
  row.activeFlag ≠ 0 ∨ row.interval ≠ none

namespace Scene

/-- The ticks that were executed of an entry, in order. -/
def ticksOf (s : Scene) (name : String) : List Tick :=
  (s.executed.filter (·.entryName = name)).map Task.time

/-- Nobody edits an entry; everything else goes on. -/
def unedited : Conduct Request Request.Answer Scene where
  answers := Answers True
  moves := Elapses True

/-- The update of an entry that has just been read. -/
def Revises (s : Scene) (e updated : Entry) (t : Scene) : Prop :=
  s.store.getEntry updated.name = .ok e ∧ ∃ u stamp store,
    s.store.updateEntry updated s.clock stamp = .ok (u, store) ∧ t = { s with store }

/-- One whole pass or update, or what happens between two of them. An update that fails does nothing. -/
inductive Continues : Scene → Scene → Prop where
  | elapse {s t : Scene} (hElapses : Elapses True s t) : Continues s t
  | pass {s t : Scene} {result : Except Failure Unit} (setup : LoopSetup)
      (hPass : Program.Leads unedited (ExceptT.run (Pass.runOnce setup)) s (.done result) t) : Continues s t
  | update {s t : Scene} {e updated : Entry} (hRevises : Revises s e updated t)
      (hAsleep : ¬ e.Reawakens updated) : Continues s t

variable {s t u : Scene} {name : String}

theorem ticksOf_congr (h : t.executed = s.executed) : t.ticksOf name = s.ticksOf name := by
  rw [ticksOf, ticksOf, h]

theorem ticksOf_called (s : Scene) (τ : Task) (name : String) :
    (s.note (.called τ)).ticksOf name = s.ticksOf name ++ if τ.entryName = name then [τ.time] else [] := by
  have hExecuted : (s.note (.called τ)).executed = s.executed ++ [τ] := executed_note s (.called τ)
  unfold ticksOf
  rw [hExecuted, List.filter_append, List.map_append]
  by_cases hName : τ.entryName = name <;> simp [hName]

/-! ### What is behind an entry -/

/-- Ticks that an entry may not come back to: those that were executed, and the clock at one of its
updates if that is what one looks at. -/
def spent (name : String) (mark : Option Tick) (s : Scene) : List Tick :=
  mark.toList ++ s.ticksOf name

/-- An entry is past what is spent. Only the ticks of `before` were executed up to the mark. -/
structure Ahead (name : String) (mark : Option Tick) (before : List Tick) (s : Scene) : Prop where
  increasing : (s.ticksOf name).Pairwise (· < ·)
  le_clock : ∀ tick ∈ s.spent name mark, tick ≤ s.clock
  behind : ∀ row, s.store.row? name = some row → row.MayRun →
    ∀ tick ∈ s.spent name mark, tick < row.nextTaskTime
  since : ∃ later, s.ticksOf name = before ++ later ∧ ∀ tick ∈ later, ∀ c ∈ mark, c < tick

/-- A task may be executed: it is due, past what is spent, and behind the cursor. -/
structure Poised (name : String) (mark : Option Tick) (τ : Task) (s : Scene) : Prop where
  later : ∀ tick ∈ s.spent name mark, tick < τ.time
  le_clock : τ.time ≤ s.clock
  behind : ∀ row, s.store.row? name = some row → row.MayRun → τ.time < row.nextTaskTime

variable {mark : Option Tick} {before : List Tick} {τ : Task}

theorem spent_congr (h : t.executed = s.executed) : t.spent name mark = s.spent name mark := by
  rw [spent, spent, ticksOf_congr h]

theorem Ahead.frame (hRow : t.store.row? name = s.store.row? name) (hExecuted : t.executed = s.executed)
    (hClock : s.clock ≤ t.clock) (h : s.Ahead name mark before) : t.Ahead name mark before where
  increasing := by
    rw [ticksOf_congr hExecuted]
    exact h.increasing
  le_clock tick hTick := by
    rw [spent_congr hExecuted] at hTick
    exact Int64.le_trans (h.le_clock tick hTick) hClock
  behind row hNow hMay tick hTick := by
    rw [spent_congr hExecuted] at hTick
    exact h.behind row (hRow.symm.trans hNow) hMay tick hTick
  since := by
    rw [ticksOf_congr hExecuted]
    exact h.since

theorem Poised.frame (hRow : t.store.row? name = s.store.row? name) (hExecuted : t.executed = s.executed)
    (hClock : s.clock ≤ t.clock) (h : s.Poised name mark τ) : t.Poised name mark τ where
  later tick hTick := by
    rw [spent_congr hExecuted] at hTick
    exact h.later tick hTick
  le_clock := Int64.le_trans h.le_clock hClock
  behind row hNow hMay := h.behind row (hRow.symm.trans hNow) hMay

/-- A row may change as long as the cursor of an entry that may run is past what is spent. -/
theorem Ahead.rewritten (hExecuted : t.executed = s.executed) (hClock : t.clock = s.clock)
    (hBehind : ∀ row, t.store.row? name = some row → row.MayRun →
      ∀ tick ∈ s.spent name mark, tick < row.nextTaskTime)
    (h : s.Ahead name mark before) : t.Ahead name mark before where
  increasing := by
    rw [ticksOf_congr hExecuted]
    exact h.increasing
  le_clock tick hTick := by
    rw [spent_congr hExecuted] at hTick
    rw [hClock]
    exact h.le_clock tick hTick
  behind := by
    rw [spent_congr hExecuted]
    exact hBehind
  since := by
    rw [ticksOf_congr hExecuted]
    exact h.since

theorem Ahead.called (hName : τ.entryName = name) (hPoised : s.Poised name mark τ)
    (h : s.Ahead name mark before) : (s.note (.called τ)).Ahead name mark before := by
  have hTicks : (s.note (.called τ)).ticksOf name = s.ticksOf name ++ [τ.time] := by
    rw [ticksOf_called, if_pos hName]
  have hSpent : (s.note (.called τ)).spent name mark = s.spent name mark ++ [τ.time] := by
    rw [spent, hTicks, spent, List.append_assoc]
  obtain ⟨later, hLater, hSince⟩ := h.since
  constructor
  · rw [hTicks]
    refine List.pairwise_append.mpr
      ⟨h.increasing, List.pairwise_singleton _ _, fun tick hTick other hOther => ?_⟩
    obtain rfl := List.mem_singleton.mp hOther
    exact hPoised.later tick (List.mem_append_right _ hTick)
  · rw [hSpent]
    exact List.forall_mem_append.mpr ⟨h.le_clock, List.forall_mem_singleton.mpr hPoised.le_clock⟩
  · rw [hSpent]
    exact fun row hRow hMay => List.forall_mem_append.mpr
      ⟨h.behind row hRow hMay, List.forall_mem_singleton.mpr (hPoised.behind row hRow hMay)⟩
  · refine ⟨later ++ [τ.time], by rw [hTicks, hLater, List.append_assoc], ?_⟩
    refine List.forall_mem_append.mpr ⟨hSince, List.forall_mem_singleton.mpr fun c hMark => ?_⟩
    exact hPoised.later c (List.mem_append_left _ (Option.mem_toList.mpr hMark))

/-! ### What a pass keeps -/

/-- What holds of an entry while a pass is under way. -/
structure Steers (name : String) (mark : Option Tick) (before : List Tick) (φ : Course) (s : Scene) :
    Prop where
  names : φ.names.Nodup
  time_le : φ.time ≤ s.clock
  ahead : s.Ahead name mark before
  held : ∀ e ∈ φ.held, e.name = name → e.isActive = true ∧
    ∃ row, s.store.row? name = some row ∧ e = row.toEntry
  ready : ∀ τ ∈ φ.ready, τ.entryName = name → s.Poised name mark τ
  current : ∀ τ headway, φ.current = some (τ, headway) → headway ≠ .called → τ.entryName = name →
    s.Poised name mark τ

variable {φ : Course} {setup : LoopSetup} {r : Request} {a : r.Answer}

theorem Steers.moved (hElapses : Elapses True s t) (h : s.Steers name mark before φ) :
    t.Steers name mark before φ := by
  have hRow : t.store.row? name = s.store.row? name := Store.row?_congr hElapses.entries_eq name
  have hFrame {τ : Task} (hPoised : s.Poised name mark τ) : t.Poised name mark τ :=
    hPoised.frame hRow hElapses.executed_eq hElapses.clock_le
  refine ⟨h.names, Int64.le_trans h.time_le hElapses.clock_le,
    h.ahead.frame hRow hElapses.executed_eq hElapses.clock_le, ?_,
    fun τ hτ hName => hFrame (h.ready τ hτ hName),
    fun τ headway hCurrent hOpen hName => hFrame (h.current τ headway hCurrent hOpen hName)⟩
  rw [hRow]
  exact h.held

/-- What the cursor of an entry is, once what is due is taken off and saved. -/
theorem nextTaskTime_of_saved {e f : Entry} {row : EntryRow} {now : Tick} {task : Option Task}
    (hConsume : e.consume now = .ok (task, f)) (hEntry : e = row.toEntry)
    (hMay : (row.withCursor f).MayRun) :
    (row.withCursor f).nextTaskTime = f.nextTaskTime ∧ ∀ τ, task = some τ → τ.time < f.nextTaskTime := by
  have hConsumes := Entry.consumes_of_consume hConsume
  have hVersion : row.modifiedAt = f.modifiedAt := by
    rw [hConsumes.moves.modifiedAt_eq, hEntry]
    rfl
  have hSaved : row.withCursor f = { row with
      nextTaskTime := f.nextTaskTime
      nextTaskId := f.nextTaskId
      activeFlag := EntryRow.flag (row.activeFlag != 0 && f.isActive) } := if_pos hVersion
  rw [hSaved] at hMay ⊢
  refine ⟨rfl, ?_⟩
  rintro τ rfl
  rcases hMay with hActive | hRecurring
  · have hOn : f.isActive = true := by
      by_contra hOff
      simp [EntryRow.flag, hOff] at hActive
    exact (hConsumes.takes τ rfl).time_lt hOn
  · subst hEntry
    obtain ⟨interval, hInterval⟩ := Option.ne_none_iff_exists'.mp hRecurring
    exact Entry.time_lt_of_recurring hConsume hInterval

/-- A cursor that is saved keeps its entry ahead, and what was taken off is ready. -/
theorem Ahead.saved {e f : Entry} {now : Tick} {task : Option Task} {row : EntryRow}
    (hConsume : e.consume now = .ok (task, f)) (hNow : now ≤ s.clock)
    (hActive : e.isActive = true) (hRow : s.store.row? name = some row) (hEntry : e = row.toEntry)
    (hRewrites : s.store.Rewrites name (·.withCursor f) t.store) (hExecuted : t.executed = s.executed)
    (hClock : t.clock = s.clock) (h : s.Ahead name mark before) :
    t.Ahead name mark before ∧ ∀ τ, task = some τ → t.Poised name mark τ := by
  have hConsumes := Entry.consumes_of_consume hConsume
  have hOpen : row.MayRun := .inl (by simpa [hEntry, EntryRow.toEntry] using hActive)
  have hCursor : ∀ tick ∈ s.spent name mark, tick < e.nextTaskTime := by
    rw [hEntry]
    exact h.behind row hRow hOpen
  have hStored (now : EntryRow) (hNow : t.store.row? name = some now) : now = row.withCursor f := by
    rw [hRewrites.found hRow] at hNow
    exact (Option.some.inj hNow).symm
  refine ⟨h.rewritten hExecuted hClock fun after hAfter hMay tick hTick => ?_, fun τ hTask => ?_⟩
  · obtain rfl := hStored after hAfter
    obtain ⟨hTime, hTaken⟩ := nextTaskTime_of_saved hConsume hEntry hMay
    rw [hTime]
    cases hTask : task with
    | none => exact (hConsumes.idle hTask).1 ▸ hCursor tick hTick
    | some τ =>
        exact Std.lt_trans (Std.lt_of_lt_of_le (hCursor tick hTick) (hConsumes.takes τ hTask).le_time)
          (hTaken τ hTask)
  · have hTakes := hConsumes.takes τ hTask
    refine ⟨fun tick hTick => ?_, ?_, fun after hAfter hMay => ?_⟩
    · rw [spent_congr hExecuted] at hTick
      exact Std.lt_of_lt_of_le (hCursor tick hTick) hTakes.le_time
    · rw [hClock]
      exact Int64.le_trans hTakes.time_le hNow
    · obtain rfl := hStored after hAfter
      obtain ⟨hTime, hTaken⟩ := nextTaskTime_of_saved hConsume hEntry hMay
      rw [hTime]
      exact hTaken τ hTask

/-- Requests that neither save a cursor nor call an action leave the entry where it is. -/
theorem Steers.answered (hAnswer : Answers True r s a t) (hSave : ∀ f, r ≠ .saveCursor f)
    (hCall : ∀ τ id, r ≠ .call τ id) (h : s.Steers name mark before φ) :
    t.Steers name mark before (φ.after r a) := by
  have hRow : t.store.row? name = s.store.row? name :=
    Store.row?_congr (entries_of_answers hAnswer hSave) name
  have hExecuted := executed_of_answers hAnswer hCall
  have hClock : s.clock ≤ t.clock := Int64.le_of_eq (clock_of_answers hAnswer).symm
  have hFrame {τ : Task} (hPoised : s.Poised name mark τ) : t.Poised name mark τ :=
    hPoised.frame hRow hExecuted hClock
  refine ⟨Course.names_after (sensible_of_answers hAnswer) h.names, ?_, h.ahead.frame hRow hExecuted hClock,
    ?_, ?_, ?_⟩
  · by_cases hNow : r = .now
    · subst hNow
      obtain ⟨rfl, rfl⟩ := hAnswer
      exact Int64.le_refl _
    · rw [Course.time_after hNow]
      exact Int64.le_trans h.time_le hClock
  · intro e hHeld hName
    by_cases hSnapshot : r = .activeEntries
    · subst hSnapshot
      cases a with
      | error => cases hHeld
      | ok entries =>
          obtain ⟨rfl, -, hRows⟩ := snapshot_answer hAnswer
          obtain ⟨row, hStored, hFlag, rfl⟩ := hRows e hHeld
          exact ⟨by simp [EntryRow.toEntry, hFlag], row, hName ▸ hStored, rfl⟩
    · rw [hRow]
      exact h.held e (Course.held_after_subset hSnapshot hHeld) hName
  · exact fun τ hτ hName => hFrame (h.ready τ (Course.ready_after_subset hSave hτ) hName)
  · intro τ headway hCurrent hOpen hName
    rcases Course.current_after hCurrent hOpen with hReady | ⟨earlier, hEarlier, hBefore⟩
    · exact hFrame (h.ready τ hReady hName)
    · exact hFrame (h.current τ earlier hBefore hEarlier hName)

theorem Steers.called {id : TaskId} {outcome : Outcome} (hCurrent : φ.current = some (τ, .opened))
    (h : s.Steers name mark before φ) :
    (s.note (.called τ)).Steers name mark before (φ.after (.call τ id) outcome) := by
  obtain ⟨hHeld, hReady⟩ := Course.name_ne_of_current h.names hCurrent
  have hNone {σ : Task} {headway : Headway}
      (hStill : (φ.after (.call τ id) outcome).current = some (σ, headway)) : headway = .called := by
    simp only [Course.after, hCurrent, Option.map_some, Option.some.injEq, Prod.mk.injEq] at hStill
    exact hStill.2.symm
  refine ⟨Course.names_after trivial h.names, h.time_le, ?_, h.held, fun σ hσ hName => ?_,
    fun σ headway hStill hOpen => absurd (hNone hStill) hOpen⟩
  · by_cases hName : τ.entryName = name
    · exact h.ahead.called hName (h.current τ .opened hCurrent (by simp) hName)
    · have hTicks : (s.note (.called τ)).ticksOf name = s.ticksOf name := by
        rw [ticksOf_called, if_neg hName, List.append_nil]
      obtain ⟨hIncreasing, hLe, hBehind, hSince⟩ := h.ahead
      refine ⟨?_, ?_, ?_, ?_⟩
      · rwa [hTicks]
      · rw [spent, hTicks]
        exact hLe
      · rw [spent, hTicks]
        exact hBehind
      · rwa [hTicks]
  · have hOther : τ.entryName ≠ name := fun hSame => hReady σ hσ (hName.trans hSame.symm)
    obtain ⟨hLater, hLe, hBehind⟩ := h.ready σ hσ hName
    refine ⟨?_, hLe, hBehind⟩
    rw [spent, ticksOf_called, if_neg hOther, List.append_nil]
    exact hLater

theorem Steers.saved {f : Entry} {answer : Except Error Unit} (hTakes : φ.Takes f)
    (hAnswer : Answers True (.saveCursor f) s answer t) (h : s.Steers name mark before φ) :
    t.Steers name mark before (φ.after (.saveCursor f) answer) := by
  have hNone := hTakes.counted_eq
  obtain ⟨e, rest, -, hHeld, hConsume⟩ := hTakes
  have hSense : Course.Sensible (.saveCursor f) answer := trivial
  rcases Writes.cases hAnswer with ⟨store, hStore, rfl, rfl⟩ | ⟨fault, rfl, rfl⟩
  · have hNameF := (Entry.consumes_of_consume hConsume).moves.name_eq
    have hRewrites := hNameF ▸ Store.rewrites_of_saveCursor hStore
    have hAfter : φ.after (.saveCursor f) (.ok ()) =
        { φ with held := rest, ready := φ.ready ++ φ.due.toList } := by
      simp [Course.after, hNone, hHeld]
    have hNames := Course.names_after (φ := φ) hSense h.names
    have hDueName {τ : Task} (hτ : τ ∈ φ.due.toList) : τ.entryName = e.name :=
      Course.entryName_of_due hHeld (Option.mem_toList.mp hτ)
    rw [hAfter] at hNames ⊢
    by_cases hName : e.name = name
    · obtain ⟨hActive, row, hRow, hEntry⟩ := h.held e (by simp [hHeld]) hName
      obtain ⟨hReady, hCurrent⟩ := Course.name_ne_of_others h.names hHeld
      obtain ⟨hAhead, hTaken⟩ := h.ahead.saved (t := { s with store }) hConsume h.time_le hActive hRow hEntry
        (hName ▸ hRewrites) rfl rfl
      refine ⟨hNames, h.time_le, hAhead, fun other hOther hSame => ?_, fun τ hτ hSame => ?_,
        fun τ headway hStill _ hSame => absurd (hSame.trans hName.symm) (hCurrent τ headway hStill)⟩
      · exact absurd (hSame.trans hName.symm) (Course.name_ne_of_held h.names hHeld hOther)
      · rcases List.mem_append.mp hτ with hOld | hDue
        · exact absurd (hSame.trans hName.symm) (hReady τ hOld)
        · exact hTaken τ (Option.mem_toList.mp hDue)
    · have hRow : store.row? name = s.store.row? name := hRewrites.other (Ne.symm hName)
      have hClock := Int64.le_refl s.clock
      refine ⟨hNames, h.time_le, h.ahead.frame (t := { s with store }) hRow rfl hClock,
        fun other hOther hSame => ?_, fun τ hτ hSame => ?_, fun τ headway hStill hOpen hSame =>
          (h.current τ headway hStill hOpen hSame).frame (t := { s with store }) hRow rfl hClock⟩
      · change _ ∧ ∃ row, store.row? name = some row ∧ _
        rw [hRow]
        exact h.held other (hHeld ▸ List.mem_cons_of_mem e hOther) hSame
      · rcases List.mem_append.mp hτ with hOld | hDue
        · exact (h.ready τ hOld hSame).frame (t := { s with store }) hRow rfl hClock
        · exact absurd ((hDueName hDue).symm.trans hSame) hName
  · refine ⟨Course.names_after hSense h.names, h.time_le, h.ahead, ?_, ?_, ?_⟩
    · rintro _ ⟨⟩
    · rintro _ ⟨⟩
    · rintro _ _ ⟨⟩

theorem Ahead.of_pass {result : Except Failure Unit}
    (hPass : Program.Leads unedited (ExceptT.run (Pass.runOnce setup)) s (.done result) t)
    (h : s.Ahead name mark before) : t.Ahead name mark before := by
  have hStart : s.Steers name mark before { time := s.clock } :=
    ⟨.nil, Int64.le_refl _, h, nofun, nofun, nofun⟩
  have hAnswered {φ : Course} {r : Request} {s : Scene} {a : r.Answer} {t : Scene}
      (hPermits : φ.Permits setup False r) (hAnswer : Answers True r s a t)
      (hSteers : s.Steers name mark before φ) : t.Steers name mark before (φ.after r a) := by
    by_cases hSave : ∃ f, r = .saveCursor f
    · obtain ⟨f, rfl⟩ := hSave
      have hTakes : (False ∧ φ.Restores f) ∨ φ.Takes f := hPermits
      exact hSteers.saved (hTakes.resolve_left And.left) hAnswer
    by_cases hCall : ∃ τ id, r = .call τ id
    · obtain ⟨τ, id, rfl⟩ := hCall
      obtain rfl : t = s.note (.called τ) := hAnswer
      exact hSteers.called hPermits.1
    · exact hSteers.answered hAnswer (not_exists.mp hSave) fun τ id hSame => hCall ⟨τ, id, hSame⟩
  have hObeys : Course.Keeps setup False (Pass.runOnce setup) (fun _ _ => True) { time := s.clock } :=
    Course.keeps_runOnce
  obtain ⟨φ, hEnd, -⟩ := Program.Obeys.of_leads (fun φ s => s.Steers name mark before φ)
    (fun hMove h => h.moved hMove)
    (fun hPermits hAnswer h => ⟨sensible_of_answers hAnswer, hAnswered hPermits hAnswer h⟩)
    hPass hObeys hStart
  exact hEnd.ahead

/-! ### What updates keep -/

/-- The row of an entry after an update of it: the cursor stays, or comes after the clock. -/
theorem Revises.row {e updated : Entry} (hRevises : Revises s e updated t) :
    ∃ row u, s.store.Updates updated s.clock row u t.store ∧ e = row.toEntry ∧
      t = { s with store := t.store } := by
  obtain ⟨hRead, u, stamp, store, hAnswer, rfl⟩ := hRevises
  obtain ⟨row, hUpdates⟩ := Store.updates_of_updateEntry hAnswer
  exact ⟨row, u, hUpdates, Except.ok.inj (hRead.symm.trans hUpdates.read), rfl⟩

theorem Ahead.of_revises {e updated : Entry} (hRevises : Revises s e updated t)
    (hAsleep : ¬ e.Reawakens updated) (h : s.Ahead name mark before) : t.Ahead name mark before := by
  obtain ⟨row, u, hUpdates, rfl, hSame⟩ := hRevises.row
  have hExecuted : t.executed = s.executed := by rw [hSame]; rfl
  have hClock : t.clock = s.clock := by rw [hSame]
  refine h.rewritten hExecuted hClock fun now hNow hMay tick hTick => ?_
  rcases hUpdates.rewrites.source hNow with ⟨-, hOld⟩ | ⟨rfl, old, hOld, rfl⟩
  · exact h.behind now hOld hMay tick hTick
  · obtain rfl := Option.some.inj (hUpdates.stored.symm.trans hOld)
    change tick < u.nextTaskTime
    by_cases hTiming : updated.start = row.start ∧ updated.interval = row.interval
    · rw [hUpdates.kept hTiming]
      refine h.behind row hOld ?_ tick hTick
      -- an entry that may run again could run before, or else the update has brought it back
      by_contra hIdle
      obtain ⟨hOff, hOnce⟩ := not_or.mp hIdle
      rw [not_ne_iff] at hOff hOnce
      have hOn : updated.isActive = true := by
        rcases hMay with hFlag | hRecurring
        · by_contra hStill
          simp [EntryRow.withUpdate, hUpdates.isActive_eq, EntryRow.flag, hStill] at hFlag
        · exact absurd (hUpdates.interval_eq.trans (hTiming.2.trans hOnce)) hRecurring
      exact hAsleep ⟨by simp [EntryRow.toEntry, hOff], hOnce, hOn, hTiming⟩
    · exact Std.lt_of_le_of_lt (h.le_clock tick hTick) (hUpdates.restarted hTiming)

/-- From an update of its timing on, the clock at that time is spent. -/
theorem Ahead.marked {e updated : Entry} (hRevises : Revises s e updated t) (hName : updated.name = name)
    (hTiming : e.Reschedules updated) (h : s.Ahead name mark before) :
    t.Ahead name (some s.clock) (t.ticksOf name) := by
  obtain ⟨row, u, hUpdates, rfl, hSame⟩ := hRevises.row
  have hOther : ¬ (updated.start = row.start ∧ updated.interval = row.interval) :=
    fun hBoth => hTiming.elim (fun hStart => hStart hBoth.1) fun hInterval => hInterval hBoth.2
  have hTicks : t.ticksOf name = s.ticksOf name := by
    rw [hSame]
    rfl
  have hSpent : ∀ tick ∈ t.spent name (some s.clock), tick ≤ s.clock := by
    rw [spent, hTicks]
    refine List.forall_mem_append.mpr ⟨List.forall_mem_singleton.mpr (Int64.le_refl _), fun tick hTick => ?_⟩
    exact h.le_clock tick (List.mem_append_right _ hTick)
  refine ⟨?_, ?_, fun now hNow _ tick hTick => ?_, [], (List.append_nil _).symm, nofun⟩
  · rw [hTicks]
    exact h.increasing
  · rw [show t.clock = s.clock by rw [hSame]]
    exact hSpent
  · obtain rfl := Option.some.inj ((hUpdates.rewrites.found hUpdates.stored).symm.trans (hName ▸ hNow))
    exact Std.lt_of_le_of_lt (hSpent tick hTick) (hUpdates.restarted hOther)

/-! ### Whole histories -/

theorem Ahead.step (hStep : Continues s t) (h : s.Ahead name mark before) : t.Ahead name mark before := by
  cases hStep with
  | elapse hElapses =>
      exact h.frame (Store.row?_congr hElapses.entries_eq name) hElapses.executed_eq hElapses.clock_le
  | pass setup hPass => exact h.of_pass hPass
  | update hRevises hAsleep => exact h.of_revises hRevises hAsleep

theorem Ahead.along (hSteps : Relation.ReflTransGen Continues s t) (h : s.Ahead name mark before) :
    t.Ahead name mark before := by
  induction hSteps with
  | refl => exact h
  | tail _ last ih => exact ih.step last

/-- Whatever passes and updates follow on each other, the executed ticks of an entry increase, and after a
change of its start or interval all of them come after the clock at that time. Updates are of the entry as
it is stored at that time, and none of them makes it active again if it runs once and its timing stays. How
the entry has come into the store does not matter, as long as nothing of it has been executed. -/
theorem ticks_increase_across_updates (hNew : s.ticksOf name = []) :
    (∀ t, Relation.ReflTransGen Continues s t → (t.ticksOf name).Pairwise (· < ·)) ∧
      ∀ t e updated u v, Relation.ReflTransGen Continues s t → Revises t e updated u →
        updated.name = name → e.Reschedules updated → Relation.ReflTransGen Continues u v →
          ∃ later, v.ticksOf name = u.ticksOf name ++ later ∧ ∀ tick ∈ later, t.clock < tick := by
  have hStart : s.Ahead name none [] := by
    refine ⟨?_, ?_, ?_, [], hNew, nofun⟩
    · rw [hNew]
      exact .nil
    · rw [spent, hNew]
      nofun
    · rw [spent, hNew]
      nofun
  refine ⟨fun t hSteps => (hStart.along hSteps).increasing, ?_⟩
  intro t e updated u v hFirst hRevises hName hTiming hRest
  obtain ⟨later, hLater, hPast⟩ := (((hStart.along hFirst).marked hRevises hName hTiming).along hRest).since
  exact ⟨later, hLater, fun tick hTick => hPast tick hTick t.clock rfl⟩

/-! ### An entry that starts over -/

theorem quiet_within_unedited : quiet.Within unedited where
  answers h := h.mono False.elim
  moves h := .work (h.mono False.elim)

/-- An entry that runs at every tenth tick from the first on. -/
def beat : Entry :=
  Draft.entryFrom ⟨"job", "beep", none, some 1, none, false, some 10, none, none⟩ 1 none "first"

/-- What comes of a pass if every action returns. -/
def passed (s : Scene) : Scene :=
  ((ExceptT.run (Pass.runOnce {})).run (reply fun _ => .returned none) s).2

/-- What comes of an update; nothing if it fails. -/
def revised (updated : Entry) (s : Scene) : Scene :=
  match s.store.updateEntry updated s.clock "second" with
  | .ok (_, store) => { s with store }
  | .error _ => s

theorem continues_passed (s : Scene) : Continues s s.passed :=
  .pass {} ((leads_run _ _ s).mono quiet_within_unedited)

theorem revises_revised {e updated : Entry} (hRead : s.store.getEntry updated.name = .ok e)
    (hOk : (s.store.updateEntry updated s.clock "second").toOption.isSome = true) :
    Revises s e updated (s.revised updated) := by
  unfold revised
  cases hAnswer : s.store.updateEntry updated s.clock "second" with
  | ok answer => exact ⟨hRead, answer.1, "second", answer.2, hAnswer, rfl⟩
  | error fault => simp [hAnswer, Except.toOption] at hOk

def stocked : Scene where
  store := (Store.empty.insertEntry beat).toOption.getD .empty
  clock := 1

/-- The entry is due at its first tick, and then made to start at the fifth. -/
def restarted : Scene :=
  stocked.passed.revised { beat with start := 5 }

theorem restarted_reads : stocked.ticksOf "job" = [] ∧
    (stocked.passed.store.getEntry "job").toOption.map (fun e => (e.start, e.isActive)) = some (1, true) ∧
    (stocked.passed.store.updateEntry { beat with start := 5 } stocked.passed.clock
      "second").toOption.isSome = true ∧
    stocked.passed.ticksOf "job" = [1] ∧ restarted.clock = 1 ∧
    (passed { restarted with clock := 7 }).ticksOf "job" = [1, 5] := by
  -- merge sort does not compute well, putting tasks in one by one does
  unfold restarted passed Pass.runOnce Pass.pass Pass.passOver
  rw [TaskQueue.ofList_eq]
  decide +kernel

/-- An entry made from a draft runs at its first tick, is made to start at another one, and runs again. -/
theorem ticks_increase_of_beat : ∃ s t e updated u v,
    Draft.toEntry ⟨"job", "beep", none, some 1, none, false, some 10, none, none⟩ 1 (· == "beep") "first" =
        .ok beat ∧
      (Store.empty.insertEntry beat).toOption.isSome = true ∧
      s.store = (Store.empty.insertEntry beat).toOption.getD .empty ∧ s.ticksOf "job" = [] ∧
      Relation.ReflTransGen Continues s t ∧ Revises t e updated u ∧ e.Reschedules updated ∧
      Relation.ReflTransGen Continues u v ∧ v.ticksOf "job" = [1, 5] ∧
      (v.ticksOf "job").Pairwise (· < ·) ∧
      ∃ later, v.ticksOf "job" = u.ticksOf "job" ++ later ∧ ∀ tick ∈ later, t.clock < tick := by
  obtain ⟨hNew, hRead, hOk, -, hClock, hTicks⟩ := restarted_reads
  obtain ⟨e, hEntry, hFields⟩ := Option.map_eq_some_iff.mp hRead
  obtain ⟨hStart, hActive⟩ := Prod.mk.inj hFields
  have hEntry : stocked.passed.store.getEntry "job" = .ok e := by
    cases hAnswer : stocked.passed.store.getEntry "job" with
    | ok found =>
        rw [hAnswer] at hEntry
        rw [Option.some.inj hEntry]
    | error fault => simp [hAnswer, Except.toOption] at hEntry
  have hRevises : Revises stocked.passed e { beat with start := 5 } restarted := revises_revised hEntry hOk
  have hTiming : e.Reschedules { beat with start := 5 } := .inl (by rw [hStart]; decide)
  have hFirst : Relation.ReflTransGen Continues stocked stocked.passed := .single (continues_passed _)
  have hRest : Relation.ReflTransGen Continues restarted (passed { restarted with clock := 7 }) :=
    .head (.elapse (.age ⟨7, by rw [hClock]; decide, rfl⟩)) (.single (continues_passed _))
  have hAsleep : ¬ e.Reawakens { beat with start := 5 } :=
    fun h => by simp [Entry.Reawakens, hActive] at h
  obtain ⟨hIncrease, hLater⟩ := ticks_increase_across_updates hNew
  exact ⟨stocked, _, e, _, restarted, _, by decide +kernel, by decide +kernel, rfl, hNew, hFirst, hRevises,
    hTiming, hRest, hTicks, hIncrease _ ((hFirst.tail (.update hRevises hAsleep)).trans hRest),
    hLater _ e _ _ _ hFirst hRevises rfl hTiming hRest⟩

end Scene

end TickScheduler
