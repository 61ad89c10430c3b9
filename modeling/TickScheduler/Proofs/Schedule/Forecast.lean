import TickScheduler.Proofs.Engine.Rehearsal
import TickScheduler.Proofs.Entry.Leftovers
import TickScheduler.Proofs.Schedule.Announcements
import TickScheduler.Proofs.Schedule.Rounds
/-!
The announced tasks come true. What a pass announces is read off the cursors that it leaves, all ticks of
an entry at once; what later passes run is taken off the entries one tick at a time. If there is a pass at
every tick up to the horizon and nobody interferes, the two are the same list.
-/
namespace TickScheduler

/-- The task without its id. -/
def Task.unnumbered (τ : Task) : Task :=
  { τ with taskId := none }

/-- Tasks of different entries stay in order without their ids. -/
theorem Task.unnumbered_le {a b : Task} (h : a ≤ b) (hName : a.entryName ≠ b.entryName) :
    a.unnumbered ≤ b.unnumbered := by
  have hOther : compareOn entryName a b ≠ .eq := fun hSame => hName (Std.LawfulEqCmp.eq_of_compare hSame)
  change ((compareOn time a b).then ((compareOn priority a b).then ((compareOn entryName a b).then _))).isLE =
    true at h
  change ((compareOn time a b).then ((compareOn priority a b).then ((compareOn entryName a b).then _))).isLE =
    true
  cases hNames : compareOn entryName a b with
  | eq => exact absurd hNames hOther
  | lt | gt =>
      rw [hNames] at h
      exact h

/-- The ticks after one and before another. -/
def ticksBetween (now horizon : Tick) : List Tick :=
  (List.range (horizon.toInt - now.toInt - 1).toNat).map fun (n : Nat) => Int64.ofInt (now.toInt + 1 + n)

namespace Entry

/-- How many ids an entry hands out in a pass at `now` and one at every later tick before `horizon`. -/
def idsTaken (e : Entry) (now horizon : Tick) : Nat :=
  ((Tick.succ? now).bind e.latestBefore).toList.length + ((e.settled now).announced horizon).length

variable {e : Entry} {now horizon : Tick}

/-- A look at the clock fails only for want of an id. -/
theorem yields_of_idsTaken (hNow : now < Int64.maxValue)
    (hIds : e.nextTaskId.toInt + e.idsTaken now horizon ≤ Int64.maxValue.toInt) : e.Yields now := by
  obtain ⟨next, hNext⟩ := exists_succ hNow
  cases hLatest : e.latestBefore next with
  | none => simp [Yields, dueTask, settled, consume_eq hNext, hLatest]
  | some last =>
      refine consume_eq_ok hNow (Int64.lt_iff_toInt_lt.mpr ?_)
      simp only [idsTaken, hNext, Option.bind_some, hLatest, Option.toList_some, List.length_singleton] at hIds
      omega

/-- What is left of an entry has ids for what is left of its ticks. -/
theorem nextTaskId_settled_of_idsTaken (hNow : now < Int64.maxValue)
    (hIds : e.nextTaskId.toInt + e.idsTaken now horizon ≤ Int64.maxValue.toInt) :
    (e.settled now).nextTaskId.toInt + ((e.settled now).announced horizon).length ≤
      Int64.maxValue.toInt := by
  obtain ⟨next, hNext⟩ := exists_succ hNow
  have hYields := yields_of_idsTaken hNow hIds
  have hConsumes := hYields.consumes
  rw [idsTaken, hNext, Option.bind_some] at hIds
  cases hDue : e.dueTask now with
  | none =>
      rw [(hConsumes.idle hDue).2.1]
      omega
  | some τ =>
      have hTakes := hConsumes.takes τ hDue
      have hLatest : e.latestBefore next = some τ.time := by
        have hId : e.nextTaskId < Int64.maxValue := by
          have hSucc := hTakes.id_succ
          have hBounds := Tick.toInt_bounds (e.settled now).nextTaskId
          rw [Int64.lt_iff_toInt_lt, Int64.toInt_maxValue]
          omega
        rw [← time_dueTask hNext hId, hDue, Option.map_some]
      rw [hLatest, Option.toList_some, List.length_singleton] at hIds
      rw [hTakes.id_succ]
      omega

end Entry

/-! ### The horizon -/

namespace Pass

variable {entries : List Entry} {now lookahead : Tick}

theorem horizon_le : (horizon entries now lookahead).toInt ≤ now.toInt + (0x8000000000000000 - 1) := by
  have hProduct := Tick.toInt_bounds (Tick.mulClamped (shortestInterval entries) lookahead)
  have hSum := Tick.toInt_addClamped now (Tick.mulClamped (shortestInterval entries) lookahead)
  have hNow := Tick.toInt_bounds now
  rw [horizon, hSum]
  omega

/-- A pass does not move its own horizon. -/
theorem horizon_settled (entries : List Entry) (now lookahead : Tick) :
    horizon (entries.map (·.settled now)) now lookahead = horizon entries now lookahead := by
  have hSame : (fun e : Entry => (e.settled now).interval) = Entry.interval :=
    funext fun e => (e.moves_settled now).interval_eq
  have hIntervals :
      (entries.map (·.settled now)).filterMap Entry.interval = entries.filterMap Entry.interval := by
    rw [List.filterMap_map]
    exact congrArg (entries.filterMap ·) hSame
  rw [horizon, horizon, shortestInterval, shortestInterval, hIntervals]

/-- From what is still to come, the horizon is not too far off. -/
theorem horizon_le_of_lt {next : Tick} (hLater : now < next) :
    (horizon entries now lookahead).toInt ≤ next.toInt + (0x8000000000000000 - 1) := by
  have hHorizon : (horizon entries now lookahead).toInt ≤ now.toInt + (0x8000000000000000 - 1) := horizon_le
  rw [Int64.lt_iff_toInt_lt] at hLater
  omega

/-- Entries that run once are announced as they should be: what is still to come is in reach. -/
theorem isInReach_settled {e : Entry} (hYields : e.Yields now) :
    (e.settled now).IsInReach (horizon entries now lookahead) :=
  fun hActive => Entry.isInReach_of_near
    (horizon_le_of_lt (Entry.lt_nextTaskTime_of_consume hYields hActive)) hActive

end Pass

/-! ### What is announced stands until the next pass -/

namespace Scene

variable {s t u : Scene} {rows : Rows} {clock : Tick} {executed : List Task} {setup : LoopSetup}

/-- A pass announces what is left of the entries that were active at its beginning. -/
theorem upholds_announcing {entries : List Entry} (hEntries : s.store.activeEntries = .ok entries)
    (hYields : ∀ e ∈ entries, e.Yields clock) (h : s.Shows rows clock executed) :
    Program.Upholds quiet (fun _ => True) (fun _ t => t.monitor.upcoming =
      Pass.announced (entries.map (·.settled clock)) clock setup.settings.lookaheadMultiplier)
      (ExceptT.run (Pass.runOnce setup)) s := by
  have hStands {upcoming : TaskQueue} {p : Program Request Request.Answer (Except Failure Unit)} {t : Scene}
      (hAsks : p.Asks Request.IsSilent) (ht : t.monitor.upcoming = upcoming) :
      Program.Upholds quiet (fun _ => True) (fun _ u => u.monitor.upcoming = upcoming) p t :=
    (hAsks.upholds (P := fun u : Scene => u.monitor.upcoming = upcoming)
      (fun _ _ hMove hSame => (upcoming_of_works hMove).trans hSame)
      (fun _ _ _ _ hSilent hAnswer hSame => (upcoming_of_answers hSilent hAnswer).trans hSame) ht).mono
      (fun _ _ => trivial) fun _ _ => id
  refine .ask (P := fun u => u.Shows rows clock executed ∧ u.store.entries = s.store.entries)
    (fun t u hMove ht => ⟨quiet_quietens.keeps t u hMove ht.1, (entries_of_works hMove).1.trans ht.2⟩)
    (fun _ _ => trivial) ⟨h, rfl⟩ fun t answer u ht hAnswer => ?_
  obtain ⟨hShows, hSame⟩ := ht
  obtain ⟨hRead | ⟨hFalse, -⟩, rfl⟩ := hAnswer
  · rw [Store.activeEntries_congr hSame, hEntries] at hRead
    subst hRead
    change Program.Upholds quiet _ _
      (ExceptT.run (Pass.passOver setup entries >>= fun _ => Engine.ask .setIdle)) u
    unfold Pass.passOver
    split
    · refine .ask quiet_quietens.keeps (fun _ _ => trivial) hShows fun t _ u hShows hAnswer => ?_
      obtain rfl := hAnswer
      exact hStands ⟨trivial, fun _ => ⟨trivial, fun _ => trivial⟩⟩ Pass.announced_nil.symm
    · rw [bind_assoc]
      refine .ask quiet_quietens.keeps (fun _ _ => trivial) hShows fun t _ u hShows hAnswer => ?_
      replace hShows := hShows.passive (r := .beginPass) (a := ()) hAnswer trivial
      change Program.Upholds quiet _ _ (ExceptT.run ((Pass.collect _ >>= fun _ => _) >>= fun _ => _)) u
      rw [bind_assoc]
      refine Program.Upholds.bind (ends_collect quiet_quietens hYields nofun hShows) fun result t _ hPost => ?_
      obtain ⟨⟨tasks, others⟩, rfl, rfl, rfl, hShows⟩ := hPost
      refine .ask quiet_quietens.keeps (fun _ _ => trivial) hShows fun t now u hShows hAnswer => ?_
      obtain ⟨rfl, rfl⟩ := hAnswer
      have hNow := hShows.clock_eq
      refine .ask quiet_quietens.keeps (fun _ _ => trivial) hShows fun t _ v _ hAnswer => ?_
      obtain rfl := hAnswer
      refine hStands (Engine.asks_bind ((Pass.asks_runTasks _).mono fun _ => Request.InTurn.isSilent) fun _ =>
        ⟨trivial, fun _ => trivial⟩) ?_
      rw [hNow]
      rfl
  · exact hFalse.elim

end Scene

/-! ### One row, tick by tick -/

namespace Entry

variable {e : Entry} {horizon : Tick}

theorem latestBefore_eq_none (h : ∀ t, t < horizon → ¬ e.Offers t) : e.latestBefore horizon = none := by
  rcases e.latestBefore_cases horizon with ⟨hNone, -⟩ | ⟨last, -, hActive, hLow, hHigh, hKind⟩
  · exact hNone
  · obtain ⟨hBefore, hStop⟩ := lt_cutoff_iff.mp hHigh
    cases hInterval : e.interval with
    | some interval =>
        rw [hInterval] at hKind
        exact absurd ⟨hActive, hStop, by rw [hInterval]; exact ⟨hKind.1, hLow, hKind.2.1⟩⟩ (h last hBefore)
    | none =>
        refine absurd ⟨hActive, fun stop hEnd => ?_, by rw [hInterval]⟩
          (h e.nextTaskTime (Std.lt_of_le_of_lt hLow hBefore))
        exact Std.lt_of_le_of_lt hLow (hStop stop hEnd)

end Entry

/-- Every element that meets one condition meets another one, and one of them only the latter. -/
theorem countP_lt_of_mem {α : Type} {p q : α → Bool} {l : List α} {x : α}
    (hSub : ∀ y, q y = true → p y = true) (hx : x ∈ l) (hp : p x = true) (hq : q x = false) :
    l.countP q < l.countP p := by
  obtain ⟨before, after, rfl⟩ := List.append_of_mem hx
  have hBefore := List.countP_mono_left (l := before) fun y _ => hSub y
  have hAfter := List.countP_mono_left (l := after) fun y _ => hSub y
  simp only [List.countP_append, List.countP_cons, hp, hq]
  simp
  omega

namespace EntryRow

variable {row b : EntryRow} {now horizon t : Tick} {past : Int}

/-- A pass would find the entry and has yet to run it at a tick. -/
def Offers (row : EntryRow) (t : Tick) : Prop :=
  row.activeFlag = 1 ∧ row.toEntry.Offers t

theorem toEntry_settle (hActive : row.activeFlag = 1) :
    (row.settle now).toEntry = row.toEntry.settled now := by
  rw [settle, if_pos hActive]
  have hMoves := row.toEntry.moves_settled now
  generalize row.toEntry.settled now = f at hMoves
  cases hMoves with
  | mk nextTaskTime nextTaskId isActive hOn => cases isActive <;> simp [withCursor, toEntry, flag, hActive]

theorem activeFlag_settle (hActive : row.activeFlag = 1) :
    (row.settle now).activeFlag = 1 ↔ (row.toEntry.settled now).isActive = true := by
  rw [settle, if_pos hActive]
  have hMoves := row.toEntry.moves_settled now
  generalize row.toEntry.settled now = f at hMoves
  cases hMoves with
  | mk nextTaskTime nextTaskId isActive hOn => cases isActive <;> simp [withCursor, toEntry, flag, hActive]

theorem settle_of_idle (hIdle : row.activeFlag ≠ 1) : row.settle now = row :=
  if_neg hIdle

theorem active_of_settle (hActive : (row.settle now).activeFlag = 1) : row.activeFlag = 1 := by
  by_contra hIdle
  rw [settle_of_idle hIdle] at hActive
  exact hIdle hActive

/-- A pass takes the ticks up to its own off a row. -/
theorem offers_settle (hYields : row.activeFlag = 1 → row.toEntry.Yields now) (ht : t < Int64.maxValue) :
    (row.settle now).Offers t ↔ row.Offers t ∧ now < t := by
  by_cases hActive : row.activeFlag = 1
  · have hOffers := (hYields hActive).consumes.offers t ht
    rw [Offers, activeFlag_settle hActive, toEntry_settle hActive, Offers, hOffers]
    constructor
    · rintro ⟨-, hBoth⟩
      exact ⟨⟨hActive, hBoth.1⟩, hBoth.2⟩
    · rintro ⟨⟨-, hFirst⟩, hLater⟩
      exact ⟨(hOffers.mpr ⟨hFirst, hLater⟩).1, hFirst, hLater⟩
  · rw [settle_of_idle hActive]
    exact ⟨fun h => absurd h.1 hActive, fun h => absurd h.1.1 hActive⟩

/-- If a row is looked at as soon as anything can be due, that is due and nothing else. -/
theorem due_eq_some_iff (hNow : now < Int64.maxValue)
    (hYields : row.activeFlag = 1 → row.toEntry.Yields now)
    (hFrom : ∀ t, t < Int64.maxValue → row.Offers t → now ≤ t) {τ : Task} :
    row.due now = some τ ↔ row.Offers now ∧ τ = row.toEntry.taskAt now (some row.nextTaskId) := by
  have hTime {σ : Task} (hActive : row.activeFlag = 1)
      (hTakes : row.toEntry.Takes now σ (row.toEntry.settled now)) : σ.time = now ∧ row.Offers now := by
    obtain ⟨t, hOffers, ht⟩ := hTakes.exists_offers
    have hEarly : t ≤ now := Int64.le_trans ht hTakes.time_le
    have hLast : t < Int64.maxValue := Std.lt_of_le_of_lt hEarly hNow
    have hSame : t = now := Int64.le_antisymm hEarly (hFrom t hLast ⟨hActive, hOffers⟩)
    exact ⟨Int64.le_antisymm hTakes.time_le (hSame ▸ ht), hActive, hSame ▸ hOffers⟩
  unfold due
  by_cases hActive : row.activeFlag = 1
  · have hConsumes := (hYields hActive).consumes
    rw [if_pos hActive]
    constructor
    · intro hDue
      have hTakes := hConsumes.takes τ hDue
      obtain ⟨hNowTime, hOffers⟩ := hTime hActive hTakes
      exact ⟨hOffers, hNowTime ▸ hTakes.eq_taskAt⟩
    · rintro ⟨hOffers, rfl⟩
      cases hDue : row.toEntry.dueTask now with
      | none => exact absurd hOffers.2 ((hConsumes.idle hDue).2.2 now (Int64.le_refl _))
      | some σ =>
          have hTakes := hConsumes.takes σ hDue
          rw [hTakes.eq_taskAt, (hTime hActive hTakes).1]
          rfl
  · rw [if_neg hActive]
    exact ⟨nofun, fun h => absurd h.1.1 hActive⟩

/-- How many ticks before a horizon a row had to offer after a time. -/
def pending (b : EntryRow) (horizon : Tick) (past : Int) : Nat :=
  (b.toEntry.remainingTimes (some horizon)).ticks.countP fun t => past < t.toInt

/-- A row that comes from another one by passes up to a time, of which none came late. -/
structure Awaits (b : EntryRow) (horizon : Tick) (past : Int) (row : EntryRow) : Prop where
  moves : b.toEntry.Moves row.toEntry
  active : row.activeFlag = 1 → b.activeFlag = 1
  readable : row.activeFlag = 1 → row.IsReadable
  offers : ∀ t, t < Int64.maxValue → (row.Offers t ↔ b.Offers t ∧ past < t.toInt)
  /-- There are ids for all that is to come. -/
  ids : row.activeFlag = 1 → row.nextTaskId.toInt + b.pending horizon past ≤ Int64.maxValue.toInt

theorem Awaits.mem_ticks (hReach : b.activeFlag = 1 → b.toEntry.IsInReach horizon)
    (h : b.Awaits horizon past row) (ht : t < horizon) (hOffers : row.Offers t) :
    t ∈ (b.toEntry.remainingTimes (some horizon)).ticks ∧ past < t.toInt := by
  have hLast : t < Int64.maxValue := Std.lt_of_lt_of_le ht (Int64.le_maxValue horizon)
  obtain ⟨⟨hActive, hFirst⟩, hPast⟩ := (h.offers t hLast).mp hOffers
  exact ⟨(Entry.mem_remainingTimes (hReach hActive)).mpr ⟨hFirst, ht⟩, hPast⟩

theorem Awaits.yields (hReach : b.activeFlag = 1 → b.toEntry.IsInReach horizon) (h : b.Awaits horizon past row)
    (hEarly : now < horizon) (hActive : row.activeFlag = 1) : row.toEntry.Yields now := by
  have hNow : now < Int64.maxValue := Std.lt_of_lt_of_le hEarly (Int64.le_maxValue horizon)
  by_cases hId : row.toEntry.nextTaskId < Int64.maxValue
  · exact Entry.consume_eq_ok hNow hId
  · -- without an id there is nothing to come
    have hIds := h.ids hActive
    have hNone : b.pending horizon past = 0 := by
      rw [Int64.lt_iff_toInt_lt] at hId
      change ¬ row.nextTaskId.toInt < _ at hId
      omega
    obtain ⟨next, hNext⟩ := Entry.exists_succ hNow
    have hNextInt := Tick.succ?_eq_some_iff.mp hNext
    have hLatest : row.toEntry.latestBefore next = none := by
      refine Entry.latestBefore_eq_none fun t ht hOffers => ?_
      have hBefore : t < horizon := by
        rw [Int64.lt_iff_toInt_lt] at ht hEarly ⊢
        omega
      obtain ⟨hMem, hPast⟩ := h.mem_ticks hReach hBefore ⟨hActive, hOffers⟩
      exact List.countP_eq_zero.mp hNone t hMem (decide_eq_true hPast)
    simp [Entry.Yields, Entry.dueTask, Entry.settled, Entry.consume_eq hNext, hLatest]

/-- The next pass. -/
theorem Awaits.settle (hReach : b.activeFlag = 1 → b.toEntry.IsInReach horizon) (h : b.Awaits horizon past row)
    (hEarly : now < horizon) (hNow : now.toInt = past + 1) : b.Awaits horizon now.toInt (row.settle now) := by
  have hYields := h.yields hReach hEarly
  by_cases hActive : row.activeFlag = 1
  · have hEntry : (row.settle now).toEntry = row.toEntry.settled now := toEntry_settle hActive
    have hConsumes := (hYields hActive).consumes
    refine ⟨?_, fun _ => h.active hActive, fun _ => ?_, fun t ht => ?_, fun _ => ?_⟩
    · rw [hEntry]
      exact h.moves.trans hConsumes.moves
    · rw [EntryRow.settle, if_pos hActive]
      exact (h.readable hActive).withCursor _
    · rw [offers_settle hYields ht, h.offers t ht, Int64.lt_iff_toInt_lt]
      constructor
      · rintro ⟨⟨hFirst, -⟩, hLater⟩
        exact ⟨hFirst, hLater⟩
      · rintro ⟨hFirst, hLater⟩
        exact ⟨⟨hFirst, by omega⟩, hLater⟩
    · have hCounter : (row.settle now).nextTaskId = (row.toEntry.settled now).nextTaskId :=
        congrArg Entry.nextTaskId hEntry
      have hIds := h.ids hActive
      have hLater (t : Tick) (ht : decide (now.toInt < t.toInt) = true) : decide (past < t.toInt) = true := by
        rw [decide_eq_true_eq] at ht ⊢
        omega
      rw [hCounter]
      cases hDue : row.toEntry.dueTask now with
      | none =>
          have hFewer : b.pending horizon now.toInt ≤ b.pending horizon past :=
            List.countP_mono_left fun t _ => hLater t
          rw [(hConsumes.idle hDue).2.1]
          change row.nextTaskId.toInt + _ ≤ _
          omega
      | some τ =>
          have hFrom (t : Tick) (ht : t < Int64.maxValue) (hOffered : row.Offers t) : now ≤ t := by
            have hPast := ((h.offers t ht).mp hOffered).2
            rw [Int64.le_iff_toInt_le]
            omega
          have hLast : now < Int64.maxValue := Std.lt_of_lt_of_le hEarly (Int64.le_maxValue horizon)
          obtain ⟨hOffers, -⟩ := (due_eq_some_iff hLast hYields hFrom).mp ((if_pos hActive).trans hDue)
          obtain ⟨hMem, -⟩ := h.mem_ticks hReach hEarly hOffers
          have hFewer : b.pending horizon now.toInt < b.pending horizon past :=
            countP_lt_of_mem hLater hMem (decide_eq_true (by omega)) (decide_eq_false (by omega))
          rw [(hConsumes.takes τ hDue).id_succ]
          change row.nextTaskId.toInt + 1 + _ ≤ _
          omega
  · rw [settle_of_idle hActive]
    refine ⟨h.moves, h.active, h.readable, fun t ht => ?_, fun hOn => absurd hOn hActive⟩
    rw [h.offers t ht]
    have hOff : ¬ (b.Offers t ∧ past < t.toInt) := fun hOn => hActive ((h.offers t ht).mpr hOn).1
    constructor
    · exact fun hOn => absurd hOn hOff
    · exact fun hOn => absurd ⟨hOn.1, by omega⟩ hOff

end EntryRow

namespace Scene

/-! ### Pass after pass -/

/-- The row of each entry awaits its passes. -/
def Rows.Await (base : Rows) (horizon : Tick) (past : Int) (rows : Rows) : Prop :=
  ∀ name, Option.Rel (fun b row => b.Awaits horizon past row) (base name) (rows name)

/-- A task without id for a tick that some rows have yet to offer. -/
def Rows.Foretell (base : Rows) (t : Tick) (σ : Task) : Prop :=
  ∃ b, base σ.entryName = some b ∧ b.Offers t ∧ σ = b.toEntry.taskAt t none

theorem Rows.Foretell.time_eq {base : Rows} {t : Tick} {σ : Task} (h : base.Foretell t σ) : σ.time = t := by
  obtain ⟨b, -, -, hTask⟩ := h
  rw [hTask]
  rfl

/-- No entry that runs once is out of reach. -/
def Rows.AreInReach (base : Rows) (horizon : Tick) : Prop :=
  ∀ name b, base name = some b → b.activeFlag = 1 → b.toEntry.IsInReach horizon

variable {s t u : Scene} {base rows : Rows} {horizon clock : Tick} {past : Int} {setup : LoopSetup}
  {rounds : List Round}

namespace Rows.Await

theorem find (h : base.Await horizon past rows) {name : String} {row : EntryRow} (hRow : rows name = some row) :
    ∃ b, base name = some b ∧ b.Awaits horizon past row := by
  have hRel := h name
  rw [hRow] at hRel
  generalize base name = found at hRel
  cases hRel with
  | some hAwaits => exact ⟨_, rfl, hAwaits⟩

theorem found (h : base.Await horizon past rows) {name : String} {b : EntryRow} (hBase : base name = some b) :
    ∃ row, rows name = some row ∧ b.Awaits horizon past row := by
  have hRel := h name
  rw [hBase] at hRel
  generalize rows name = found at hRel
  cases hRel with
  | some hAwaits => exact ⟨_, rfl, hAwaits⟩

theorem yields (hReach : base.AreInReach horizon) (h : base.Await horizon past rows)
    (hEarly : clock < horizon) : rows.Yields clock := by
  intro name row hRow hActive
  obtain ⟨b, hBase, hAwaits⟩ := h.find hRow
  exact ⟨hAwaits.readable hActive, hAwaits.yields (hReach name b hBase) hEarly hActive⟩

theorem settle (hReach : base.AreInReach horizon) (h : base.Await horizon past rows) (hEarly : clock < horizon)
    (hNow : clock.toInt = past + 1) :
    base.Await horizon clock.toInt fun name => (rows name).map (·.settle clock) := by
  intro name
  change Option.Rel _ (base name) ((rows name).map (·.settle clock))
  have hRel := h name
  cases hBase : base name with
  | none =>
      rw [hBase] at hRel
      have hNone : rows name = none := by
        generalize rows name = found at hRel
        cases hRel with
        | none => rfl
      rw [hNone]
      exact .none
  | some b =>
      obtain ⟨row, hRow, hAwaits⟩ := h.found hBase
      rw [hRow]
      exact .some (hAwaits.settle (hReach name b hBase) hEarly hNow)

/-- The tasks of the next pass are those that the rows have foretold of its tick. -/
theorem mem_unnumbered (hReach : base.AreInReach horizon) (h : base.Await horizon past rows)
    (hEarly : clock < horizon) (hNow : clock.toInt = past + 1) {tasks : List Task}
    (hRuns : RunsDue rows clock tasks) {σ : Task} :
    σ ∈ tasks.map Task.unnumbered ↔ base.Foretell clock σ := by
  have hLast : clock < Int64.maxValue := Std.lt_of_lt_of_le hEarly (Int64.le_maxValue horizon)
  have hDue {name : String} {row b : EntryRow} (hBase : base name = some b)
      (hAwaits : b.Awaits horizon past row) {τ : Task} : row.due clock = some τ ↔
        b.Offers clock ∧ τ = b.toEntry.taskAt clock (some row.nextTaskId) := by
    rw [EntryRow.due_eq_some_iff hLast (hAwaits.yields (hReach name b hBase) hEarly) fun t ht hOffers => ?_,
      hAwaits.offers clock hLast, hAwaits.moves.taskAt_eq]
    · constructor
      · rintro ⟨⟨hOffers, -⟩, hTask⟩
        exact ⟨hOffers, hTask⟩
      · rintro ⟨hOffers, hTask⟩
        exact ⟨⟨hOffers, by omega⟩, hTask⟩
    · have hPast := ((hAwaits.offers t ht).mp hOffers).2
      rw [Int64.le_iff_toInt_le]
      omega
  rw [List.mem_map]
  constructor
  · rintro ⟨τ, hτ, rfl⟩
    obtain ⟨row, hRow, hTask⟩ := (hRuns.mem_iff τ).mp hτ
    obtain ⟨b, hBase, hAwaits⟩ := h.find hRow
    obtain ⟨hOffers, hSame⟩ := (hDue hBase hAwaits).mp hTask
    exact ⟨b, hBase, hOffers, by rw [hSame]; rfl⟩
  · rintro ⟨b, hBase, hOffers, hTask⟩
    obtain ⟨row, hRow, hAwaits⟩ := h.found hBase
    refine ⟨b.toEntry.taskAt clock (some row.nextTaskId), (hRuns.mem_iff _).mpr ⟨row, ?_, ?_⟩, hTask.symm⟩
    · have hSame : (b.toEntry.taskAt clock (some row.nextTaskId)).entryName = σ.entryName := by
        rw [hTask]
        rfl
      rw [hSame, hRow]
    · exact (hDue hBase hAwaits).mpr ⟨hOffers, rfl⟩

end Rows.Await

/-- The tasks of one pass are in order without their ids, too, and no two of them are the same then. -/
theorem RunsDue.ordered {tasks : List Task} (h : RunsDue rows clock tasks) :
    (tasks.map Task.unnumbered).Pairwise fun a b => a ≤ b ∧ a ≠ b := by
  have hNames : tasks.Pairwise fun a b => a.entryName ≠ b.entryName := List.pairwise_map.mp h.nodup
  rw [List.pairwise_map]
  refine (h.sorted.and hNames).imp fun {a b} hBoth => ⟨Task.unnumbered_le hBoth.1 hBoth.2, fun hSame => ?_⟩
  exact hBoth.2 (congrArg Task.entryName hSame : a.unnumbered.entryName = b.unnumbered.entryName)

/-- What rounds have run so far, one at each tick, of what the rows had foretold. -/
structure ComesTrue (base : Rows) (horizon : Tick) (start past : Int) (rounds : List Round) (s : Scene) :
    Prop where
  tables : s.store.entries.isSome = true ∧ s.store.results.isSome = true
  await : base.Await horizon past s.store.row?
  succeeds : ∀ r ∈ rounds, r.result = .ok ()
  mem_iff : ∀ σ, σ ∈ (rounds.flatMap Round.tasks).map Task.unnumbered ↔
    ∃ t, start < t.toInt ∧ t.toInt ≤ past ∧ base.Foretell t σ
  ordered : ((rounds.flatMap Round.tasks).map Task.unnumbered).Pairwise fun a b => a ≤ b ∧ a ≠ b

theorem ComesTrue.next {start : Int} (hBreaker : setup.settings.maxConsecutiveFailures = none)
    (hReach : base.AreInReach horizon) (hEarly : clock < horizon) (hNow : clock.toInt = past + 1)
    (hStart : start ≤ past) (h : s.ComesTrue base horizon start past rounds) {result : Except Failure Unit}
    (hPass : Program.Leads quiet (ExceptT.run (Pass.runOnce setup)) { s with clock } (.done result) t)
    (since : Option Tick) :
    t.ComesTrue base horizon start clock.toInt
      (rounds ++ [⟨since, clock, result, t.executed.drop s.executed.length⟩]) := by
  have hShows : Shows s.store.row? clock s.executed { s with clock } :=
    ⟨fun _ => rfl, h.tables.1, h.tables.2, rfl, rfl⟩
  have hEnds := ends_runOnce quiet_quietens hBreaker (h.await.yields hReach hEarly) hShows
  obtain ⟨_, rfl, tasks, hRuns, hAfter⟩ := (hEnds.of_leads hPass).post_here
  have hTasks : t.executed.drop s.executed.length = tasks := by
    rw [hAfter.executed_eq, List.drop_left]
  have hNew {σ : Task} : σ ∈ tasks.map Task.unnumbered ↔ base.Foretell clock σ :=
    h.await.mem_unnumbered hReach hEarly hNow hRuns
  rw [hTasks]
  refine ⟨⟨hAfter.entries, hAfter.results⟩, ?_, ?_, fun σ => ?_, ?_⟩
  · rw [funext hAfter.row?_eq]
    exact h.await.settle hReach hEarly hNow
  · exact List.forall_mem_append.mpr ⟨h.succeeds, List.forall_mem_singleton.mpr rfl⟩
  · rw [List.flatMap_append, List.map_append, List.mem_append, h.mem_iff, List.flatMap_singleton, hNew]
    constructor
    · rintro (⟨t, hFrom, hTo, hTold⟩ | hTold)
      · exact ⟨t, hFrom, by omega, hTold⟩
      · exact ⟨clock, by omega, Int.le_refl _, hTold⟩
    · rintro ⟨t, hFrom, hTo, hTold⟩
      by_cases hSame : t = clock
      · exact .inr (hSame ▸ hTold)
      · refine .inl ⟨t, hFrom, ?_, hTold⟩
        have hOther : t.toInt ≠ clock.toInt := fun hInt => hSame (Int64.toInt_inj.mp hInt)
        omega
  · rw [List.flatMap_append, List.map_append, List.flatMap_singleton]
    refine List.pairwise_append.mpr ⟨h.ordered, hRuns.ordered, fun σ hσ τ hτ => ?_⟩
    obtain ⟨t, -, hTo, hTold⟩ := (h.mem_iff σ).mp hσ
    have hTime := (hNew.mp hτ).time_eq
    have hLess : σ.time < τ.time := by
      rw [hTold.time_eq, hTime, Int64.lt_iff_toInt_lt]
      omega
    refine ⟨?_, fun hSame => Int64.lt_irrefl (hSame ▸ hLess)⟩
    have hBefore : compare σ τ = .lt := Task.lt_of_time_lt hLess
    rw [Task.le_iff, hBefore]
    rfl

theorem Rounds.of_nil (h : Rounds setup s [] rounds u) : rounds = [] ∧ u = s := by
  generalize hClocks : ([] : List Tick) = all at h
  cases h with
  | start => exact ⟨rfl, rfl⟩
  | pass before hPass => simp at hClocks

/-- The last of some rounds, apart. -/
theorem Rounds.of_append {clocks : List Tick} (h : Rounds setup s (clocks ++ [clock]) rounds u) :
    ∃ before t result, Rounds setup s clocks before t ∧
      Program.Leads quiet (ExceptT.run (Pass.runOnce setup)) { t with clock } (.done result) u ∧
      rounds = before ++ [⟨clocks.getLast?, clock, result, u.executed.drop t.executed.length⟩] := by
  generalize hClocks : clocks ++ [clock] = all at h
  cases h with
  | start => simp at hClocks
  | pass before hPass =>
      obtain ⟨rfl, hLast⟩ := List.append_inj' hClocks rfl
      obtain rfl := List.singleton_inj.mp hLast
      exact ⟨_, _, _, before, hPass, rfl⟩

/-- As long as the horizon is not reached, rounds at one tick after the other run what was foretold. -/
theorem ComesTrue.along (hBreaker : setup.settings.maxConsecutiveFailures = none)
    (hReach : base.AreInReach horizon) {now : Tick} {count : Nat}
    (hCount : count ≤ (horizon.toInt - now.toInt - 1).toNat)
    (hTables : s.store.entries.isSome = true ∧ s.store.results.isSome = true)
    (hAwait : base.Await horizon now.toInt s.store.row?)
    (hRounds : Rounds setup s ((List.range count).map fun (n : Nat) => Int64.ofInt (now.toInt + 1 + n))
      rounds u) :
    u.ComesTrue base horizon now.toInt (now.toInt + count) rounds := by
  induction count generalizing rounds u with
  | zero =>
      obtain ⟨rfl, rfl⟩ := hRounds.of_nil
      refine ⟨hTables, by simpa using hAwait, nofun, fun σ => ?_, .nil⟩
      simp only [List.flatMap_nil, List.map_nil, List.not_mem_nil, false_iff]
      rintro ⟨t, hFrom, hTo, -⟩
      omega
  | succ count ih =>
      have hNow := Tick.toInt_bounds now
      have hEnd := Tick.toInt_bounds horizon
      have hClock : (Int64.ofInt (now.toInt + 1 + count)).toInt = now.toInt + 1 + count :=
        Tick.toInt_ofInt_of_fits (by omega) (by omega)
      rw [List.range_succ, List.map_append, List.map_singleton] at hRounds
      generalize Int64.ofInt (now.toInt + 1 + count) = clock at hRounds hClock
      obtain ⟨before, t, result, hBefore, hPass, rfl⟩ := hRounds.of_append
      rw [show now.toInt + ((count + 1 : Nat) : Int) = clock.toInt by omega]
      exact (ih (by omega) hBefore).next hBreaker hReach (Int64.lt_iff_toInt_lt.mpr (by omega)) (by omega)
        (by omega) hPass _

/-! ### What is announced -/

section

variable {entries : List Entry} {lookahead : Tick}

theorem Lists.mem_of_row (hLists : Lists rows entries)
    (hName : ∀ name row, rows name = some row → row.name = name) {name : String} {row : EntryRow}
    (hRow : rows name = some row) (hActive : row.activeFlag = 1) : row.toEntry ∈ entries :=
  (hLists.mem_iff _).mpr ⟨row, (congrArg rows (hName name row hRow)).trans hRow, hActive, rfl⟩

/-- No entry that runs once is left out of reach. -/
theorem areInReach_settled (hLists : Lists rows entries) (hYields : rows.Yields clock)
    (hName : ∀ name row, rows name = some row → row.name = name) :
    Rows.AreInReach (fun name => (rows name).map (·.settle clock)) (Pass.horizon entries clock lookahead) := by
  intro name b hBase hActive
  obtain ⟨row, hRow, rfl⟩ := Option.map_eq_some_iff.mp hBase
  have hOn := EntryRow.active_of_settle hActive
  rw [EntryRow.toEntry_settle hOn]
  exact Pass.isInReach_settled (hLists.yields hYields (hLists.mem_of_row hName hRow hOn))

/-- The rows of a snapshot, once what is due is taken off, await their passes. -/
theorem await_settled (hLists : Lists rows entries) (hYields : rows.Yields clock)
    (hName : ∀ name row, rows name = some row → row.name = name)
    (hIds : ∀ e ∈ entries, e.nextTaskId.toInt + e.idsTaken clock horizon ≤ Int64.maxValue.toInt)
    (hNow : clock < Int64.maxValue) :
    Rows.Await (fun name => (rows name).map (·.settle clock)) horizon clock.toInt
      fun name => (rows name).map (·.settle clock) := by
  intro name
  dsimp only
  cases hRow : rows name with
  | none => exact .none
  | some row =>
      have hRowYields (hActive : row.activeFlag = 1) := (hYields name row hRow hActive).2
      have hOn (hActive : (row.settle clock).activeFlag = 1) := EntryRow.active_of_settle hActive
      change Option.Rel _ (some (row.settle clock)) (some (row.settle clock))
      refine .some ⟨.refl _, id, fun hActive => ?_, fun t ht => ?_, fun hActive => ?_⟩
      · rw [EntryRow.settle, if_pos (hOn hActive)]
        exact (hYields name row hRow (hOn hActive)).1.withCursor _
      · rw [EntryRow.offers_settle hRowYields ht, Int64.lt_iff_toInt_lt]
        exact ⟨fun h => ⟨h, h.2⟩, And.left⟩
      · have hEntry := hLists.mem_of_row hName hRow (hOn hActive)
        have hLeft := Entry.nextTaskId_settled_of_idsTaken hNow (hIds _ hEntry)
        have hFewer : (row.settle clock).pending horizon clock.toInt ≤
            ((row.toEntry.settled clock).announced horizon).length := by
          rw [EntryRow.pending, EntryRow.toEntry_settle (hOn hActive), Entry.announced, List.length_map]
          exact List.countP_le_length
        have hCounter : (row.settle clock).nextTaskId = (row.toEntry.settled clock).nextTaskId :=
          congrArg Entry.nextTaskId (EntryRow.toEntry_settle (hOn hActive))
        rw [hCounter]
        omega

/-- What is announced of a snapshot is what its rows foretell. -/
theorem mem_announced_settled (hLists : Lists rows entries) (hYields : rows.Yields clock)
    (hName : ∀ name row, rows name = some row → row.name = name) {σ : Task} :
    σ ∈ (Pass.announced (entries.map (·.settled clock)) clock lookahead).toList ↔
      ∃ t, clock.toInt < t.toInt ∧ t < Pass.horizon entries clock lookahead ∧
        Rows.Foretell (fun name => (rows name).map (·.settle clock)) t σ := by
  have hReach {e : Entry} (hEntry : e ∈ entries) :
      (e.settled clock).IsInReach (Pass.horizon entries clock lookahead) :=
    Pass.isInReach_settled (hLists.yields hYields hEntry)
  rw [Pass.announced, TaskQueue.mem_ofList, Pass.horizon_settled, List.flatMap_map,
    List.mem_flatMap]
  constructor
  · rintro ⟨e, hEntry, hTask⟩
    obtain ⟨t, hOffers, hEarly, rfl⟩ := (Entry.mem_announced (hReach hEntry)).mp hTask
    obtain ⟨row, hRow, hActive, rfl⟩ := (hLists.mem_iff e).mp hEntry
    have hLast : t < Int64.maxValue := Std.lt_of_lt_of_le hEarly (Int64.le_maxValue _)
    have hLater := (((hLists.yields hYields hEntry).consumes.offers t hLast).mp hOffers).2
    refine ⟨t, Int64.lt_iff_toInt_lt.mp hLater, hEarly, row.settle clock, ?_, ?_, ?_⟩
    · have hSame : ((row.toEntry.settled clock).taskAt t none).entryName = row.toEntry.name :=
        (row.toEntry.moves_settled clock).name_eq
      rw [hSame]
      change (rows row.toEntry.name).map _ = _
      rw [hRow, Option.map_some]
    · rw [EntryRow.Offers, EntryRow.activeFlag_settle hActive, EntryRow.toEntry_settle hActive]
      exact ⟨hOffers.1, hOffers⟩
    · rw [EntryRow.toEntry_settle hActive]
  · rintro ⟨t, -, hEarly, b, hBase, ⟨hFlag, hOffers⟩, rfl⟩
    obtain ⟨row, hRow, rfl⟩ := Option.map_eq_some_iff.mp hBase
    have hActive := EntryRow.active_of_settle hFlag
    rw [EntryRow.toEntry_settle hActive] at hOffers hRow ⊢
    have hEntry := hLists.mem_of_row hName hRow hActive
    exact ⟨row.toEntry, hEntry, (Entry.mem_announced (hReach hEntry)).mpr ⟨t, hOffers, hEarly, rfl⟩⟩

/-- No task is announced twice. -/
theorem nodup_announced_settled (hLists : Lists rows entries) :
    (Pass.announced (entries.map (·.settled clock)) clock lookahead).toList.Nodup := by
  rw [Pass.announced, (TaskQueue.perm_ofList _).nodup_iff, List.flatMap_map, List.nodup_flatMap]
  refine ⟨fun e _ => Entry.nodup_announced _ _, ?_⟩
  have hNames : entries.Pairwise fun a b => a.name ≠ b.name := List.pairwise_map.mp hLists.nodup
  refine hNames.imp fun {a b} hOther σ ha hb => hOther ?_
  obtain ⟨t, -, rfl⟩ := List.mem_map.mp ha
  obtain ⟨t', -, hSame⟩ := List.mem_map.mp hb
  have hEntryName : (b.settled clock).name = (a.settled clock).name := congrArg Task.entryName hSame
  rw [(b.moves_settled clock).name_eq, (a.moves_settled clock).name_eq] at hEntryName
  exact hEntryName.symm

end

/-- What a pass announces is what later passes execute, in this order, if there is one at every tick up to
the horizon: without a limit on failures, with nobody but the loop and its background at the store, and with
an id for each of the tasks. -/
theorem upcoming_predicts_execution {s t u : Scene} {entries : List Entry} {result : Except Failure Unit}
    {rounds : List Round} (hTables : s.store.entries.isSome = true ∧ s.store.results.isSome = true)
    (hEntries : s.store.activeEntries = .ok entries)
    (hBreaker : setup.settings.maxConsecutiveFailures = none) (hNow : s.clock < Int64.maxValue)
    (hIds : ∀ e ∈ entries, e.nextTaskId.toInt +
      e.idsTaken s.clock (Pass.horizon entries s.clock setup.settings.lookaheadMultiplier) ≤
        Int64.maxValue.toInt)
    (hPass : Program.Leads quiet (ExceptT.run (Pass.runOnce setup)) s (.done result) t)
    (hRounds : Rounds setup t
      (ticksBetween s.clock (Pass.horizon entries s.clock setup.settings.lookaheadMultiplier)) rounds u) :
    result = .ok () ∧ (∀ r ∈ rounds, r.result = .ok ()) ∧
      (rounds.flatMap Round.tasks).map Task.unnumbered = t.monitor.upcoming.toList := by
  have hShows := Shows.self hTables
  have hLists := lists_of_activeEntries hEntries
  have hYields : Rows.Yields s.store.row? s.clock := by
    intro name row hRow hActive
    have hEntry := hLists.mem_of_row hShows.name_eq hRow hActive
    exact ⟨Store.read_of_activeEntries hEntries hRow hActive, Entry.yields_of_idsTaken hNow (hIds _ hEntry)⟩
  have hEach {e : Entry} (hEntry : e ∈ entries) := hLists.yields hYields hEntry
  obtain ⟨_, rfl, _, -, hAfter⟩ :=
    ((ends_runOnce quiet_quietens hBreaker hYields hShows).of_leads hPass).post_here
  have hAnnounced : t.monitor.upcoming = _ :=
    ((upholds_announcing hEntries (fun _ => hEach) hShows).of_leads hPass).post_here
  have hRows : t.store.row? = fun name => (s.store.row? name).map (·.settle s.clock) := funext hAfter.row?_eq
  have hReach : Rows.AreInReach t.store.row?
      (Pass.horizon entries s.clock setup.settings.lookaheadMultiplier) := by
    rw [hRows]
    exact areInReach_settled hLists hYields hShows.name_eq
  have hAwait := await_settled hLists hYields hShows.name_eq hIds hNow
  rw [← hRows] at hAwait
  have hTrue := ComesTrue.along hBreaker hReach (Nat.le_refl _) ⟨hAfter.entries, hAfter.results⟩ hAwait hRounds
  refine ⟨rfl, hTrue.succeeds, ?_⟩
  rw [hAnnounced]
  have hMem (σ : Task) : σ ∈ (rounds.flatMap Round.tasks).map Task.unnumbered ↔
      σ ∈ (Pass.announced (entries.map (·.settled s.clock)) s.clock
        setup.settings.lookaheadMultiplier).toList := by
    rw [hTrue.mem_iff, mem_announced_settled hLists hYields hShows.name_eq, ← hRows]
    refine exists_congr fun τ => and_congr_right fun hFrom => and_congr_left fun _ => ?_
    rw [Int64.lt_iff_toInt_lt]
    omega
  have hPerm :=
    (List.perm_ext_iff_of_nodup (hTrue.ordered.imp And.right) (nodup_announced_settled hLists)).mpr hMem
  exact hPerm.eq_of_pairwise (fun _ _ _ _ => Task.le_antisymm) (hTrue.ordered.imp And.left)
    (TaskQueue.sorted _)

/-- An entry that runs at every tenth tick. -/
def chime : Entry :=
  Draft.entryFrom ⟨"chime", "beep", none, some 1, none, false, some 10, none, none⟩ 1 none "first"

/-- An entry that runs once, when the other one runs, and before it. -/
def alarm : Entry :=
  Draft.entryFrom ⟨"alarm", "beep", some 5, some 11, none, false, none, none, none⟩ 11 none "first"

def clockwork : Scene where
  store := ([chime, alarm].foldlM Store.insertEntry .empty).toOption.getD .empty
  clock := 1

/-- Two intervals ahead. -/
def farsighted : LoopSetup where
  settings := { lookaheadMultiplier := 2 }

/-- The first pass over both entries. -/
def struck : Except Failure Unit × Scene :=
  (ExceptT.run (Pass.runOnce farsighted)).run (reply fun _ => .returned none) clockwork

theorem struck_announces : struck.2.monitor.upcoming.toList =
    [⟨11, 5, "beep", "alarm", none⟩, ⟨11, 10, "beep", "chime", none⟩] := by
  -- merge sort does not compute well, putting tasks in one by one does
  unfold struck Pass.runOnce Pass.pass Pass.passOver Pass.announced
  rw [TaskQueue.ofList_eq]
  decide +kernel

/-- An entry that runs once and one that runs again and again, at the same tick. -/
theorem upcoming_predicts_chime_and_alarm : ∃ entries t rounds u,
    clockwork.store.activeEntries = .ok entries ∧ entries = [alarm, chime] ∧
      Program.Leads quiet (ExceptT.run (Pass.runOnce farsighted)) clockwork (.done (.ok ())) t ∧
      Rounds farsighted t (ticksBetween 1 21) rounds u ∧ rounds.length = 19 ∧
      (rounds.flatMap Round.tasks).map Task.unnumbered =
        [⟨11, 5, "beep", "alarm", none⟩, ⟨11, 10, "beep", "chime", none⟩] := by
  have hEntries : clockwork.store.activeEntries = .ok [alarm, chime] := by decide +kernel
  have hPass := leads_run (fun _ => .returned none) (ExceptT.run (Pass.runOnce farsighted)) clockwork
  change Program.Leads quiet _ _ (.done struck.1) struck.2 at hPass
  obtain ⟨rounds, u, hRounds⟩ := exists_rounds farsighted struck.2 (ticksBetween 1 21)
  have hHorizon : Pass.horizon [alarm, chime] clockwork.clock farsighted.settings.lookaheadMultiplier = 21 := by
    decide +kernel
  obtain ⟨hOk, -, hTasks⟩ := upcoming_predicts_execution (by decide +kernel) hEntries rfl (by decide)
    (by decide +kernel) hPass (hHorizon.symm ▸ hRounds)
  refine ⟨_, struck.2, rounds, u, hEntries, rfl, hOk ▸ hPass, hRounds, ?_, hTasks.trans struck_announces⟩
  rw [← List.length_map, hRounds.map_clock]
  decide

end Scene

end TickScheduler
