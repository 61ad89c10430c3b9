import Mathlib.Data.List.Flatten
import Mathlib.Data.List.Induction
import TickScheduler.Proofs.Engine.QuietPass
import TickScheduler.Proofs.Entry.Series
/-!
Passes one after the other, at times that never go back, over entries that nobody else touches. They
run the series of every entry: of the ticks that fall to a pass the latest, if there are any.
-/
namespace TickScheduler

/-- A pass as seen from outside. -/
structure Round where
  /-- The time of the pass before; `none` for the first. -/
  since : Option Tick
  clock : Tick
  result : Except Failure Unit
  tasks : List Task

namespace Round

/-- The ticks that fall to a round: it comes at them or later, and the one before came too early. -/
def Covers (r : Round) (t : Tick) : Prop :=
  t ≤ r.clock ∧ ∀ past, r.since = some past → past < t

def tasksOf (r : Round) (e : Entry) : List Task :=
  r.tasks.filter (·.entryName == e.name)

/-- A round treats an entry as its series demands. -/
structure Serves (r : Round) (e : Entry) : Prop where
  /-- One task for all ticks that fall to the round; that of a recurring entry is for the latest. -/
  runs : ∀ t, e.HasTick t → r.Covers t → ∃ τ, r.tasksOf e = [τ] ∧
    (e.interval.isSome = true →
      e.HasTick τ.time ∧ ∀ t, e.HasTick t → r.Covers t → t ≤ τ.time)
  rests : (∀ t, e.HasTick t → ¬ r.Covers t) → r.tasksOf e = []
  times : ∀ τ ∈ r.tasksOf e, r.Covers τ.time

end Round

def tasksOf (rounds : List Round) (e : Entry) : List Task :=
  rounds.flatMap (·.tasksOf e)

/-- Some rounds run the series of some entries. -/
structure Faithful (entries : List Entry) (rounds : List Round) : Prop where
  succeeds : ∀ r ∈ rounds, r.result = .ok ()
  serves : ∀ r ∈ rounds, ∀ e ∈ entries, r.Serves e
  known : ∀ r ∈ rounds, ∀ τ ∈ r.tasks, ∃ e ∈ entries, e.name = τ.entryName
  /-- An entry that runs once does so in the first round that comes at its start or later. -/
  once : ∀ e ∈ entries, e.interval = none → ∀ before r after, rounds = before ++ r :: after →
    (r.tasksOf e ≠ [] ↔ e.start ≤ r.clock ∧ ∀ past ∈ before, past.clock < e.start)
  sorted : (rounds.flatMap Round.tasks).Pairwise (· < ·)
  /-- The ids of an entry are 1, 2, 3 and so on. -/
  ids : ∀ e ∈ entries, (tasksOf rounds e).map Task.taskId =
    (List.range (tasksOf rounds e).length).map fun n => some (Int64.ofNat (n + 1))

/-- An entry had every id there is before the last of some rounds. -/
def IsUsedUp (rounds : List Round) (e : Entry) : Prop :=
  Int64.maxValue.toInt ≤ (tasksOf rounds.dropLast e).length + 1

namespace Scene

/-- Passes of one scheduler, one at each of the given times, with nothing but its own background between
them. -/
inductive Rounds (setup : LoopSetup) (s : Scene) : List Tick → List Round → Scene → Prop where
  | start : Rounds setup s [] [] s
  | pass {clocks : List Tick} {rounds : List Round} {t u : Scene} {clock : Tick}
      {result : Except Failure Unit} (before : Rounds setup s clocks rounds t)
      (hPass : Program.Leads quiet (ExceptT.run (Pass.runOnce setup)) { t with clock } (.done result) u) :
      Rounds setup s (clocks ++ [clock])
        (rounds ++ [⟨clocks.getLast?, clock, result, u.executed.drop t.executed.length⟩]) u

variable {setup : LoopSetup} {s t u : Scene} {clocks : List Tick} {rounds : List Round}
  {entries : List Entry} {clock : Tick}

theorem exists_rounds (setup : LoopSetup) (s : Scene) (clocks : List Tick) :
    ∃ rounds t, Rounds setup s clocks rounds t := by
  induction clocks using List.reverseRecOn with
  | nil => exact ⟨[], s, .start⟩
  | append_singleton clocks clock ih =>
      obtain ⟨rounds, t, hRounds⟩ := ih
      obtain ⟨result, u, hPass⟩ := Program.exists_leads_done quiet_responsive
        (ExceptT.run (Pass.runOnce setup)) { t with clock }
      exact ⟨_, u, .pass hRounds hPass⟩

theorem Rounds.map_clock (h : Rounds setup s clocks rounds t) : rounds.map Round.clock = clocks := by
  induction h with
  | start => rfl
  | pass before hPass ih => rw [List.map_append, ih, List.map_cons, List.map_nil]

end Scene

/-! ### One entry in one round -/

section

variable {e f g : Entry} {r : Round} {now : Tick} {task : Option Task}

/-- What an entry still offers at some time: the ticks of its series that are later. -/
def Entry.OffersSince (e f : Entry) (since : Option Tick) : Prop :=
  ∀ t, t < Int64.maxValue → (f.Offers t ↔ e.HasTick t ∧ ∀ past, since = some past → past < t)

/-- A look at the clock serves an entry that still offers what came after the round before. -/
theorem serves_of_consumes (hNow : r.clock < Int64.maxValue) (hMoves : e.Moves f)
    (hOffers : e.OffersSince f r.since) (h : f.Consumes r.clock task g)
    (hTasks : r.tasksOf e = task.toList) : r.Serves e := by
  have hEarly {t : Tick} (ht : t ≤ r.clock) : t < Int64.maxValue := by
    rw [Int64.lt_iff_toInt_lt] at hNow ⊢
    rw [Int64.le_iff_toInt_le] at ht
    omega
  have hCovers {t : Tick} (ht : t ≤ r.clock) : f.Offers t ↔ e.HasTick t ∧ r.Covers t := by
    rw [hOffers t (hEarly ht), Round.Covers, and_iff_right ht]
  refine ⟨fun t hTick hCover => ?_, fun hNone => ?_, fun τ hτ => ?_⟩
  · have hOffered := (hCovers hCover.1).mpr ⟨hTick, hCover⟩
    cases task with
    | none => exact absurd hOffered ((h.idle rfl).2.2 t hCover.1)
    | some τ =>
        have hTakes := h.takes τ rfl
        refine ⟨τ, hTasks, fun hRecurs => ?_⟩
        rw [← hMoves.interval_eq] at hRecurs
        obtain ⟨hLatest, hGreatest⟩ := hTakes.latest hRecurs
        refine ⟨((hCovers hTakes.time_le).mp hLatest).1, fun other hOther hFalls => ?_⟩
        exact hGreatest other hFalls.1 ((hCovers hFalls.1).mpr ⟨hOther, hFalls⟩)
  · cases task with
    | none => exact hTasks
    | some τ =>
        obtain ⟨t, hOffered, ht⟩ := (h.takes τ rfl).exists_offers
        obtain ⟨hTick, hCover⟩ := (hCovers (Int64.le_trans ht (h.takes τ rfl).time_le)).mp hOffered
        exact absurd hCover (hNone t hTick)
  · rw [hTasks, Option.mem_toList] at hτ
    have hTakes := h.takes τ hτ
    obtain ⟨t, hOffered, ht⟩ := hTakes.exists_offers
    obtain ⟨-, hCover⟩ := (hCovers (Int64.le_trans ht hTakes.time_le)).mp hOffered
    exact ⟨hTakes.time_le, fun past hPast => Int64.lt_of_lt_of_le (hCover.2 past hPast) ht⟩

/-- After a look at the clock an entry offers what comes later. -/
theorem offersSince_of_consumes {since : Option Tick} (hSince : ∀ past, since = some past → past ≤ now)
    (hOffers : e.OffersSince f since) (h : f.Consumes now task g) : e.OffersSince g (some now) := by
  intro t ht
  rw [h.offers t ht, hOffers t ht]
  constructor
  · rintro ⟨⟨hTick, -⟩, hLater⟩
    refine ⟨hTick, ?_⟩
    rintro past ⟨⟩
    exact hLater
  · rintro ⟨hTick, hLater⟩
    have hNow := hLater now rfl
    exact ⟨⟨hTick, fun past hPast => Int64.lt_of_le_of_lt (hSince past hPast) hNow⟩, hNow⟩

end

theorem Task.lt_of_time_lt {a b : Task} (h : a.time < b.time) : a < b := by
  have hTime : compare a.time b.time = .lt := Std.compare_eq_lt.mpr h
  change (compareOn Task.time a b).then _ = .lt
  rw [show compareOn Task.time a b = .lt from hTime]
  rfl

theorem Task.lt_of_le_of_ne {a b : Task} (h : a ≤ b) (hNe : a ≠ b) : a < b := by
  change compare a b = .lt
  cases hOrder : compare a b with
  | lt => rfl
  | eq => exact absurd (Std.LawfulEqCmp.eq_of_compare hOrder) hNe
  | gt =>
      rw [le_iff, hOrder] at h
      cases h

/-! ### One more round -/

section

variable {entries : List Entry} {rounds : List Round} {clock : Tick}

theorem tasksOf_append (rounds : List Round) (r : Round) (e : Entry) :
    tasksOf (rounds ++ [r]) e = tasksOf rounds e ++ r.tasksOf e := by
  rw [tasksOf, List.flatMap_append, List.flatMap_singleton, tasksOf]

/-- The tasks of a round come after all those of the rounds before. -/
theorem Faithful.sorted_append (h : Faithful entries rounds) {r : Round} {rows : Scene.Rows}
    (hTasks : Scene.RunsDue rows clock r.tasks)
    (hLater : ∀ a ∈ rounds.flatMap Round.tasks, ∀ b ∈ r.tasks, a.time < b.time) :
    ((rounds ++ [r]).flatMap Round.tasks).Pairwise (· < ·) := by
  rw [List.flatMap_append, List.flatMap_singleton, List.pairwise_append]
  refine ⟨h.sorted, ?_, fun a ha b hb => Task.lt_of_time_lt (hLater a ha b hb)⟩
  refine hTasks.sorted.imp₂ (fun a b hLe hNe => Task.lt_of_le_of_ne hLe ?_)
    (List.pairwise_map.mp hTasks.nodup)
  rintro rfl
  exact hNe rfl

/-- A round that serves an entry which runs once has a task of it just if its start falls to the round. -/
theorem tasksOf_ne_nil_iff {e : Entry} {r : Round} (hOnce : e.interval = none)
    (hStart : e.HasTick e.start)
    (h : r.Serves e) : r.tasksOf e ≠ [] ↔ r.Covers e.start := by
  constructor
  · intro hTask
    refine Classical.byContradiction fun hElse => hTask (h.rests fun t hTick hCover => ?_)
    obtain ⟨-, hSeries⟩ := hTick
    rw [hOnce] at hSeries
    exact hElse (hSeries ▸ hCover)
  · intro hCover
    obtain ⟨τ, hTasks, -⟩ := h.runs e.start hStart hCover
    rw [hTasks]
    exact List.cons_ne_nil τ []

theorem Round.Serves.length_tasksOf_le {e : Entry} {r : Round} (h : r.Serves e) :
    (r.tasksOf e).length ≤ 1 := by
  by_cases hNone : ∀ t, e.HasTick t → ¬ r.Covers t
  · rw [h.rests hNone]
    exact Nat.zero_le 1
  · simp only [not_forall, not_not] at hNone
    obtain ⟨t, hTick, hCover⟩ := hNone
    obtain ⟨τ, hTasks, -⟩ := h.runs t hTick hCover
    rw [hTasks]
    exact Nat.le_refl 1

theorem Faithful.length_tasksOf_le (h : Faithful entries rounds) {e : Entry} (hEntry : e ∈ entries) :
    (tasksOf rounds e).length ≤ rounds.length := by
  have hEach := fun r hr => (h.serves r hr e hEntry).length_tasksOf_le
  clear h
  induction rounds with
  | nil => exact Nat.le_refl 0
  | cons r rest ih =>
      have hFirst := hEach r List.mem_cons_self
      have hRest := ih fun other hOther => hEach other (List.mem_cons_of_mem r hOther)
      rw [tasksOf, List.flatMap_cons, List.length_append, List.length_cons]
      rw [tasksOf] at hRest
      omega

theorem Faithful.append (h : Faithful entries rounds) {r : Round}
    (hFresh : ∀ e ∈ entries, e.HasTick e.start)
    (hResult : r.result = .ok ()) (hServes : ∀ e ∈ entries, r.Serves e)
    (hKnown : ∀ τ ∈ r.tasks, ∃ e ∈ entries, e.name = τ.entryName)
    (hSince : ∀ t, r.Covers t ↔ t ≤ r.clock ∧ ∀ past ∈ rounds, past.clock < t)
    (hSorted : ((rounds ++ [r]).flatMap Round.tasks).Pairwise (· < ·))
    (hIds : ∀ e ∈ entries, ∀ τ ∈ r.tasksOf e,
      τ.taskId = some (Int64.ofNat ((tasksOf rounds e).length + 1))) :
    Faithful entries (rounds ++ [r]) where
  succeeds other hOther := by
    rcases List.mem_append.mp hOther with hOther | hOther
    · exact h.succeeds other hOther
    · rw [List.mem_singleton.mp hOther, hResult]
  serves other hOther := by
    rcases List.mem_append.mp hOther with hOther | hOther
    · exact h.serves other hOther
    · exact List.mem_singleton.mp hOther ▸ hServes
  known other hOther := by
    rcases List.mem_append.mp hOther with hOther | hOther
    · exact h.known other hOther
    · exact List.mem_singleton.mp hOther ▸ hKnown
  once e hEntry hOnce before other after hSplit := by
    rcases List.eq_nil_or_concat after with rfl | ⟨init, last, rfl⟩
    · obtain ⟨rfl, hSame⟩ := List.append_inj' hSplit rfl
      obtain rfl := List.singleton_inj.mp hSame
      rw [tasksOf_ne_nil_iff hOnce (hFresh e hEntry) (hServes e hEntry), hSince]
    · rw [List.concat_eq_append, ← List.cons_append, ← List.append_assoc] at hSplit
      obtain ⟨hInit, -⟩ := List.append_inj' hSplit rfl
      exact h.once e hEntry hOnce before other init hInit
  sorted := hSorted
  ids e hEntry := by
    rw [tasksOf_append, List.map_append, h.ids e hEntry, List.length_append]
    have hLast := hIds e hEntry
    have hLength := (hServes e hEntry).length_tasksOf_le
    match hTasks : r.tasksOf e with
    | [] => rw [List.map_nil, List.append_nil, List.length_nil, Nat.add_zero]
    | [τ] =>
        rw [hTasks] at hLast
        rw [List.length_singleton, List.range_succ, List.map_append, List.map_singleton,
          List.map_singleton, hLast τ List.mem_cons_self]
    | _ :: _ :: _ =>
        rw [hTasks] at hLength
        simp at hLength

end

namespace Scene

variable {setup : LoopSetup} {s t u : Scene} {clocks : List Tick} {rounds : List Round}
  {entries : List Entry} {clock : Tick}

/-- What holds between two rounds. -/
structure Kept (entries : List Entry) (clocks : List Tick) (rounds : List Round) (s : Scene) : Prop where
  tables : s.store.entries.isSome = true ∧ s.store.results.isSome = true
  executed_eq : s.executed = rounds.flatMap Round.tasks
  /-- Every entry is stored with the ticks that are left of its series. -/
  stored : ∀ e ∈ entries, ∃ f, s.store.row? e.name = some (.ofEntry f) ∧ e.Moves f ∧
    e.OffersSince f clocks.getLast? ∧ f.nextTaskId.toInt = (tasksOf rounds e).length + 1
  known : ∀ name row, s.store.row? name = some row → ∃ e ∈ entries, e.name = name
  early : ∀ τ ∈ s.executed, ∃ last, clocks.getLast? = some last ∧ τ.time ≤ last
  faithful : Faithful entries rounds

theorem le_getLast {clocks : List Tick} (hSorted : (clocks ++ [clock]).Pairwise (· ≤ ·)) {past : Tick}
    (h : clocks.getLast? = some past) : past ≤ clock ∧ ∀ c ∈ clocks, c ≤ past := by
  obtain ⟨init, rfl⟩ := List.getLast?_eq_some_iff.mp h
  obtain ⟨hInit, -, hLast⟩ := List.pairwise_append.mp hSorted
  refine ⟨hLast past (by simp) clock (by simp), fun c hc => ?_⟩
  rcases List.mem_append.mp hc with hc | hc
  · exact (List.pairwise_append.mp hInit).2.2 c hc past (by simp)
  · exact Int64.le_of_eq (List.mem_singleton.mp hc)

/-- What a further round does, if every entry has an id left. -/
theorem Kept.pass_spec (hBreaker : setup.settings.maxConsecutiveFailures = none)
    (hNow : clock < Int64.maxValue)
    (hIds : ∀ e ∈ entries, ((tasksOf rounds e).length : Int) + 1 < Int64.maxValue.toInt)
    (h : Kept entries clocks rounds t) {result : Except Failure Unit}
    (hPass : Program.Leads quiet (ExceptT.run (Pass.runOnce setup)) { t with clock } (.done result) u) :
    result = .ok () ∧ ∃ tasks, RunsDue t.store.row? clock tasks ∧
      u.Shows (fun name => (t.store.row? name).map (·.settle clock)) clock (t.executed ++ tasks) := by
  have hShows : Shows t.store.row? clock t.executed { t with clock } :=
    ⟨fun _ => rfl, h.tables.1, h.tables.2, rfl, rfl⟩
  have hOpen : Rows.IsOpen t.store.row? := by
    intro name row hRow
    obtain ⟨e, hEntry, rfl⟩ := h.known name row hRow
    obtain ⟨f, hStored, -, -, hId⟩ := h.stored e hEntry
    obtain rfl := Option.some.inj (hRow.symm.trans hStored)
    exact ⟨EntryRow.isReadable_ofEntry f, hId ▸ hIds e hEntry⟩
  have hEnds := ends_runOnce quiet_quietens hBreaker (hOpen.yields hNow) hShows
  obtain ⟨x, rfl, hTasks⟩ := (hEnds.of_leads hPass).post_here
  exact ⟨rfl, hTasks⟩

/-- What a round means for one entry, and what it leaves of it. -/
theorem Kept.serves (hNow : clock < Int64.maxValue) (hSorted : (clocks ++ [clock]).Pairwise (· ≤ ·))
    (h : Kept entries clocks rounds t) {e : Entry} (hEntry : e ∈ entries)
    (hId : ((tasksOf rounds e).length : Int) + 1 < Int64.maxValue.toInt) {r : Round}
    (hSince : r.since = clocks.getLast?) (hClock : r.clock = clock)
    (hRuns : RunsDue t.store.row? clock r.tasks) :
    r.Serves e ∧ (∀ τ ∈ r.tasksOf e, τ.taskId = some (Int64.ofNat ((tasksOf rounds e).length + 1))) ∧
      ∃ g, (t.store.row? e.name).map (·.settle clock) = some (.ofEntry g) ∧ e.Moves g ∧
        e.OffersSince g (some clock) ∧ g.nextTaskId.toInt = (tasksOf (rounds ++ [r]) e).length + 1 := by
  obtain ⟨f, hStored, hMoves, hOffers, hCount⟩ := h.stored e hEntry
  have hLeft : f.nextTaskId < Int64.maxValue := by
    rw [Int64.lt_iff_toInt_lt, hCount]
    exact hId
  have hConsumes := f.consumes_settled hNow hLeft
  have hTasks : r.tasksOf e = (f.dueTask clock).toList := by
    rw [← EntryRow.due_ofEntry]
    refine hRuns.filter_eq hStored fun τ hDue => ?_
    rw [EntryRow.due_ofEntry] at hDue
    exact (Entry.entryName_of_dueTask hDue).trans hMoves.name_eq
  refine ⟨?_, fun τ hτ => ?_, f.settled clock, ?_, hMoves.trans hConsumes.moves, ?_, ?_⟩
  · subst hClock
    exact serves_of_consumes hNow hMoves (hSince ▸ hOffers) hConsumes hTasks
  · rw [hTasks, Option.mem_toList] at hτ
    rw [(hConsumes.takes τ hτ).taskId_eq]
    refine congrArg some (Int64.toInt_inj.mp ?_)
    rw [hCount, Int64.toInt_ofNat_of_lt]
    · rfl
    · rw [Int64.toInt_maxValue] at hId
      omega
  · rw [hStored, Option.map_some, EntryRow.settle_ofEntry]
  · exact offersSince_of_consumes (fun past hPast => (le_getLast hSorted hPast).1) hOffers hConsumes
  · rw [tasksOf_append, List.length_append, hTasks]
    cases hDue : f.dueTask clock with
    | none =>
        rw [(hConsumes.idle hDue).2.1, hCount]
        rfl
    | some τ =>
        rw [(hConsumes.takes τ hDue).id_succ, hCount]
        rfl

/-- What comes after the last of some rounds in order comes after all of them. -/
theorem getLast_lt_iff (hMap : rounds.map Round.clock = clocks)
    (hSorted : (clocks ++ [clock]).Pairwise (· ≤ ·))
    (time : Tick) :
    (∀ past, clocks.getLast? = some past → past < time) ↔ ∀ past ∈ rounds, past.clock < time := by
  constructor
  · intro hLast past hPast
    have hMember : past.clock ∈ clocks := hMap ▸ List.mem_map_of_mem hPast
    obtain ⟨last, hFound⟩ := Option.ne_none_iff_exists'.mp
      (mt List.getLast?_eq_none_iff.mp (List.ne_nil_of_mem hMember))
    exact Int64.lt_of_le_of_lt ((le_getLast hSorted hFound).2 _ hMember) (hLast last hFound)
  · intro hAll last hLast
    have hMember : last ∈ rounds.map Round.clock := hMap ▸ List.mem_of_getLast? hLast
    obtain ⟨past, hPast, rfl⟩ := List.mem_map.mp hMember
    exact hAll past hPast

/-- What holds between two rounds is kept by a further one. -/
theorem Kept.next (hFresh : ∀ e ∈ entries, e.HasTick e.start) (hMap : rounds.map Round.clock = clocks)
    (hNow : clock < Int64.maxValue) (hSorted : (clocks ++ [clock]).Pairwise (· ≤ ·))
    (hIds : ∀ e ∈ entries, ((tasksOf rounds e).length : Int) + 1 < Int64.maxValue.toInt)
    (h : Kept entries clocks rounds t) {tasks : List Task} (hRuns : RunsDue t.store.row? clock tasks)
    (hShows : u.Shows (fun name => (t.store.row? name).map (·.settle clock)) clock
      (t.executed ++ tasks)) :
    Kept entries (clocks ++ [clock]) (rounds ++ [⟨clocks.getLast?, clock, .ok (), tasks⟩]) u := by
  let r : Round := ⟨clocks.getLast?, clock, .ok (), tasks⟩
  change Kept entries (clocks ++ [clock]) (rounds ++ [r]) u
  have hEach := fun e hEntry => h.serves hNow hSorted hEntry (hIds e hEntry) (r := r) rfl rfl hRuns
  have hKnown : ∀ τ ∈ tasks, ∃ e ∈ entries, e.name = τ.entryName := by
    intro τ hτ
    obtain ⟨row, hRow, -⟩ := (hRuns.mem_iff τ).mp hτ
    exact h.known _ _ hRow
  have hCovers : ∀ τ ∈ tasks, r.Covers τ.time := by
    intro τ hτ
    obtain ⟨e, hEntry, hName⟩ := hKnown τ hτ
    exact (hEach e hEntry).1.times τ (List.mem_filter.mpr ⟨hτ, beq_iff_eq.mpr hName.symm⟩)
  have hSince (time : Tick) : r.Covers time ↔ time ≤ clock ∧ ∀ past ∈ rounds, past.clock < time :=
    and_congr_right fun _ => getLast_lt_iff hMap hSorted time
  have hLater : ∀ a ∈ rounds.flatMap Round.tasks, ∀ b ∈ tasks, a.time < b.time := by
    intro a ha b hb
    obtain ⟨last, hLast, ha⟩ := h.early a (h.executed_eq ▸ ha)
    exact Int64.lt_of_le_of_lt ha ((hCovers b hb).2 last hLast)
  refine ⟨⟨hShows.entries, hShows.results⟩, ?_, fun e hEntry => ?_, fun name row hRow => ?_,
    fun τ hτ => ?_, ?_⟩
  · rw [hShows.executed_eq, h.executed_eq, List.flatMap_append, List.flatMap_singleton]
  · obtain ⟨-, -, g, hRow, hMoves, hOffers, hId⟩ := hEach e hEntry
    refine ⟨g, (hShows.row?_eq e.name).trans hRow, hMoves, ?_, hId⟩
    rw [List.getLast?_concat]
    exact hOffers
  · rw [hShows.row?_eq, Option.map_eq_some_iff] at hRow
    obtain ⟨old, hOld, -⟩ := hRow
    exact h.known name old hOld
  · refine ⟨clock, List.getLast?_concat, ?_⟩
    rw [hShows.executed_eq] at hτ
    rcases List.mem_append.mp hτ with hτ | hτ
    · obtain ⟨last, hLast, hEarly⟩ := h.early τ hτ
      exact Int64.le_trans hEarly (le_getLast hSorted hLast).1
    · exact (hCovers τ hτ).1
  · exact h.faithful.append hFresh rfl (fun e hEntry => (hEach e hEntry).1) hKnown hSince
      (h.faithful.sorted_append hRuns hLater) fun e hEntry => (hEach e hEntry).2.1

theorem kept_start {store : Store} (hStock : store.Stocks entries) :
    Kept entries [] [] { store, clock } := by
  refine ⟨hStock.tables, rfl, fun e hEntry => ?_, fun name row hRow => ?_, nofun, ?_⟩
  · refine ⟨e, hStock.row?_eq e hEntry, .refl e, fun t _ => ?_, ?_⟩
    · rw [(hStock.fresh e hEntry).offers_iff]
      exact (and_iff_left nofun).symm
    · rw [(hStock.fresh e hEntry).nextTaskId_eq]
      rfl
  · obtain ⟨e, hEntry, hName, -⟩ := hStock.source name row hRow
    exact ⟨e, hEntry, hName⟩
  · exact ⟨nofun, nofun, nofun, fun _ _ _ before _ _ hSplit => by simp at hSplit, .nil, fun _ _ => rfl⟩

/-- As long as no entry has used up its ids, its series is what is run. -/
theorem Rounds.kept {store : Store} (hStock : store.Stocks entries)
    (hBreaker : setup.settings.maxConsecutiveFailures = none) (hSorted : clocks.Pairwise (· ≤ ·))
    (hClocks : ∀ c ∈ clocks, c < Int64.maxValue) (h : Rounds setup { store, clock } clocks rounds t)
    (hIds : ∀ e ∈ entries, ¬ IsUsedUp rounds e) : Kept entries clocks rounds t := by
  induction h with
  | start => exact kept_start hStock
  | @pass clocks rounds t u now result before hPass ih =>
      have hLeft : ∀ e ∈ entries, ((tasksOf rounds e).length : Int) + 1 < Int64.maxValue.toInt := by
        intro e hEntry
        have hOne := hIds e hEntry
        rw [IsUsedUp, List.dropLast_concat] at hOne
        omega
      have hKept := ih (List.pairwise_append.mp hSorted).1
        (fun c hc => hClocks c (List.mem_append_left _ hc)) fun e hEntry => by
        have hOne := hLeft e hEntry
        have hPart : (tasksOf rounds.dropLast e).length ≤ (tasksOf rounds e).length :=
          ((List.dropLast_sublist rounds).flatMap _).length_le
        rw [IsUsedUp]
        omega
      have hNow := hClocks now (by simp)
      obtain ⟨rfl, tasks, hRuns, hShows⟩ := hKept.pass_spec hBreaker hNow hLeft hPass
      have hTasks : u.executed.drop t.executed.length = tasks := by
        rw [hShows.executed_eq, List.drop_left]
      rw [hTasks]
      have hStarts := fun e hEntry => (hStock.fresh e hEntry).hasTick_start
      exact hKept.next hStarts before.map_clock hNow hSorted hLeft
        hRuns hShows

/-- Ids are not used up in fewer rounds than there are ids. -/
theorem Rounds.not_isUsedUp {store : Store} (hStock : store.Stocks entries)
    (hBreaker : setup.settings.maxConsecutiveFailures = none) (hSorted : clocks.Pairwise (· ≤ ·))
    (hClocks : ∀ c ∈ clocks, c < Int64.maxValue) (h : Rounds setup { store, clock } clocks rounds t)
    (hShort : (clocks.length : Int) < Int64.maxValue.toInt) : ∀ e ∈ entries, ¬ IsUsedUp rounds e := by
  induction h with
  | start =>
      intro e _ hUsed
      have hNone : (tasksOf [].dropLast e).length = 0 := rfl
      rw [IsUsedUp, Int64.toInt_maxValue, hNone] at hUsed
      omega
  | @pass clocks rounds t u now result before hPass ih =>
      intro e hEntry hUsed
      rw [List.length_append, List.length_singleton] at hShort
      have hInit := (List.pairwise_append.mp hSorted).1
      have hEarly := fun c hc => hClocks c (List.mem_append_left [now] hc)
      have hLeft := ih hInit hEarly (by omega)
      have hKept := before.kept hStock hBreaker hInit hEarly hLeft
      have hFew := hKept.faithful.length_tasksOf_le hEntry
      have hLength : rounds.length = clocks.length := by
        rw [← before.map_clock, List.length_map]
      rw [IsUsedUp, List.dropLast_concat] at hUsed
      omega

/-- At any times in order, before the end of the clock, a scheduler without a limit on failures makes a
round each, whatever becomes of the actions and the reports. Together the rounds run the series of
every entry, unless one of them has used up its ids, of which there are 2⁶³ − 2. -/
theorem rounds_faithful {store : Store}
    (hDrafts : ∀ e ∈ entries, ∃ draft now known stamp, Draft.toEntry draft now known stamp = .ok e)
    (hStore : entries.foldlM Store.insertEntry .empty = .ok store)
    (hBreaker : setup.settings.maxConsecutiveFailures = none) (hSorted : clocks.Pairwise (· ≤ ·))
    (hClocks : ∀ c ∈ clocks, c < Int64.maxValue) :
    (∃ rounds t, Rounds setup { store, clock } clocks rounds t) ∧
      ∀ rounds t, Rounds setup { store, clock } clocks rounds t →
        Faithful entries rounds ∨ ∃ e ∈ entries, IsUsedUp rounds e := by
  refine ⟨exists_rounds setup _ clocks, fun rounds t hRounds => ?_⟩
  by_cases hIds : ∃ e ∈ entries, IsUsedUp rounds e
  · exact .inr hIds
  · have hStock := Store.stocks_of_drafts hDrafts hStore
    refine .inl (hRounds.kept hStock hBreaker hSorted hClocks fun e hEntry hUsed => ?_).faithful
    exact hIds ⟨e, hEntry, hUsed⟩

/-- Two entries, one of which runs once, in three rounds. -/
theorem rounds_faithful_of_two_drafts : ∃ beat once store,
    Draft.toEntry ⟨"beat", "beep", none, some 1, some 40, false, some 10, none, none⟩ 0 (· == "beep") "now" =
        .ok beat ∧
      Draft.toEntry ⟨"once", "beep", none, none, none, false, none, none, none⟩ 7 (· == "beep") "now" =
        .ok once ∧
      [beat, once].foldlM Store.insertEntry .empty = .ok store ∧
      (∃ rounds t, Rounds {} { store, clock := 0 } [5, 5, 38] rounds t) ∧
      ∀ rounds t, Rounds {} { store, clock := 0 } [5, 5, 38] rounds t → Faithful [beat, once] rounds := by
  obtain ⟨beat, once, hBeat, hOnce, hNames⟩ : ∃ beat once,
      Draft.toEntry ⟨"beat", "beep", none, some 1, some 40, false, some 10, none, none⟩ 0 (· == "beep") "now" =
          .ok beat ∧
        Draft.toEntry ⟨"once", "beep", none, none, none, false, none, none, none⟩ 7 (· == "beep") "now" =
          .ok once ∧
        [beat, once].map Entry.name = ["beat", "once"] := ⟨_, _, rfl, rfl, rfl⟩
  have hNodup : ([beat, once].map Entry.name).Nodup := by
    rw [hNames]
    decide
  obtain ⟨store, hStore⟩ := Store.exists_insertEntries (s := .empty) rfl hNodup fun _ _ => rfl
  have hDrafts : ∀ e ∈ [beat, once], ∃ draft now known stamp,
      Draft.toEntry draft now known stamp = .ok e := by
    intro e hEntry
    rcases List.mem_cons.mp hEntry with rfl | hEntry
    · exact ⟨_, _, _, _, hBeat⟩
    · exact ⟨_, _, _, _, List.mem_singleton.mp hEntry ▸ hOnce⟩
  have hSorted : [(5 : Tick), 5, 38].Pairwise (· ≤ ·) := by decide
  have hClocks : ∀ c ∈ [(5 : Tick), 5, 38], c < Int64.maxValue := by
    simp only [List.forall_mem_cons, List.not_mem_nil, false_imp_iff, implies_true, and_true]
    decide
  have hBreaker : ({} : LoopSetup).settings.maxConsecutiveFailures = none := rfl
  obtain ⟨hExists, hAll⟩ := rounds_faithful hDrafts hStore hBreaker hSorted hClocks
  refine ⟨beat, once, store, hBeat, hOnce, hStore, hExists, fun rounds t hRounds => ?_⟩
  rcases hAll rounds t hRounds with hFaithful | ⟨e, hEntry, hUsed⟩
  · exact hFaithful
  · have hStock := Store.stocks_of_drafts hDrafts hStore
    exact absurd hUsed (hRounds.not_isUsedUp hStock rfl hSorted hClocks (by decide) e hEntry)

end Scene

end TickScheduler
