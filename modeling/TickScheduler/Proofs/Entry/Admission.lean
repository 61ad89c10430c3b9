import TickScheduler.Proofs.Entry.Draws
import TickScheduler.Proofs.Entry.Leftovers
import TickScheduler.Proofs.Entry.Series
/-!
Drafts that are admitted. A draft becomes an entry exactly if nothing is wrong with it, and otherwise the fault
that is looked for first is told. The entry then has its first tick, except for one that runs once at the last
tick of the clock: the end of that tick does not fit, so that the entry is given up before it has run.
-/
namespace TickScheduler

namespace Draft

variable {d : Draft} {now start : Tick} {known : String → Bool} {stamp : String} {e : Entry} {f g : Failure}
  {place : Nat}

/-- The name has letters, digits, `-` and `_` only, and at least one of them. -/
def HasSlug (d : Draft) : Prop :=
  d.name ≠ "" ∧ ∀ c ∈ d.name.toList, c.isAlphanum = true ∨ c = '-' ∨ c = '_'

/-- Where the series is to start: right after `now` if that is left open. -/
def startAt (d : Draft) (now : Tick) : Int :=
  match d.start with
  | some start => start.toInt
  | none => now.toInt + 1

/-- Where the series is to stop, be it on the clock or not. -/
def stopAt (d : Draft) (now : Tick) : Option Int :=
  d.stop.map fun stop => if d.stopIsRelative then d.startAt now + stop.toInt else stop.toInt

/-- A fault of a draft at `now`, and its place in the order in which faults are looked for. -/
inductive HasFault (d : Draft) (now : Tick) (known : String → Bool) : Nat → Failure → Prop where
  | name (h : ¬ d.HasSlug) : HasFault d now known 0 (.refused (.badName d.name))
  | action (h : known d.action = false) : HasFault d now known 1 (.error (.unknownAction d.action))
  | stopOverflow {start offset : Tick} (hStart : start.toInt = d.startAt now)
      (hRelative : d.stopIsRelative = true) (hStop : d.stop = some offset)
      (hBeyond : start.toInt + offset.toInt < -0x8000000000000000 ∨
        0x8000000000000000 ≤ start.toInt + offset.toInt) :
      HasFault d now known 2 (.refused (.stopOverflow offset start))
  | interval {interval : Tick} (hInterval : d.interval = some interval) (hSmall : interval.toInt < 1) :
      HasFault d now known 3 (.refused (.badInterval interval))
  | stop {start stop : Tick} (hStart : start.toInt = d.startAt now) (hStop : d.stopAt now = some stop.toInt)
      (hEarly : stop.toInt ≤ start.toInt) : HasFault d now known 4 (.refused (.badStop stop start))

/-- This is wrong with the draft, and nothing that is looked for before. -/
def FailsFirst (d : Draft) (now : Tick) (known : String → Bool) (place : Nat) (f : Failure) : Prop :=
  d.HasFault now known place f ∧ ∀ earlier < place, ∀ g, ¬ d.HasFault now known earlier g

/-- The entry is the one with the span that the draft asks for. -/
def Describes (d : Draft) (now : Tick) (stamp : String) (e : Entry) : Prop :=
  ∃ start stop, start.toInt = d.startAt now ∧ stop.map Int64.toInt = d.stopAt now ∧
    e = d.entryFrom start stop stamp

/-! ### One check after the other -/

theorem isSlug_iff : isSlug d.name = true ↔ d.HasSlug := by
  simp [isSlug, HasSlug, or_assoc]

theorem exists_startTick (h : now < Int64.maxValue) :
    ∃ start, d.startTick now = .ok start ∧ start.toInt = d.startAt now := by
  unfold startTick startAt
  cases d.start with
  | some start => exact ⟨start, rfl, rfl⟩
  | none =>
      obtain ⟨next, hNext⟩ := Entry.exists_succ h
      exact ⟨next, by simp [Entry.earliestTick, hNext], Tick.succ?_eq_some_iff.mp hNext⟩

/-- The stop is told, or it is an offset that leads off the clock. -/
theorem stopTick_cases (known : String → Bool) (hStart : start.toInt = d.startAt now) :
    (∃ stop, d.stopTick start = .ok stop ∧ stop.map Int64.toInt = d.stopAt now ∧
        ∀ g, ¬ d.HasFault now known 2 g) ∨
      ∃ f, d.stopTick start = .error f ∧ d.HasFault now known 2 f := by
  unfold stopTick stopAt
  cases hStop : d.stop with
  | none =>
      refine .inl ⟨none, rfl, rfl, fun g hFault => ?_⟩
      cases hFault with
      | stopOverflow _ _ hOffset => cases hStop.symm.trans hOffset
  | some offset =>
      by_cases hRelative : d.stopIsRelative = true
      · simp only [hRelative, if_true, Option.map_some]
        cases hSum : start.add? offset with
        | some stop =>
            have hEnd := Tick.add?_eq_some_iff.mp hSum
            have hBounds := Tick.toInt_bounds stop
            refine .inl ⟨some stop, rfl, by rw [Option.map_some, hEnd, hStart], fun g hFault => ?_⟩
            cases hFault with
            | stopOverflow hSame _ hOffset hBeyond =>
                cases hStop.symm.trans hOffset
                omega
        | none =>
            rw [Tick.add?, Tick.ofInt?_eq_none_iff] at hSum
            exact .inr ⟨_, rfl, .stopOverflow hStart hRelative hStop hSum⟩
      · simp only [hRelative, Bool.false_eq_true, if_false, Option.map_some]
        refine .inl ⟨some offset, rfl, rfl, fun g hFault => ?_⟩
        cases hFault with
        | stopOverflow _ hOther => exact hRelative hOther

/-- The interval is looked at before the stop. -/
theorem checkTiming_cases {stop : Option Tick} (known : String → Bool) (hStart : start.toInt = d.startAt now)
    (hStop : stop.map Int64.toInt = d.stopAt now) :
    (Entry.checkTiming start stop d.interval = .ok () ∧ (∀ g, ¬ d.HasFault now known 3 g) ∧
        ∀ g, ¬ d.HasFault now known 4 g) ∨
      (∃ f, Entry.checkTiming start stop d.interval = .error f ∧ d.HasFault now known 3 f) ∨
      ∃ f, Entry.checkTiming start stop d.interval = .error f ∧ d.HasFault now known 4 f ∧
        ∀ g, ¬ d.HasFault now known 3 g := by
  unfold Entry.checkTiming
  cases hInterval : d.interval.filter (·.toInt < 1) with
  | some interval =>
      obtain ⟨hMem, hSmall⟩ := Option.filter_eq_some_iff.mp hInterval
      exact .inr (.inl ⟨_, rfl, .interval hMem (by simpa using hSmall)⟩)
  | none =>
      have hSound : ∀ g, ¬ d.HasFault now known 3 g := by
        intro g hFault
        cases hFault with
        | interval hMem hSmall =>
            have hLarge := Option.filter_eq_none_iff.mp hInterval _ hMem
            simp only [decide_eq_true_eq] at hLarge
            exact hLarge hSmall
      cases hEarly : stop.filter (· ≤ start) with
      | some stop =>
          obtain ⟨rfl, hReached⟩ := Option.filter_eq_some_iff.mp hEarly
          rw [decide_eq_true_eq, Int64.le_iff_toInt_le] at hReached
          exact .inr (.inr ⟨_, rfl, .stop hStart hStop.symm hReached, hSound⟩)
      | none =>
          refine .inl ⟨rfl, hSound, fun g hFault => ?_⟩
          cases hFault with
          | stop hSame hOther hReached =>
              obtain ⟨other, rfl, hOtherInt⟩ := Option.map_eq_some_iff.mp (hStop.trans hOther)
              have hLater := Option.filter_eq_none_iff.mp hEarly other rfl
              rw [decide_eq_true_eq, Int64.le_iff_toInt_le] at hLater
              omega

theorem not_hasFault_of_le (h : 5 ≤ place) : ¬ d.HasFault now known place f := by
  intro hFault
  cases hFault <;> omega

/-- There is no fault at a further place either. -/
theorem noneBefore_succ (h : ∀ earlier < place, ∀ g, ¬ d.HasFault now known earlier g)
    (hNone : ∀ g, ¬ d.HasFault now known place g) :
    ∀ earlier < place + 1, ∀ g, ¬ d.HasFault now known earlier g :=
  Nat.forall_lt_succ_right.mpr ⟨h, hNone⟩

/-- All that can become of a draft. -/
theorem toEntry_cases (d : Draft) (known : String → Bool) (stamp : String) (h : now < Int64.maxValue) :
    (∃ place f, d.toEntry now known stamp = .error f ∧ d.FailsFirst now known place f) ∨
      ∃ e, d.toEntry now known stamp = .ok e ∧ d.Describes now stamp e ∧
        ∀ place f, ¬ d.HasFault now known place f := by
  have hNone : ∀ earlier < 0, ∀ g, ¬ d.HasFault now known earlier g :=
    fun _ hBelow => absurd hBelow (Nat.not_lt_zero _)
  unfold toEntry
  by_cases hSlug : isSlug d.name = true
  · have hNamed := noneBefore_succ hNone fun g hFault => by
      cases hFault with
      | name hNot => exact hNot (isSlug_iff.mp hSlug)
    by_cases hKnown : known d.action = true
    · have hRegistered := noneBefore_succ hNamed fun g hFault => by
        cases hFault with
        | action hUnknown => cases hKnown.symm.trans hUnknown
      obtain ⟨start, hStartTick, hStart⟩ := exists_startTick (d := d) h
      simp only [hSlug, hKnown, Bool.not_true, Bool.false_eq_true, if_false, hStartTick, bind, Except.bind]
      rcases stopTick_cases known hStart with
        ⟨stop, hStopTick, hStop, hFits⟩ | ⟨f, hStopTick, hFault⟩
      · have hBounded := noneBefore_succ hRegistered hFits
        simp only [hStopTick]
        rcases checkTiming_cases known hStart hStop with
          ⟨hTiming, hInterval, hLater⟩ | ⟨f, hTiming, hFault⟩ | ⟨f, hTiming, hFault, hInterval⟩
        · have hAll := noneBefore_succ (noneBefore_succ hBounded hInterval) hLater
          simp only [hTiming]
          refine .inr ⟨_, rfl, ⟨start, stop, hStart, hStop, rfl⟩, fun place f => ?_⟩
          by_cases hPlace : place < 5
          · exact hAll place hPlace f
          · exact not_hasFault_of_le (Nat.le_of_not_lt hPlace)
        · exact .inl ⟨3, f, by simp only [hTiming], hFault, hBounded⟩
        · exact .inl ⟨4, f, by simp only [hTiming], hFault, noneBefore_succ hBounded hInterval⟩
      · exact .inl ⟨2, f, by simp only [hStopTick], hFault, hRegistered⟩
    · simp only [hSlug, hKnown, Bool.not_true, Bool.false_eq_true, if_false, Bool.not_false, if_true]
      exact .inl ⟨1, _, rfl, .action (Bool.eq_false_of_not_eq_true hKnown), hNamed⟩
  · simp only [hSlug, Bool.not_false, if_true]
    exact .inl ⟨0, _, rfl, .name fun hNamed => hSlug (isSlug_iff.mpr hNamed), hNone⟩

theorem HasFault.unique (h : d.HasFault now known place f) (hOther : d.HasFault now known place g) : f = g := by
  cases h with
  | name | action =>
      cases hOther
      rfl
  | stopOverflow hStart _ hOffset =>
      cases hOther with
      | stopOverflow hSame _ hOtherOffset =>
          cases hOffset.symm.trans hOtherOffset
          rw [Int64.toInt_inj.mp (hStart.trans hSame.symm)]
  | interval hInterval =>
      cases hOther with
      | interval hSame =>
          cases hInterval.symm.trans hSame
          rfl
  | stop hStart hStop =>
      cases hOther with
      | stop hSame hOtherStop =>
          rw [Int64.toInt_inj.mp (hStart.trans hSame.symm),
            Int64.toInt_inj.mp (Option.some.inj (hStop.symm.trans hOtherStop))]

/-- No two faults come first. -/
theorem FailsFirst.unique {other : Nat} (h : d.FailsFirst now known place f)
    (hOther : d.FailsFirst now known other g) : f = g := by
  rcases Nat.lt_trichotomy place other with hLt | rfl | hGt
  · exact absurd h.1 (hOther.2 place hLt f)
  · exact h.1.unique hOther.1
  · exact absurd hOther.1 (h.2 other hGt g)

theorem Describes.unique {other : Entry} (h : d.Describes now stamp e) (hOther : d.Describes now stamp other) :
    e = other := by
  obtain ⟨start, stop, hStart, hStop, rfl⟩ := h
  obtain ⟨start', stop', hStart', hStop', rfl⟩ := hOther
  have hSameStart : start = start' := Int64.toInt_inj.mp (hStart.trans hStart'.symm)
  have hSameStop : stop = stop' :=
    Option.map_injective (fun _ _ => Int64.toInt_inj.mp) (hStop.trans hStop'.symm)
  rw [hSameStart, hSameStop]

theorem toEntry_eq_error_iff (h : now < Int64.maxValue) :
    d.toEntry now known stamp = .error f ↔ ∃ place, d.FailsFirst now known place f := by
  rcases toEntry_cases d known stamp h with
    ⟨place, g, hEnd, hFirst⟩ | ⟨e, hEnd, -, hNone⟩
  · rw [hEnd, Except.error.injEq]
    constructor
    · rintro rfl
      exact ⟨place, hFirst⟩
    · rintro ⟨other, hOther⟩
      exact hFirst.unique hOther
  · rw [hEnd]
    refine iff_of_false nofun ?_
    rintro ⟨place, hFirst⟩
    exact hNone place f hFirst.1

theorem toEntry_eq_ok_iff (h : now < Int64.maxValue) : d.toEntry now known stamp = .ok e ↔
    d.Describes now stamp e ∧ ∀ place f, ¬ d.HasFault now known place f := by
  rcases toEntry_cases d known stamp h with
    ⟨place, g, hEnd, hFirst⟩ | ⟨other, hEnd, hOther, hNone⟩
  · rw [hEnd]
    exact iff_of_false nofun fun hAccepted => hAccepted.2 place g hFirst.1
  · rw [hEnd, Except.ok.injEq]
    constructor
    · rintro rfl
      exact ⟨hOther, hNone⟩
    · rintro ⟨hDescribes, -⟩
      exact hOther.unique hDescribes

end Draft

/-! ### The first tick -/

namespace Entry

variable {e f : Entry} {now : Tick} {task : Option Task} {horizon : Option Tick}

/-- An entry has its first tick. A look at the clock does not give it up before there is a task of it. -/
structure SetsOut (e : Entry) : Prop where
  hasRemainingTimes : e.hasRemainingTimes = true
  first_tick : (e.remainingTimes none).ticks.head? = some e.start
  kept : ∀ now task f, e.consume now = .ok (task, f) → f.isActive = false → task.isSome = true

/-- The ticks of an entry begin at its cursor, if there are any. -/
theorem head?_remainingTimes (h : (e.remainingTimes horizon).isEmpty = false) :
    (e.remainingTimes horizon).ticks.head? = some e.nextTaskTime := by
  have hCursor : (e.remainingTimes horizon).cursor = e.nextTaskTime := by
    have hNone : TickRange.empty.isEmpty = true := by decide
    revert h
    unfold remainingTimes TickRange.unbounded TickRange.range TickRange.once
    split
    · simp [hNone]
    split
    · simp [hNone]
    split
    all_goals repeat' split
    all_goals simp [hNone]
  rw [← TickRange.first?_ticks, TickRange.first?, h, hCursor]
  rfl

/-- Of an entry with ticks left, none is due or one becomes a task. -/
theorem isSome_of_consume (hLeft : e.hasRemainingTimes = true) (h : e.consume now = .ok (task, f))
    (hRetired : f.isActive = false) : task.isSome = true := by
  obtain ⟨-, -, ⟨-, -, rfl⟩ | ⟨last, next, -, -, rfl, -⟩⟩ := consume_cases h
  · rw [retire, if_pos hLeft, (offers_of_hasRemainingTimes hLeft).1] at hRetired
    cases hRetired
  · rfl

theorem setsOut_iff_hasRemainingTimes (h : e.nextTaskTime = e.start) :
    e.SetsOut ↔ e.hasRemainingTimes = true := by
  refine ⟨SetsOut.hasRemainingTimes, fun hLeft => ⟨hLeft, ?_, fun now task f => isSome_of_consume hLeft⟩⟩
  rw [← h]
  exact head?_remainingTimes (TickRange.isEmpty_of_contains hLeft)

/-- Only the last tick of the clock can be lost, and only by an entry that neither recurs nor stops. -/
theorem IsFresh.setsOut_iff (h : e.IsFresh) :
    e.SetsOut ↔ ¬ (e.start = Int64.maxValue ∧ e.stop = none ∧ e.interval = none) := by
  rw [setsOut_iff_hasRemainingTimes h.nextTaskTime_eq]
  have hOffers : e.Offers e.nextTaskTime := h.offers_iff.mpr (h.nextTaskTime_eq ▸ h.hasTick_start)
  by_cases hLast : e.start = Int64.maxValue
  · have hStop : e.stop = none := by
      refine Option.eq_none_iff_forall_not_mem.mpr fun stop hStop => ?_
      have hBeyond := h.start_lt stop hStop
      rw [hLast] at hBeyond
      exact Int64.lt_irrefl (Std.lt_of_lt_of_le hBeyond (Int64.le_maxValue stop))
    cases hInterval : e.interval with
    | none =>
        have hNone : e.remainingTimes none = .once Int64.maxValue := by
          simp [remainingTimes, h.isActive, hInterval, hStop, bound, h.nextTaskTime_eq, hLast]
        simp only [hLast, hStop, and_self, not_true_eq_false, iff_false, hasRemainingTimes, hNone,
          h.nextTaskTime_eq]
        decide
    | some interval =>
        simp only [reduceCtorEq, and_false, not_false_eq_true, iff_true]
        exact TickRange.mem_ticks.mp ((mem_remainingTimes_of_endless hInterval hStop).mpr hOffers)
  · refine iff_of_true (hasRemainingTimes_of_offers hOffers ?_) fun hAll => hLast hAll.1
    rw [h.nextTaskTime_eq]
    exact Std.lt_of_le_of_ne (Int64.le_maxValue _) hLast

end Entry

namespace Draft

variable {d : Draft} {now : Tick} {known : String → Bool} {stamp : String}

/-- A draft becomes the entry that it describes exactly if nothing is wrong with it, and otherwise the first
fault is told. Such an entry has its first tick unless it runs once at the last tick of the clock. -/
theorem admission (h : now < Int64.maxValue) :
    (∀ e, d.toEntry now known stamp = .ok e ↔
        d.Describes now stamp e ∧ ∀ place f, ¬ d.HasFault now known place f) ∧
      (∀ f, d.toEntry now known stamp = .error f ↔ ∃ place, d.FailsFirst now known place f) ∧
      ∀ e, d.toEntry now known stamp = .ok e →
        (e.SetsOut ↔ ¬ (e.start = Int64.maxValue ∧ e.stop = none ∧ e.interval = none)) :=
  ⟨fun _ => toEntry_eq_ok_iff h, fun _ => toEntry_eq_error_iff h, fun _ hEntry =>
    (isFresh_of_toEntry hEntry).setsOut_iff⟩

/-- From the next tick on, for a span of thirty ticks. -/
def patrol : Draft :=
  ⟨"patrol", "beep", none, none, some 30, true, some 10, none, none⟩

/-- It sets out, unless it is so late that its span leads off the clock. -/
theorem admission_of_patrol :
    (0 < Int64.maxValue ∧ patrol.toEntry 0 (· == "beep") "now" = .ok (patrol.entryFrom 1 (some 31) "now") ∧
      (patrol.entryFrom 1 (some 31) "now").SetsOut) ∧
    (Int64.maxValue - 1 < Int64.maxValue ∧
      ∃ place, patrol.FailsFirst (Int64.maxValue - 1) (· == "beep") place
        (.refused (.stopOverflow 30 Int64.maxValue))) := by
  have hEntry : patrol.toEntry 0 (· == "beep") "now" = .ok (patrol.entryFrom 1 (some 31) "now") := by decide
  have hLate : patrol.toEntry (Int64.maxValue - 1) (· == "beep") "now" =
    .error (.refused (.stopOverflow 30 Int64.maxValue)) := by decide
  refine ⟨⟨by decide, hEntry, ?_⟩, by decide, ?_⟩
  · exact ((admission (by decide)).2.2 _ hEntry).mpr (by decide)
  · exact ((admission (by decide)).2.1 _).mp hLate

/-- Once, at the last tick of the clock. -/
def lastCall : Draft :=
  ⟨"last-call", "beep", none, some Int64.maxValue, none, false, none, none, none⟩

/-- Nothing is wrong with it, and yet it has no tick, and the first look at the clock gives it up. -/
theorem lastCall_lost : ∃ e, lastCall.toEntry 1 (· == "beep") "now" = .ok e ∧ ¬ e.SetsOut ∧
    e.hasRemainingTimes = false ∧ (e.remainingTimes none).isEmpty = true ∧
      ∃ f, e.consume 1 = .ok (none, f) ∧ f.isActive = false := by
  have hNone : (lastCall.entryFrom Int64.maxValue none "now").hasRemainingTimes = false := by decide
  refine ⟨lastCall.entryFrom Int64.maxValue none "now", by decide, fun hSetsOut => ?_, hNone, by decide, ?_⟩
  · cases hNone.symm.trans hSetsOut.hasRemainingTimes
  · exact ⟨{ lastCall.entryFrom Int64.maxValue none "now" with isActive := false }, by decide, rfl⟩

end Draft

end TickScheduler
