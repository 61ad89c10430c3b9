import TickScheduler.Engine.Pass
import TickScheduler.Proofs.Entry.Offers
/-!
What one look at the clock does to an entry: the ticks up to now are gone, the latest of them is in the
task, and nothing else was offered or taken back.
-/
namespace TickScheduler.Entry

variable {e f : Entry} {horizon now t last : Tick} {task : Option Task}

/-- The entry once a tick and all before it are taken off. -/
def advance (e : Entry) (last : Tick) : Entry :=
  match e.interval with
  | some interval => { e with nextTaskTime := last.addClamped interval }
  | none => { e with isActive := false }

/-- The entry after everything before a horizon is taken off. -/
def after (e : Entry) (horizon : Tick) : Entry :=
  match e.latestBefore horizon with
  | some last => e.advance last
  | none => e

theorem takeUntil_eq (e : Entry) (horizon : Tick) :
    e.takeUntil horizon = (e.remainingTimes (some horizon), e.after horizon) := by
  unfold takeUntil after advance latestBefore
  dsimp only
  cases (e.remainingTimes (some horizon)).last? with
  | none => rfl
  | some last => cases e.interval <;> rfl

/-- The second entry is the first one with another cursor, and not active unless the first is. -/
inductive Moves (e : Entry) : Entry → Prop where
  | mk (nextTaskTime : Tick) (nextTaskId : TaskId) (isActive : Bool)
      (h : isActive = true → e.isActive = true) : Moves e { e with nextTaskTime, nextTaskId, isActive }

namespace Moves

theorem refl (e : Entry) : e.Moves e := .mk e.nextTaskTime e.nextTaskId e.isActive id

theorem trans {g : Entry} (first : e.Moves f) (second : f.Moves g) : e.Moves g := by
  obtain ⟨_, _, _, hFirst⟩ := first
  obtain ⟨time, taskId, isActive, hSecond⟩ := second
  exact .mk time taskId isActive (hFirst ∘ hSecond)

theorem interval_eq (h : e.Moves f) : f.interval = e.interval := by
  cases h
  rfl

theorem name_eq (h : e.Moves f) : f.name = e.name := by
  cases h
  rfl

theorem modifiedAt_eq (h : e.Moves f) : f.modifiedAt = e.modifiedAt := by
  cases h
  rfl

theorem taskAt_eq (h : e.Moves f) (time : Tick) (taskId : Option TaskId) :
    f.taskAt time taskId = e.taskAt time taskId := by
  cases h
  rfl

theorem isActive (h : e.Moves f) : f.isActive = true → e.isActive = true := by
  cases h
  assumption

end Moves

theorem moves_advance (e : Entry) (last : Tick) : e.Moves (e.advance last) := by
  unfold advance
  split
  · exact .mk _ _ _ id
  · exact .mk _ _ false nofun

theorem moves_retire (e : Entry) : e.Moves e.retire := by
  unfold retire
  split
  · exact .refl e
  · exact .mk _ _ false nofun

@[simp] theorem nextTaskTime_retire (e : Entry) : e.retire.nextTaskTime = e.nextTaskTime := by
  unfold retire
  split <;> rfl

@[simp] theorem nextTaskId_retire (e : Entry) : e.retire.nextTaskId = e.nextTaskId := by
  unfold retire
  split <;> rfl

theorem lt_addClamped {interval : Tick} (hPos : 0 < interval.toInt) (hRoom : last < Int64.maxValue) :
    last < last.addClamped interval := by
  have hBounds := Tick.toInt_bounds last
  rw [Int64.lt_iff_toInt_lt] at hRoom ⊢
  rw [Int64.toInt_maxValue] at hRoom
  rw [Tick.toInt_addClamped]
  omega

/-- A tick after another one of a progression is one step past it at least, and counting from there
makes no difference. -/
theorem dvd_past_iff {step next : Int} (hDvd : step ∣ last.toInt - next)
    (hPast : last.toInt < t.toInt) :
    step ∣ t.toInt - next ↔
      last.toInt + step ≤ t.toInt ∧ step ∣ t.toInt - (last.toInt + step) := by
  rw [show t.toInt - next = (last.toInt - next) + (step + (t.toInt - (last.toInt + step))) by omega,
    Int.dvd_add_right hDvd, Int.dvd_add_right (Int.dvd_refl step)]
  refine ⟨fun h => ⟨?_, h⟩, And.right⟩
  have hOn : step ∣ t.toInt - last.toInt := by
    rw [show t.toInt - last.toInt = step + (t.toInt - (last.toInt + step)) by omega]
    exact (Int.dvd_add_right (Int.dvd_refl step)).mpr h
  have hStep := Int.le_of_dvd (by omega) hOn
  omega

/-- The latest tick before a horizon. -/
theorem offers_latestBefore {interval : Tick} (hInterval : e.interval = some interval)
    (hLatest : e.latestBefore horizon = some last) :
    e.Offers last ∧ last < horizon ∧ ∀ t, e.Offers t → last < t → horizon ≤ t := by
  rcases e.latestBefore_cases horizon with ⟨hNone, -⟩ | ⟨latest, hFound, hActive, hLow, hHigh, hKind⟩
  · rw [hLatest] at hNone
    cases hNone
  · obtain rfl : last = latest := Option.some.inj (hLatest.symm.trans hFound)
    rw [hInterval] at hKind
    obtain ⟨hPos, hDvd, hEnd⟩ := hKind
    obtain ⟨hBefore, hStop⟩ := lt_cutoff_iff.mp hHigh
    refine ⟨⟨hActive, hStop, ?_⟩, hBefore, fun t hOffers hPast => Int64.not_lt.mp fun hEarly => ?_⟩
    · rw [hInterval]
      exact ⟨hPos, hLow, hDvd⟩
    · have hOn := hOffers.2.2
      rw [hInterval] at hOn
      have hStep := ((dvd_past_iff hDvd (Int64.lt_iff_toInt_lt.mp hPast)).mp hOn.2.2).1
      have hCut := Int64.lt_iff_toInt_lt.mp (lt_cutoff_iff.mpr ⟨hEarly, hOffers.2.1⟩)
      omega

/-- The latest tick before a horizon is missing only if there is none. -/
theorem le_of_latestBefore_eq_none (h : e.latestBefore horizon = none) (hOffers : e.Offers t) : horizon ≤ t := by
  rcases e.latestBefore_cases horizon with ⟨-, hLate⟩ | ⟨last, hFound, -⟩
  · exact Int64.not_lt.mp fun hEarly => hLate t hEarly hOffers
  · rw [h] at hFound
    cases hFound

/-- The cursor one step past the latest tick before a cutoff offers exactly the later ticks. -/
private theorem offers_advance {interval : Tick} (hInterval : e.interval = some interval)
    (hActive : e.isActive = true) (hLow : e.nextTaskTime ≤ last) (hHigh : last < e.cutoff horizon)
    (hPos : 0 < interval.toInt) (hDvd : interval.toInt ∣ last.toInt - e.nextTaskTime.toInt)
    (hNext : (e.cutoff horizon).toInt ≤ last.toInt + interval.toInt) (ht : t < Int64.maxValue) :
    (e.advance last).Offers t ↔ e.Offers t ∧ horizon ≤ t := by
  obtain ⟨hBefore, -⟩ := lt_cutoff_iff.mp hHigh
  have hSum := Tick.toInt_addClamped last interval
  have hBounds := Tick.toInt_bounds last
  simp only [Int64.lt_iff_toInt_lt, Int64.toInt_maxValue] at ht hBefore
  simp only [advance, hInterval, Offers, Int64.le_iff_toInt_le] at hLow ⊢
  constructor
  · rintro ⟨-, hEnd, -, hFrom, hOn⟩
    have hExact : (last.addClamped interval).toInt = last.toInt + interval.toInt := by omega
    have hReached : ¬ t < e.cutoff horizon := by
      rw [Int64.lt_iff_toInt_lt]
      omega
    have hOver : ¬ t < horizon := fun early => hReached (lt_cutoff_iff.mpr ⟨early, hEnd⟩)
    rw [Int64.lt_iff_toInt_lt] at hOver
    rw [hExact] at hFrom hOn
    exact ⟨⟨hActive, hEnd, hPos, by omega, (dvd_past_iff hDvd (by omega)).mpr ⟨hFrom, hOn⟩⟩,
      by omega⟩
  · rintro ⟨⟨-, hEnd, -, -, hOn⟩, hOver⟩
    obtain ⟨hStep, hOn⟩ := (dvd_past_iff hDvd (by omega)).mp hOn
    have hExact : (last.addClamped interval).toInt = last.toInt + interval.toInt := by omega
    rw [hExact]
    exact ⟨hActive, hEnd, hPos, hStep, hOn⟩

/-- Taking everything before a horizon off an entry leaves exactly the later ticks. -/
theorem offers_after (ht : t < Int64.maxValue) :
    (e.after horizon).Offers t ↔ e.Offers t ∧ horizon ≤ t := by
  unfold after
  rcases e.latestBefore_cases horizon with ⟨hNone, hLate⟩ | ⟨last, hLast, hActive, hLow, hHigh, hKind⟩
  · rw [hNone]
    exact ⟨fun h => ⟨h, Int64.not_lt.mp fun early => hLate t early h⟩, And.left⟩
  · rw [hLast]
    cases hInterval : e.interval with
    | some interval =>
        rw [hInterval] at hKind
        exact offers_advance hInterval hActive hLow hHigh hKind.1 hKind.2.1 hKind.2.2 ht
    | none =>
        -- the one tick of the entry lay before the horizon
        simp only [advance, hInterval, Offers, Bool.false_eq_true, false_and, false_iff, not_and]
        rintro ⟨-, -, rfl⟩
        exact Int64.not_le.mpr (Std.lt_of_le_of_lt hLow (lt_cutoff_iff.mp hHigh).1)

/-- An entry that still offers a tick, the last one of the clock apart, counts as having one left. -/
theorem hasRemainingTimes_of_offers (h : e.Offers t) (ht : t < Int64.maxValue) :
    e.hasRemainingTimes = true := by
  have hLe := h.nextTaskTime_le
  obtain ⟨hActive, hStop, hTimes⟩ := h
  simp only [Int64.lt_iff_toInt_lt, Int64.le_iff_toInt_le, Int64.toInt_maxValue] at hStop ht hLe
  unfold hasRemainingTimes remainingTimes
  cases hInterval : e.interval with
  | some interval =>
      rw [hInterval] at hTimes
      have hSmall : ¬ interval.toInt < 1 := by omega
      cases hEnd : e.stop with
      | none =>
          simp [hActive, bound, hSmall, TickRange.unbounded, hTimes.1, TickRange.contains,
            TickRange.isEmpty]
      | some stop =>
          have hOpen : e.nextTaskTime < stop := by
            rw [Int64.lt_iff_toInt_lt]
            have := hStop stop hEnd
            omega
          simp [hActive, bound, hSmall, TickRange.range, hTimes.1, hOpen, TickRange.contains,
            TickRange.isEmpty]
  | none =>
      rw [hInterval] at hTimes
      subst hTimes
      cases hEnd : e.stop with
      | none =>
          have hOpen : e.nextTaskTime < e.nextTaskTime.addClamped 1 := by
            apply lt_addClamped (by decide)
            rw [Int64.lt_iff_toInt_lt, Int64.toInt_maxValue]
            exact ht
          simp [hActive, bound, TickRange.once, hOpen, TickRange.contains, TickRange.isEmpty]
      | some stop =>
          have hOpen : e.nextTaskTime < stop := Int64.lt_iff_toInt_lt.mpr (hStop stop hEnd)
          have hOpenInt := hStop stop hEnd
          have hStep := Tick.toInt_absClamped (stop.subClamped e.nextTaskTime)
          have hGap := Tick.toInt_subClamped stop e.nextTaskTime
          have hPos : 0 < (Tick.absClamped (stop.subClamped e.nextTaskTime)).toInt := by omega
          simp [hActive, bound, TickRange.range, hPos, hOpen, TickRange.contains, TickRange.isEmpty]

theorem offers_retire (ht : t < Int64.maxValue) : e.retire.Offers t ↔ e.Offers t := by
  unfold retire
  split
  · rfl
  · rename_i hNone
    constructor
    · exact fun h => absurd h.1 Bool.false_ne_true
    · exact fun h => absurd (hasRemainingTimes_of_offers h ht) hNone

/-- The entry that is stored for one of which a tick became a task. -/
def consumed (e : Entry) (last : Tick) (next : TaskId) : Entry :=
  { (e.advance last).retire with nextTaskId := next }

theorem moves_consumed (e : Entry) (last : Tick) (next : TaskId) : e.Moves (e.consumed last next) :=
  ((e.moves_advance last).trans (moves_retire _)).trans (.mk _ next _ id)

/-- What a look at the clock makes of an entry. -/
theorem consume_eq (h : Tick.succ? now = some horizon) (e : Entry) :
    e.consume now =
      match e.latestBefore horizon with
      | none => .ok (none, e.retire)
      | some last =>
        match Tick.succ? e.nextTaskId with
        | none => .error .overflow
        | some next => .ok (some (e.taskAt last (some e.nextTaskId)), e.consumed last next) := by
  have hId (last : Tick) : (e.advance last).nextTaskId = e.nextTaskId := by
    unfold advance
    split <;> rfl
  simp only [consume, takePending, h, takeUntil_eq, bind, Except.bind, after]
  change (match e.latestBefore horizon with | none => _ | some time => _) = _
  cases hLatest : e.latestBefore horizon with
  | none => rfl
  | some last =>
      simp only [takeTaskId, nextTaskId_retire, hId]
      cases hNext : Tick.succ? e.nextTaskId with
      | none => rfl
      | some next =>
          exact congrArg (fun task => Except.ok (some task, e.consumed last next))
            ((e.moves_consumed last next).taskAt_eq last (some e.nextTaskId))

theorem exists_succ {a : Int64} (h : a < Int64.maxValue) : ∃ b, Tick.succ? a = some b := by
  cases hb : Tick.succ? a with
  | some b => exact ⟨b, rfl⟩
  | none =>
      rw [Tick.succ?_eq_none_iff] at hb
      subst hb
      exact (Int64.lt_irrefl h).elim

/-- All that a look at the clock can come to: nothing is due, or the latest due tick is taken with an id. -/
theorem consume_cases (h : e.consume now = .ok (task, f)) : ∃ horizon, Tick.succ? now = some horizon ∧
    ((e.latestBefore horizon = none ∧ task = none ∧ f = e.retire) ∨
      ∃ last next, e.latestBefore horizon = some last ∧ Tick.succ? e.nextTaskId = some next ∧
        task = some (e.taskAt last (some e.nextTaskId)) ∧ f = e.consumed last next) := by
  cases hHorizon : Tick.succ? now with
  | none => simp [consume, takePending, hHorizon, bind, Except.bind] at h
  | some horizon =>
      refine ⟨horizon, rfl, ?_⟩
      rw [consume_eq hHorizon] at h
      cases hLatest : e.latestBefore horizon with
      | none =>
          simp only [hLatest, Except.ok.injEq, Prod.mk.injEq] at h
          exact .inl ⟨rfl, h.1.symm, h.2.symm⟩
      | some last =>
          cases hNext : Tick.succ? e.nextTaskId with
          | none => simp [hLatest, hNext] at h
          | some next =>
              simp only [hLatest, hNext, Except.ok.injEq, Prod.mk.injEq] at h
              exact .inr ⟨last, next, rfl, rfl, h.1.symm, h.2.symm⟩

/-- An entry can be looked at unless the clock or its ids have come to their end. -/
theorem exists_consume (hNow : now < Int64.maxValue) (hId : e.nextTaskId < Int64.maxValue) :
    ∃ task f, e.consume now = .ok (task, f) := by
  obtain ⟨horizon, hHorizon⟩ := exists_succ hNow
  obtain ⟨next, hNext⟩ := exists_succ hId
  rw [consume_eq hHorizon]
  cases e.latestBefore horizon with
  | none => exact ⟨none, e.retire, rfl⟩
  | some last => exact ⟨_, _, by rw [hNext]⟩

/-- What is known of a task that a look at the clock made of an entry, and of the entry after it. -/
structure Takes (e : Entry) (now : Tick) (τ : Task) (f : Entry) : Prop where
  eq_taskAt : τ = e.taskAt τ.time (some e.nextTaskId)
  isActive : e.isActive = true
  le_time : e.nextTaskTime ≤ τ.time
  time_le : τ.time ≤ now
  lt_stop : ∀ stop, e.stop = some stop → τ.time < stop
  latest : e.interval.isSome = true → e.Offers τ.time ∧ ∀ t, t ≤ now → e.Offers t → t ≤ τ.time
  id_succ : f.nextTaskId.toInt = e.nextTaskId.toInt + 1
  /-- The cursor is past the task, or the entry is at its end. -/
  time_lt : f.isActive = true → τ.time < f.nextTaskTime

theorem Takes.entryName_eq {τ : Task} (h : e.Takes now τ f) : τ.entryName = e.name := by
  rw [h.eq_taskAt]
  rfl

theorem Takes.taskId_eq {τ : Task} (h : e.Takes now τ f) : τ.taskId = some e.nextTaskId := by
  rw [h.eq_taskAt]
  rfl

/-- A task stands for an offered tick that it does not come before. -/
theorem Takes.exists_offers {τ : Task} (h : e.Takes now τ f) : ∃ t, e.Offers t ∧ t ≤ τ.time := by
  cases hInterval : e.interval with
  | some interval => exact ⟨τ.time, (h.latest (by rw [hInterval, Option.isSome_some])).1, Int64.le_refl _⟩
  | none =>
      refine ⟨e.nextTaskTime, ⟨h.isActive, fun stop hStop => ?_, ?_⟩, h.le_time⟩
      · have hBefore := h.lt_stop stop hStop
        have hLow := h.le_time
        rw [Int64.lt_iff_toInt_lt] at hBefore ⊢
        rw [Int64.le_iff_toInt_le] at hLow
        omega
      · rw [hInterval]

/-- What is known after a look at the clock. -/
structure Consumes (e : Entry) (now : Tick) (task : Option Task) (f : Entry) : Prop where
  moves : e.Moves f
  /-- The ticks up to now are gone, and no others. -/
  offers : ∀ t, t < Int64.maxValue → (f.Offers t ↔ e.Offers t ∧ now < t)
  idle : task = none → f.nextTaskTime = e.nextTaskTime ∧ f.nextTaskId = e.nextTaskId ∧
    ∀ t, t ≤ now → ¬ e.Offers t
  takes : ∀ τ, task = some τ → e.Takes now τ f

private theorem takes_of_latestBefore (hHorizon : Tick.succ? now = some horizon)
    (hLatest : e.latestBefore horizon = some last) {next : TaskId}
    (hNext : Tick.succ? e.nextTaskId = some next) :
    e.Takes now (e.taskAt last (some e.nextTaskId)) (e.consumed last next) := by
  have hHorizonInt := Tick.succ?_eq_some_iff.mp hHorizon
  have hBounds := Tick.toInt_bounds horizon
  rcases e.latestBefore_cases horizon with ⟨hNone, -⟩ | ⟨latest, hFound, hActive, hLow, hHigh, hKind⟩
  · rw [hLatest] at hNone
    cases hNone
  · obtain rfl : last = latest := Option.some.inj (hLatest.symm.trans hFound)
    obtain ⟨hBefore, hStop⟩ := lt_cutoff_iff.mp hHigh
    rw [Int64.lt_iff_toInt_lt] at hBefore
    refine ⟨rfl, hActive, hLow, ?_, hStop, fun hSome => ?_, Tick.succ?_eq_some_iff.mp hNext, ?_⟩
    · rw [Int64.le_iff_toInt_le]
      simp only [taskAt]
      omega
    · obtain ⟨interval, hInterval⟩ := Option.isSome_iff_exists.mp hSome
      obtain ⟨hOffered, -, hLater⟩ := offers_latestBefore hInterval hLatest
      refine ⟨hOffered, fun t ht hOffers => Int64.not_lt.mp fun hPast => ?_⟩
      have hFrom := Int64.le_iff_toInt_le.mp (hLater t hOffers hPast)
      rw [Int64.le_iff_toInt_le] at ht
      omega
    · intro hStill
      change (e.advance last).retire.isActive = true at hStill
      change last < (e.advance last).retire.nextTaskTime
      have hOn := (moves_retire _).isActive hStill
      rw [nextTaskTime_retire]
      cases hInterval : e.interval with
      | none => simp [advance, hInterval] at hOn
      | some interval =>
          rw [hInterval] at hKind
          simp only [advance, hInterval]
          apply lt_addClamped hKind.1
          rw [Int64.lt_iff_toInt_lt, Int64.toInt_maxValue]
          omega

theorem consumes_of_consume (h : e.consume now = .ok (task, f)) : e.Consumes now task f := by
  obtain ⟨horizon, hHorizon, hCases⟩ := consume_cases h
  have hHorizonInt := Tick.succ?_eq_some_iff.mp hHorizon
  have hOver (t : Tick) : horizon ≤ t ↔ now < t := by
    rw [Int64.le_iff_toInt_le, Int64.lt_iff_toInt_lt]
    omega
  have hAfter (t : Tick) (ht : t < Int64.maxValue) :
      (e.after horizon).retire.Offers t ↔ e.Offers t ∧ now < t := by
    rw [offers_retire ht, offers_after ht, hOver]
  rcases hCases with ⟨hLatest, rfl, rfl⟩ | ⟨last, next, hLatest, hNext, rfl, rfl⟩
  · rw [after, hLatest] at hAfter
    refine ⟨e.moves_retire, hAfter, fun _ => ?_, nofun⟩
    refine ⟨nextTaskTime_retire e, nextTaskId_retire e, ?_⟩
    intro t ht
    rcases e.latestBefore_cases horizon with ⟨-, hLate⟩ | ⟨last, hFound, -⟩
    · apply hLate
      rw [← Int64.not_le, hOver]
      exact Int64.not_lt.mpr ht
    · rw [hLatest] at hFound
      cases hFound
  · rw [after, hLatest] at hAfter
    refine ⟨e.moves_consumed last next, fun t ht => ?_, nofun, ?_⟩
    · exact (offers_congr rfl rfl rfl rfl).trans (hAfter t ht)
    · rintro τ ⟨⟩
      exact takes_of_latestBefore hHorizon hLatest hNext

/-- The cursor of a recurring entry is past the task even if the entry is at its end. -/
theorem time_lt_of_recurring {interval : Tick} {τ : Task} (h : e.consume now = .ok (some τ, f))
    (hInterval : e.interval = some interval) : τ.time < f.nextTaskTime := by
  have hTakes := (consumes_of_consume h).takes τ rfl
  have hOffers := (hTakes.latest (by rw [hInterval, Option.isSome_some])).1.2.2
  rw [hInterval] at hOffers
  obtain ⟨horizon, hHorizon, ⟨-, hNone, -⟩ | ⟨last, next, -, -, hTask, rfl⟩⟩ := consume_cases h
  · cases hNone
  · obtain rfl := Option.some.inj hTask
    have hHorizonInt := Tick.succ?_eq_some_iff.mp hHorizon
    have hBounds := Tick.toInt_bounds horizon
    have hRoom : last < Int64.maxValue := by
      have hTime := Int64.le_iff_toInt_le.mp hTakes.time_le
      simp only [taskAt] at hTime
      rw [Int64.lt_iff_toInt_lt, Int64.toInt_maxValue]
      omega
    change last < (e.advance last).retire.nextTaskTime
    rw [nextTaskTime_retire]
    simp only [advance, hInterval]
    exact lt_addClamped hOffers.1 hRoom

theorem le_nextTaskTime_advance (hLatest : e.latestBefore horizon = some last) :
    e.nextTaskTime ≤ (e.advance last).nextTaskTime := by
  rcases e.latestBefore_cases horizon with ⟨hNone, -⟩ | ⟨latest, hFound, -, hLow, -, hKind⟩
  · rw [hLatest] at hNone
    cases hNone
  · obtain rfl : last = latest := Option.some.inj (hLatest.symm.trans hFound)
    cases hInterval : e.interval with
    | none => simp [advance, hInterval]
    | some interval =>
        rw [hInterval] at hKind
        have hSum := Tick.toInt_addClamped last interval
        have hBounds := Tick.toInt_bounds last
        have hPos := hKind.1
        simp only [advance, hInterval]
        rw [Int64.le_iff_toInt_le] at hLow ⊢
        omega

/-- Taking ticks off an entry never moves its cursor back. -/
theorem le_nextTaskTime_of_consume (h : e.consume now = .ok (task, f)) :
    e.nextTaskTime ≤ f.nextTaskTime := by
  obtain ⟨horizon, -, ⟨-, -, rfl⟩ | ⟨last, next, hLatest, -, -, rfl⟩⟩ := consume_cases h
  · exact Int64.le_of_eq (nextTaskTime_retire e).symm
  · change e.nextTaskTime ≤ (e.advance last).retire.nextTaskTime
    rw [nextTaskTime_retire]
    exact le_nextTaskTime_advance hLatest

theorem Takes.nextTaskId_lt {τ : Task} (h : e.Takes now τ f) : e.nextTaskId < f.nextTaskId := by
  have hSucc := h.id_succ
  rw [Int64.lt_iff_toInt_lt]
  omega

theorem Consumes.le_nextTaskId (h : e.Consumes now task f) : e.nextTaskId ≤ f.nextTaskId := by
  cases task with
  | none => exact Int64.le_of_eq (h.idle rfl).2.1.symm
  | some τ => exact Int64.le_of_lt (h.takes τ rfl).nextTaskId_lt

end TickScheduler.Entry
