import Mathlib.Data.List.Perm.Subperm
import TickScheduler.Proofs.Results.LifeCycle
import TickScheduler.Proofs.Schedule.Forecast
/-!
How far a pass looks ahead. The window of the announced tasks is a multiple of the shortest interval among
the entries that were active when the pass began, so no entry has more tasks in it than the multiple says.
It is also measured by entries that have come to their end in the pass, and is then shorter than the
entries that are left would have it.
-/
namespace TickScheduler

namespace Pass

variable {entries : List Entry} {e : Entry} {interval now lookahead : Tick}

/-! ### The window -/

theorem shortestInterval_cases (entries : List Entry) :
    (((entries.filterMap (·.interval)).filter (0 < ·)) = [] ∧ shortestInterval entries = 1) ∨
      (shortestInterval entries ∈ (entries.filterMap (·.interval)).filter (0 < ·) ∧
        ∀ interval ∈ (entries.filterMap (·.interval)).filter (0 < ·), shortestInterval entries ≤ interval) := by
  unfold shortestInterval
  cases hShortest : ((entries.filterMap (·.interval)).filter (0 < ·)).min? with
  | none => exact .inl ⟨List.min?_eq_none_iff.mp hShortest, rfl⟩
  | some shortest => exact .inr (List.min?_eq_some_iff.mp hShortest)

theorem shortestInterval_pos (entries : List Entry) : 0 < (shortestInterval entries).toInt := by
  rcases shortestInterval_cases entries with ⟨-, hOne⟩ | ⟨hMem, -⟩
  · rw [hOne]
    decide
  · have hPos := of_decide_eq_true (List.mem_filter.mp hMem).2
    rwa [Int64.lt_iff_toInt_lt] at hPos

theorem shortestInterval_le (he : e ∈ entries) (hInterval : e.interval = some interval)
    (hPos : 0 < interval.toInt) : (shortestInterval entries).toInt ≤ interval.toInt := by
  have hMem : interval ∈ (entries.filterMap (·.interval)).filter (0 < ·) := by
    refine List.mem_filter.mpr ⟨List.mem_filterMap.mpr ⟨e, he, hInterval⟩, ?_⟩
    rwa [decide_eq_true_eq, Int64.lt_iff_toInt_lt]
  rcases shortestInterval_cases entries with ⟨hNone, -⟩ | ⟨-, hLeast⟩
  · rw [hNone] at hMem
    cases hMem
  · exact Int64.le_iff_toInt_le.mp (hLeast interval hMem)

/-- However much is cut off at the ends of the clock, the window is never longer than it should be. -/
theorem horizon_le_window (entries : List Entry) (now lookahead : Tick) :
    (horizon entries now lookahead).toInt ≤
      now.toInt + (shortestInterval entries).toInt * (lookahead.toInt.toNat : Int) := by
  have hPos := shortestInterval_pos entries
  have hNow := Tick.toInt_bounds now
  have hSum := Tick.toInt_addClamped now (Tick.mulClamped (shortestInterval entries) lookahead)
  have hProduct : (Tick.mulClamped (shortestInterval entries) lookahead).toInt = _ := Tick.toInt_clamp _
  rw [horizon]
  rcases Int.le_total 0 lookahead.toInt with hAhead | hBack
  · have hNonneg := Int.mul_nonneg (Int.le_of_lt hPos) hAhead
    rw [Int.toNat_of_nonneg hAhead]
    omega
  · have hNonpos := Int.mul_nonpos_of_nonneg_of_nonpos (Int.le_of_lt hPos) hBack
    rw [Int.toNat_of_nonpos hBack]
    omega

end Pass

/-! ### At most so many tasks of an entry -/

namespace Entry

variable {e : Entry} {horizon : Tick} {shortest : Int} {count : Nat}

theorem ticks_of_passed (hPassed : horizon ≤ e.nextTaskTime) :
    (e.remainingTimes (some horizon)).ticks = [] := by
  rw [Int64.le_iff_toInt_le] at hPassed
  refine List.eq_nil_iff_forall_not_mem.mpr fun t ht => ?_
  obtain ⟨hOffers, hEarly⟩ := (mem_remainingTimes (isInReach_of_near (by omega))).mp ht
  have hLow := Int64.le_iff_toInt_le.mp hOffers.nextTaskTime_le
  rw [Int64.lt_iff_toInt_lt] at hEarly
  omega

/-- The ticks of a recurring entry are its interval apart. -/
theorem length_ticks_of_recurring {interval : Tick} (hInterval : e.interval = some interval)
    (hPos : 0 < interval.toInt) (hWindow : horizon.toInt < e.nextTaskTime.toInt + interval.toInt * count) :
    (e.remainingTimes (some horizon)).ticks.length ≤ count := by
  by_cases hActive : e.isActive = true
  · rw [remainingTimes_recurring hActive hInterval hPos]
    by_cases hOpen : e.nextTaskTime < e.cutoff horizon
    · have hCutoff := Int64.le_iff_toInt_le.mp (e.cutoff_le horizon)
      simp only [TickRange.range, hPos, hOpen, dif_pos, if_true]
      rw [TickRange.length_ticks (by rw [TickRange.length?]; rfl)]
      have hQuotient : ((e.cutoff horizon).toInt - e.nextTaskTime.toInt + interval.toInt - 1) / interval.toInt <
          count + 1 := by
        refine Int.ediv_lt_of_lt_mul hPos ?_
        rw [Int.add_mul, Int.one_mul, Int.mul_comm]
        omega
      dsimp only
      omega
    · simp [TickRange.range, hOpen, TickRange.ticks_empty]
  · simp [remainingTimes, hActive, TickRange.ticks_empty]

/-- An entry that runs once has one tick at most. -/
theorem length_ticks_of_once (hInterval : e.interval = none)
    (hNear : horizon.toInt ≤ e.nextTaskTime.toInt + (0x8000000000000000 - 1)) :
    (e.remainingTimes (some horizon)).ticks.length ≤ 1 := by
  have hOnly : (e.remainingTimes (some horizon)).ticks ⊆ [e.nextTaskTime] := by
    intro t ht
    have hTimes := ((mem_remainingTimes (isInReach_of_near hNear)).mp ht).1.2.2
    rw [hInterval] at hTimes
    exact List.mem_singleton.mpr hTimes
  exact (List.subperm_of_subset (TickRange.nodup_ticks _) hOnly).length_le

/-- In a window of so many times an interval that is not longer than its own, an entry has no more ticks. -/
theorem length_announced_le
    (hLeast : ∀ interval, e.interval = some interval → 0 < interval.toInt → shortest ≤ interval.toInt)
    (hNear : horizon.toInt ≤ e.nextTaskTime.toInt + (0x8000000000000000 - 1))
    (hWindow : horizon.toInt < e.nextTaskTime.toInt + shortest * count) :
    (e.announced horizon).length ≤ count := by
  rw [announced, List.length_map]
  cases hInterval : e.interval with
  | some interval =>
      by_cases hPos : 0 < interval.toInt
      · have hWider : shortest * (count : Int) ≤ interval.toInt * count :=
          Int.mul_le_mul_of_nonneg_right (hLeast interval hInterval hPos) (Int.natCast_nonneg count)
        exact length_ticks_of_recurring hInterval hPos (by omega)
      · have hNone : e.remainingTimes (some horizon) = .empty := by
          have hSmall : interval.toInt < 1 := by omega
          simp [remainingTimes, hInterval, hSmall]
        simp [hNone, TickRange.ticks_empty]
  | none =>
      cases count with
      | zero =>
          have hPassed : horizon ≤ e.nextTaskTime := by
            rw [Int64.le_iff_toInt_le]
            simp at hWindow
            omega
          rw [ticks_of_passed hPassed]
          exact Nat.le_refl 0
      | succ count => exact Nat.le_trans (length_ticks_of_once hInterval hNear) (by omega)

theorem announced_of_inactive (hActive : ¬ e.isActive = true) : e.announced horizon = [] := by
  simp [announced, remainingTimes, hActive, TickRange.ticks_empty]

/-- What is announced of an entry goes by its name. -/
theorem filter_announced (e : Entry) (name : String) :
    (e.announced horizon).filter (·.entryName = name) = if e.name = name then e.announced horizon else [] := by
  split
  · rename_i hOwn
    refine List.filter_eq_self.mpr fun τ hτ => ?_
    obtain ⟨t, -, rfl⟩ := List.mem_map.mp hτ
    exact decide_eq_true hOwn
  · rename_i hOther
    refine List.filter_eq_nil_iff.mpr fun τ hτ => ?_
    obtain ⟨t, -, rfl⟩ := List.mem_map.mp hτ
    exact fun hSame => hOther (of_decide_eq_true hSame)

end Entry

/-- Tasks that are still to come, each tick of an entry once, and of no entry more than the lookahead allows. -/
structure TaskQueue.IsPreview (q : TaskQueue) (now lookahead : Tick) : Prop where
  ordered : q.toList.Pairwise (· ≤ ·)
  later : ∀ τ ∈ q.toList, now < τ.time
  unnumbered : ∀ τ ∈ q.toList, τ.taskId = none
  distinct : q.toList.Pairwise fun a b => a.entryName = b.entryName → a.time ≠ b.time
  few : ∀ name, (q.toList.filter (·.entryName = name)).length ≤ lookahead.toInt.toNat

namespace Pass

variable {entries : List Entry} {now lookahead : Tick}

theorem announced_perm (entries : List Entry) (now lookahead : Tick) :
    (announced entries now lookahead).toList.Perm
      (entries.flatMap (·.announced (horizon entries now lookahead))) :=
  TaskQueue.perm_ofList _

/-- The cursors of the active entries are still to come. -/
def AreAhead (entries : List Entry) (now : Tick) : Prop :=
  ∀ e ∈ entries, e.isActive = true → now < e.nextTaskTime

theorem length_announced_of_ahead {e : Entry} (hAhead : AreAhead entries now) (he : e ∈ entries) :
    (e.announced (horizon entries now lookahead)).length ≤ lookahead.toInt.toNat := by
  by_cases hActive : e.isActive = true
  · have hLater := Int64.lt_iff_toInt_lt.mp (hAhead e he hActive)
    have hWindow := horizon_le_window entries now lookahead
    refine Entry.length_announced_le (fun interval hInterval hPos => shortestInterval_le he hInterval hPos)
      (horizon_le_of_lt (hAhead e he hActive)) (by omega)
  · rw [Entry.announced_of_inactive hActive]
    exact Nat.zero_le _

theorem later_of_ahead {e : Entry} (hAhead : AreAhead entries now) (he : e ∈ entries) {τ : Task}
    (hτ : τ ∈ e.announced (horizon entries now lookahead)) : now < τ.time := by
  by_cases hActive : e.isActive = true
  · have hLater := hAhead e he hActive
    obtain ⟨t, hOffers, -, rfl⟩ := (Entry.mem_announced (Entry.isInReach_of_near (horizon_le_of_lt hLater))).mp hτ
    exact Std.lt_of_lt_of_le hLater hOffers.nextTaskTime_le
  · rw [Entry.announced_of_inactive hActive] at hτ
    cases hτ

/-- What is announced of entries whose cursors are still to come is a preview. -/
theorem isPreview_announced (hNames : (entries.map Entry.name).Nodup) (hAhead : AreAhead entries now) :
    (announced entries now lookahead).IsPreview now lookahead := by
  have hPerm := announced_perm entries now lookahead
  have hMem {τ : Task} (hτ : τ ∈ (announced entries now lookahead).toList) :
      ∃ e ∈ entries, τ ∈ e.announced (horizon entries now lookahead) :=
    List.mem_flatMap.mp (hPerm.mem_iff.mp hτ)
  refine ⟨TaskQueue.sorted _, fun τ hτ => ?_, fun τ hτ => ?_, ?_, fun name => ?_⟩
  · obtain ⟨e, he, hOwn⟩ := hMem hτ
    exact later_of_ahead hAhead he hOwn
  · obtain ⟨e, -, hOwn⟩ := hMem hτ
    obtain ⟨t, -, rfl⟩ := List.mem_map.mp hOwn
    rfl
  · rw [hPerm.pairwise_iff fun hDistinct hSame => (hDistinct hSame.symm).symm, List.pairwise_flatMap]
    refine ⟨fun e _ => List.pairwise_map.mpr ((TickRange.nodup_ticks _).imp ?_),
      (List.pairwise_map.mp hNames).imp ?_⟩
    · exact fun hOther _ => hOther
    · intro _ _ hOther a ha b hb hSame
      obtain ⟨t, -, rfl⟩ := List.mem_map.mp ha
      obtain ⟨t', -, rfl⟩ := List.mem_map.mp hb
      exact absurd hSame hOther
  · rw [(hPerm.filter _).length_eq, List.filter_flatMap]
    simp only [Entry.filter_announced]
    by_cases hFound : ∃ e ∈ entries, e.name = name
    · obtain ⟨e, he, rfl⟩ := hFound
      rw [flatMap_of_key hNames he]
      exact length_announced_of_ahead hAhead he
    · rw [List.flatMap_eq_nil_iff.mpr fun e he => if_neg fun hSame => hFound ⟨e, he, hSame⟩]
      exact Nat.zero_le _

/-! ### What the window should be -/

/-- The entries that a look at the clock leaves active. -/
def stillActive (entries : List Entry) (now : Tick) : List Entry :=
  (entries.map (·.settled now)).filter (·.isActive)

/-- A task without id for each tick before a bound that some entries have yet to run. -/
def outlook (entries : List Entry) (bound : Tick) : List Task :=
  entries.flatMap fun e => ((e.remainingTimes none).ticks.filter (· < bound)).map fun tick => e.taskAt tick none

theorem names_stillActive (hNames : (entries.map Entry.name).Nodup) :
    ((stillActive entries now).map Entry.name).Nodup := by
  rw [← Entry.names_settled entries now] at hNames
  exact hNames.sublist (List.filter_sublist.map _)

theorem areAhead_settled (hYields : ∀ e ∈ entries, e.Yields now) :
    AreAhead (entries.map (·.settled now)) now := by
  intro f hf hActive
  obtain ⟨e, he, rfl⟩ := List.mem_map.mp hf
  exact Entry.lt_nextTaskTime_of_consume (hYields e he) hActive

/-- Entries that are not active add nothing to what is announced. -/
theorem flatMap_announced (entries : List Entry) (horizon : Tick) :
    entries.flatMap (·.announced horizon) = (entries.filter (·.isActive)).flatMap (·.announced horizon) := by
  induction entries with
  | nil => rfl
  | cons e rest ih =>
      rw [List.flatMap_cons, ih]
      by_cases hActive : e.isActive = true
      · rw [List.filter_cons_of_pos hActive, List.flatMap_cons]
      · rw [List.filter_cons_of_neg hActive, Entry.announced_of_inactive hActive, List.nil_append]

/-- What is announced are the ticks of the entries that are left, before a bound that also those set that are
not. -/
theorem announced_settled (hYields : ∀ e ∈ entries, e.Yields now) :
    announced (entries.map (·.settled now)) now lookahead =
      .ofList (outlook (stillActive entries now) (horizon entries now lookahead)) := by
  rw [announced, horizon_settled, flatMap_announced, outlook]
  refine congrArg TaskQueue.ofList (List.flatMap_congr fun f hf => ?_)
  obtain ⟨hMem, hActive⟩ := List.mem_filter.mp hf
  rw [Entry.announced, Entry.ticks_remainingTimes (horizon_le_of_lt (areAhead_settled hYields f hMem hActive))]

theorem mem_outlook {e : Entry} {bound tick : Tick} (hNames : (entries.map Entry.name).Nodup)
    (he : e ∈ entries) : e.taskAt tick none ∈ (TaskQueue.ofList (outlook entries bound)).toList ↔
      tick ∈ (e.remainingTimes none).ticks ∧ tick < bound := by
  rw [TaskQueue.mem_ofList, outlook, List.mem_flatMap]
  constructor
  · rintro ⟨f, hf, hTask⟩
    obtain ⟨t, ht, hSame⟩ := List.mem_map.mp hTask
    obtain rfl := List.inj_on_of_nodup_map hNames hf he (congrArg Task.entryName hSame)
    obtain rfl : t = tick := congrArg Task.time hSame
    exact (List.mem_filter.mp ht).imp_right of_decide_eq_true
  · rintro ⟨hTick, hEarly⟩
    exact ⟨e, he, List.mem_map.mpr ⟨tick, List.mem_filter.mpr ⟨hTick, decide_eq_true hEarly⟩, rfl⟩⟩

/-- Two bounds make the same list exactly if no tick lies between them. -/
theorem outlook_eq_iff {first second : Tick} (hNames : (entries.map Entry.name).Nodup) :
    TaskQueue.ofList (outlook entries first) = .ofList (outlook entries second) ↔
      ∀ e ∈ entries, ∀ tick ∈ (e.remainingTimes none).ticks, tick < first ↔ tick < second := by
  constructor
  · intro hSame e he tick hTick
    have hFirst : _ ↔ _ ∧ tick < first := mem_outlook hNames he
    rw [hSame, mem_outlook hNames he] at hFirst
    simpa [hTick] using hFirst.symm
  · intro hBetween
    refine congrArg TaskQueue.ofList (List.flatMap_congr fun e he => ?_)
    rw [List.filter_congr fun tick hTick => decide_eq_decide.mpr (hBetween e he tick hTick)]

end Pass

namespace Watch

variable {faulty : Prop} {setup : LoopSetup} {scene : Scene} {result : Except Failure Unit}
  {t : Watched Pass.Assembly} {now : Tick}

/-- A pass that looks two intervals ahead, while nothing else happens. -/
def glimpse (scene : Scene) : Except Failure Unit × Watched Pass.Assembly :=
  (ExceptT.run (Pass.pass Scene.farsighted)).run (assembling.reply (fun _ => .returned none) fun _ => [])
    (.begin scene {})

theorem leads_glimpse (faulty : Prop) (scene : Scene) :
    Program.Leads (assembling.conduct faulty) (ExceptT.run (Pass.pass Scene.farsighted)) (.begin scene {})
      (.done (glimpse scene).1) (glimpse scene).2 :=
  leads_run (fun _ _ _ => trivial) _ (by simp) _ _

theorem glimpse_clockwork : (glimpse Scene.clockwork).1 = .ok () ∧
    (glimpse Scene.clockwork).2.memory.entries = [Scene.alarm, Scene.chime] ∧
    (glimpse Scene.clockwork).2.memory.readings.all (· = 1) = true ∧
    (glimpse Scene.clockwork).2.scene.monitor.upcoming.toList =
      [⟨11, 5, "beep", "alarm", none⟩, ⟨11, 10, "beep", "chime", none⟩] := by
  unfold glimpse Pass.pass Pass.passOver Pass.announced
  rw [TaskQueue.ofList_eq]
  decide +kernel

/-- If the clock stands still while a pass makes its list, the list is a preview: of each entry it has no
more tasks than the lookahead says, each of them still to come, and none twice. -/
theorem upcoming_is_preview
    (h : Program.Leads (assembling.conduct faulty) (ExceptT.run (Pass.pass setup)) (.begin scene {})
      (.done result) t)
    (hClock : t.memory.StandsAt now) :
    (result = .ok () → t.memory.isAnnounced = true) ∧
      (t.memory.isAnnounced = true →
        t.scene.monitor.upcoming.IsPreview now setup.settings.lookaheadMultiplier) := by
  obtain ⟨hEnd, hNames, hAnnounces⟩ := announces_of_leads h
  refine ⟨hEnd, fun hKnown => ?_⟩
  obtain ⟨hYields, hUpcoming⟩ := hAnnounces hKnown now hClock
  rw [← Entry.names_settled t.memory.entries now] at hNames
  rw [hUpcoming]
  exact Pass.isPreview_announced hNames (Pass.areAhead_settled hYields)

/-- Of an entry that runs once and one that runs again and again, one task each lies ahead. -/
theorem upcoming_is_preview_of_clockwork : ∃ t,
    Program.Leads (assembling.conduct False) (ExceptT.run (Pass.pass Scene.farsighted))
        (.begin Scene.clockwork {}) (.done (.ok ())) t ∧
      t.memory.StandsAt 1 ∧ t.scene.monitor.upcoming.IsPreview 1 2 ∧
      t.scene.monitor.upcoming.toList =
        [⟨11, 5, "beep", "alarm", none⟩, ⟨11, 10, "beep", "chime", none⟩] := by
  obtain ⟨hOk, -, hAll, hTasks⟩ := glimpse_clockwork
  have hLeads := hOk ▸ leads_glimpse False Scene.clockwork
  have hClock := Pass.Assembly.standsAt_of_all hAll
  obtain ⟨hEnd, hPreview⟩ := upcoming_is_preview hLeads hClock
  exact ⟨_, hLeads, hClock, hPreview (hEnd rfl), hTasks⟩

/-- If the clock stands still while a pass makes its list, the list holds the ticks of the entries that are
left, up to a horizon that all entries of the pass set. It is the same as up to the horizon of those that
are left exactly if none of their ticks lies between the two. -/
theorem upcoming_follows_iff
    (h : Program.Leads (assembling.conduct faulty) (ExceptT.run (Pass.pass setup)) (.begin scene {})
      (.done result) t)
    (hClock : t.memory.StandsAt now) :
    (result = .ok () → t.memory.isAnnounced = true) ∧
      (t.memory.isAnnounced = true →
        let all := t.memory.entries
        let left := Pass.stillActive all now
        let lookahead := setup.settings.lookaheadMultiplier
        t.scene.monitor.upcoming = .ofList (Pass.outlook left (Pass.horizon all now lookahead)) ∧
          (t.scene.monitor.upcoming = .ofList (Pass.outlook left (Pass.horizon left now lookahead)) ↔
            ∀ e ∈ left, ∀ tick ∈ (e.remainingTimes none).ticks,
              tick < Pass.horizon all now lookahead ↔ tick < Pass.horizon left now lookahead)) := by
  obtain ⟨hEnd, hNames, hAnnounces⟩ := announces_of_leads h
  refine ⟨hEnd, fun hKnown => ?_⟩
  obtain ⟨hYields, hUpcoming⟩ := hAnnounces hKnown now hClock
  rw [Pass.announced_settled hYields] at hUpcoming
  refine ⟨hUpcoming, ?_⟩
  rw [hUpcoming]
  exact Pass.outlook_eq_iff (Pass.names_stillActive hNames)

/-- What is announced of both reaches as far as it should: both are left, and the window is theirs. -/
theorem upcoming_follows_clockwork : ∃ t,
    Program.Leads (assembling.conduct False) (ExceptT.run (Pass.pass Scene.farsighted))
        (.begin Scene.clockwork {}) (.done (.ok ())) t ∧
      t.memory.StandsAt 1 ∧ t.memory.entries = [Scene.alarm, Scene.chime] ∧
      t.scene.monitor.upcoming = .ofList (Pass.outlook (Pass.stillActive t.memory.entries 1)
        (Pass.horizon (Pass.stillActive t.memory.entries 1) 1 2)) := by
  obtain ⟨hOk, hEntries, hAll, -⟩ := glimpse_clockwork
  have hLeads := hOk ▸ leads_glimpse False Scene.clockwork
  have hClock := Pass.Assembly.standsAt_of_all hAll
  obtain ⟨hEnd, hFollows⟩ := upcoming_follows_iff hLeads hClock
  refine ⟨_, hLeads, hClock, hEntries, (hFollows (hEnd rfl)).2.mpr fun e _ tick _ => ?_⟩
  have hSame : Pass.horizon [Scene.alarm, Scene.chime] 1 2 =
      Pass.horizon (Pass.stillActive [Scene.alarm, Scene.chime] 1) 1 2 := by
    decide +kernel
  rw [hEntries]
  exact iff_of_eq (congrArg (tick < ·) hSame)

/-! ### An entry at its end hides another one -/

/-- At every tick, but it stops after the first. -/
def spark : Entry :=
  Draft.entryFrom ⟨"spark", "beep", none, some 1, some 2, false, some 1, none, none⟩ 1 (some 2) "first"

/-- It shares its first tick with an entry that goes on. -/
def sparkling : Scene where
  store := ([Scene.chime, spark].foldlM Store.insertEntry .empty).toOption.getD .empty
  clock := 1

theorem glimpse_sparkling : (glimpse sparkling).1 = .ok () ∧
    (glimpse sparkling).2.memory.readings.all (· = 1) = true ∧
    (glimpse sparkling).2.memory.entries = [Scene.chime, spark] ∧
    (glimpse sparkling).2.scene.monitor.upcoming.toList = [] := by
  unfold glimpse Pass.pass Pass.passOver Pass.announced
  rw [TaskQueue.ofList_eq]
  decide +kernel

/-- Nothing is announced, though an entry is left that runs again before two of its intervals are over. -/
theorem chime_hidden : ∃ t, Program.Leads (assembling.conduct False) (ExceptT.run (Pass.pass Scene.farsighted))
    (.begin sparkling {}) (.done (.ok ())) t ∧ t.memory.StandsAt 1 ∧
      t.scene.monitor.upcoming ≠ .ofList (Pass.outlook (Pass.stillActive t.memory.entries 1)
        (Pass.horizon (Pass.stillActive t.memory.entries 1) 1 2)) := by
  obtain ⟨hOk, hClock, hEntries, hNone⟩ := glimpse_sparkling
  refine ⟨(glimpse sparkling).2, hOk ▸ leads_glimpse False sparkling, Pass.Assembly.standsAt_of_all hClock,
    fun hSame => ?_⟩
  have hLeft : Pass.stillActive [Scene.chime, spark] 1 = [Scene.chime.settled 1] := by decide +kernel
  rw [hEntries, hLeft] at hSame
  have hTick : (11 : Tick) ∈ ((Scene.chime.settled 1).remainingTimes none).ticks :=
    TickRange.mem_ticks.mpr (by decide +kernel)
  have hInside : (11 : Tick) < Pass.horizon [Scene.chime.settled 1] 1 2 := by decide +kernel
  have hNames : ([Scene.chime.settled 1].map Entry.name).Nodup := List.nodup_singleton _
  have hListed := (Pass.mem_outlook hNames List.mem_cons_self).mpr ⟨hTick, hInside⟩
  rw [← hSame, hNone] at hListed
  cases hListed

end Watch

end TickScheduler
