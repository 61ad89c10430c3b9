import TickScheduler.Proofs.Entry.Ticks
/-!
Drawing ticks from a range. One draw after the other, with or without skipping ticks, a range gives what the
list of its ticks would give. What it tells of itself without being drawn from, by arithmetic on its three
numbers, is what is left of that list, whether its stop ends it, the clock, or a draw past its end.
-/
namespace TickScheduler.TickRange

/-- The ways to take ticks off a range. -/
inductive Draw where
  | next
  /-- Some ticks are skipped first. -/
  | nth (skipped : Nat)
deriving DecidableEq, Repr

namespace Draw

/-- What a draw from a list gives, and what it leaves. -/
def ofList (ticks : List Tick) : Draw → Option Tick × List Tick
  | next => (ticks.head?, ticks.tail)
  | nth skipped => (ticks[skipped]?, ticks.drop (skipped + 1))

/-- What a draw from a range gives, and what it leaves. -/
def ofRange (r : TickRange) : Draw → Option Tick × TickRange
  | next =>
    match r.next? with
    | some (tick, rest) => (some tick, rest)
    | none => (none, r)
  | nth skipped => r.nth? skipped

/-- What draws give one after the other, and what they leave. -/
def series {Source : Type} (draw : Source → Draw → Option Tick × Source) :
    List Draw → Source → List (Option Tick) × Source
  | [], source => ([], source)
  | first :: rest, source =>
    let (given, source) := draw source first
    let (more, source) := series draw rest source
    (given :: more, source)

end Draw

/-- What a range tells of itself is so of a list of ticks. -/
structure Tells (r : TickRange) (ticks : List Tick) : Prop where
  contains_iff : ∀ t, r.contains t = true ↔ t ∈ ticks
  isEmpty_eq : r.isEmpty = ticks.isEmpty
  first?_eq : r.first? = ticks.head?
  length?_eq : r.length? = if r.isBounded then some ticks.length else none
  /-- A length that is told fits 64 bits. -/
  length?_lt : ∀ n, r.length? = some n → n < 0x10000000000000000
  count_eq : r.count = ticks.length
  last?_eq : r.last? = ticks.getLast?

variable {r rest : TickRange} {t tick : Tick} {n : Nat}

theorem next?_eq_none_iff : r.next? = none ↔ r.isEmpty = true := by
  unfold next?
  split
  · rename_i hEmpty
    exact iff_of_true rfl hEmpty
  · rename_i hPresent
    exact iff_of_false (Option.some_ne_none _) hPresent

theorem ticks_of_isEmpty (h : r.isEmpty = true) : r.ticks = [] :=
  ticks_of_none (next?_eq_none_iff.mpr h)

theorem ticks_exhaust (r : TickRange) : r.exhaust.ticks = [] :=
  ticks_of_isEmpty r.isEmpty_exhaust

/-- A range that is not empty gives the tick of its cursor. -/
theorem next?_of_present (h : r.isEmpty = false) : ∃ rest, r.next? = some (r.cursor, rest) := by
  unfold next?
  rw [h]
  exact ⟨_, rfl⟩

theorem ticks_of_present (h : r.isEmpty = false) : ∃ rest, r.ticks = r.cursor :: rest := by
  obtain ⟨rest, hNext⟩ := next?_of_present h
  exact ⟨rest.ticks, ticks_of_some hNext⟩

theorem isEmpty_of_contains (h : r.contains t = true) : r.isEmpty = false := by
  by_contra hEmpty
  rw [not_contains_of_isEmpty (by simpa using hEmpty)] at h
  cases h

/-! ### Drawing -/

/-- What is left after a tick is empty, or stands one step further on. -/
theorem next?_cases (h : r.next? = some (tick, rest)) : r.isEmpty = false ∧ tick = r.cursor ∧
    ((r.cursor.add? r.step = none ∧ rest = r.exhaust) ∨
      ∃ cursor, r.cursor.add? r.step = some cursor ∧ rest = { r with cursor }) := by
  have hPresent : r.isEmpty = false := by
    by_contra hEmpty
    rw [next?_eq_none_iff.mpr (by simpa using hEmpty)] at h
    cases h
  simp only [next?, hPresent, Bool.false_eq_true, if_false, Option.some.injEq, Prod.mk.injEq] at h
  obtain ⟨rfl, rfl⟩ := h
  refine ⟨hPresent, rfl, ?_⟩
  cases r.cursor.add? r.step with
  | none => exact .inl ⟨rfl, rfl⟩
  | some cursor => exact .inr ⟨cursor, rfl, rfl⟩

/-- Skipping ticks moves the cursor on, unless that leads past the stop or the end of the clock. -/
theorem nth?_eq (r : TickRange) (n : Nat) : r.nth? n =
    match Tick.ofInt? (r.cursor.toInt + n * r.step.toInt) with
    | some cursor =>
      if ({ r with cursor } : TickRange).isEmpty then (none, r.exhaust)
      else Draw.ofRange { r with cursor } .next
    | none => (none, r.exhaust) := by
  dsimp only [nth?]
  cases hTarget : Tick.ofInt? (r.cursor.toInt + n * r.step.toInt) with
  | none => rfl
  | some cursor =>
      have hLater : r.cursor.toInt ≤ cursor.toInt := by
        have hSteps : 0 ≤ (n : Int) * r.step.toInt :=
          Int.mul_nonneg (Int.natCast_nonneg n) (Int.le_of_lt r.step_pos)
        have hCursor := Tick.ofInt?_eq_some_iff.mp hTarget
        omega
      have hEnd : (r.isEmpty || r.stop.any (· ≤ cursor)) = r.stop.any (· ≤ cursor) := by
        cases hStop : r.stop with
        | none => simp [isEmpty, hStop]
        | some stop =>
            simp only [isEmpty, hStop, Option.any_some, Bool.or_eq_right_iff_imp, decide_eq_true_eq]
            exact fun hReached => Int64.le_trans hReached (Int64.le_iff_toInt_le.mpr hLater)
      simp only [hEnd]
      rfl

theorem nth?_of_isEmpty (h : r.isEmpty = true) : r.nth? n = (none, r.exhaust) := by
  dsimp only [nth?]
  split
  · simp [h]
  · rfl

/-- Skipping one tick more is taking the first one off before. -/
theorem nth?_succ (h : r.next? = some (tick, rest)) :
    (r.nth? (n + 1)).1 = (rest.nth? n).1 ∧ (r.nth? (n + 1)).2.ticks = (rest.nth? n).2.ticks := by
  have hShift : ((n + 1 : Nat) : Int) * r.step.toInt = r.step.toInt + n * r.step.toInt := by
    rw [Int.natCast_add, Int.add_mul]
    omega
  obtain ⟨-, -, ⟨hEnd, rfl⟩ | ⟨cursor, hMoved, rfl⟩⟩ := next?_cases h
  · -- the clock ends before the step, and all the more before further ones
    have hTarget : Tick.ofInt? (r.cursor.toInt + (n + 1 : Nat) * r.step.toInt) = none := by
      have hSteps : 0 ≤ (n : Int) * r.step.toInt :=
        Int.mul_nonneg (Int.natCast_nonneg n) (Int.le_of_lt r.step_pos)
      have hPos := r.step_pos
      have hBounds := Tick.toInt_bounds r.cursor
      rw [Tick.add?, Tick.ofInt?_eq_none_iff] at hEnd
      rw [Tick.ofInt?_eq_none_iff]
      omega
    rw [nth?_eq, hTarget, nth?_of_isEmpty r.isEmpty_exhaust]
    exact ⟨rfl, by rw [ticks_exhaust, ticks_exhaust]⟩
  · have hTarget : r.cursor.toInt + (n + 1 : Nat) * r.step.toInt = cursor.toInt + n * r.step.toInt := by
      have hCursor := Tick.add?_eq_some_iff.mp hMoved
      omega
    rw [nth?_eq, nth?_eq, hTarget]
    dsimp only
    split
    · split
      · exact ⟨rfl, by rw [ticks_exhaust, ticks_exhaust]⟩
      · exact ⟨rfl, rfl⟩
    · exact ⟨rfl, by rw [ticks_exhaust, ticks_exhaust]⟩

theorem ofRange_next (r : TickRange) : (Draw.ofRange r .next).1 = r.ticks.head? ∧
    (Draw.ofRange r .next).2.ticks = r.ticks.tail := by
  unfold Draw.ofRange
  cases hNext : r.next? with
  | none =>
      rw [ticks_of_none hNext]
      exact ⟨rfl, rfl⟩
  | some pair =>
      rw [ticks_of_some hNext]
      exact ⟨rfl, rfl⟩

theorem nth?_ticks (r : TickRange) (n : Nat) :
    (r.nth? n).1 = r.ticks[n]? ∧ (r.nth? n).2.ticks = r.ticks.drop (n + 1) := by
  induction n generalizing r with
  | zero =>
      rw [nth?_eq, Int.natCast_zero, Int.zero_mul, Int.add_zero, Tick.ofInt?_toInt]
      by_cases hEmpty : r.isEmpty = true
      · simp [hEmpty, ticks_exhaust, ticks_of_isEmpty hEmpty]
      · rw [← List.head?_eq_getElem?, List.drop_one]
        dsimp only
        rw [if_neg hEmpty]
        exact r.ofRange_next
  | succ n ih =>
      cases hNext : r.next? with
      | none =>
          rw [nth?_of_isEmpty (next?_eq_none_iff.mp hNext), ticks_of_none hNext, ticks_exhaust]
          exact ⟨rfl, rfl⟩
      | some pair =>
          obtain ⟨hGiven, hLeft⟩ := nth?_succ (n := n) hNext
          rw [hGiven, hLeft, ticks_of_some hNext]
          exact ih _

/-- A draw from a range is one from the list of its ticks. -/
theorem ofRange_ticks (r : TickRange) (draw : Draw) : (Draw.ofRange r draw).1 = (Draw.ofList r.ticks draw).1 ∧
    (Draw.ofRange r draw).2.ticks = (Draw.ofList r.ticks draw).2 := by
  cases draw with
  | next => exact r.ofRange_next
  | nth skipped => exact r.nth?_ticks skipped

theorem series_ticks (r : TickRange) (draws : List Draw) :
    (Draw.series Draw.ofRange draws r).1 = (Draw.series Draw.ofList draws r.ticks).1 ∧
      (Draw.series Draw.ofRange draws r).2.ticks = (Draw.series Draw.ofList draws r.ticks).2 := by
  induction draws generalizing r with
  | nil => exact ⟨rfl, rfl⟩
  | cons first rest ih =>
      obtain ⟨hGiven, hLeft⟩ := r.ofRange_ticks first
      obtain ⟨hMore, hRest⟩ := ih (Draw.ofRange r first).2
      rw [hLeft] at hMore hRest
      exact ⟨congrArg₂ List.cons hGiven hMore, hRest⟩

/-- Drawing each tick of a list gives them in order, and then nothing any more. -/
theorem series_next (ticks : List Tick) (n : Nat) :
    (Draw.series Draw.ofList (List.replicate (ticks.length + n) .next) ticks).1 =
      ticks.map some ++ List.replicate n none := by
  induction ticks with
  | nil =>
      rw [List.length_nil, Nat.zero_add, List.map_nil, List.nil_append]
      induction n with
      | zero => rfl
      | succ n ih => exact congrArg (none :: ·) ih
  | cons tick rest ih =>
      rw [List.length_cons, Nat.add_right_comm, List.replicate_succ]
      exact congrArg (some tick :: ·) ih

/-! ### Closed forms -/

theorem isEmpty_ticks (r : TickRange) : r.isEmpty = r.ticks.isEmpty := by
  cases hEmpty : r.isEmpty with
  | true => rw [ticks_of_isEmpty hEmpty, List.isEmpty_nil]
  | false =>
      obtain ⟨rest, hTicks⟩ := ticks_of_present hEmpty
      rw [hTicks, List.isEmpty_cons]

theorem first?_ticks (r : TickRange) : r.first? = r.ticks.head? := by
  unfold first?
  split
  · rename_i hEmpty
    rw [ticks_of_isEmpty hEmpty, List.head?_nil]
  · rename_i hPresent
    obtain ⟨rest, hTicks⟩ := ticks_of_present (Bool.eq_false_of_not_eq_true hPresent)
    rw [hTicks, List.head?_cons]

theorem length?_ticks (r : TickRange) : r.length? = if r.isBounded then some r.ticks.length else none := by
  unfold isBounded
  cases hStop : r.stop with
  | none => simp [length?, hStop]
  | some stop =>
      obtain ⟨n, hLength⟩ : ∃ n, r.length? = some n := by simp [length?, hStop]
      rw [hLength, length_ticks hLength]
      rfl

/-- Even from one end of the clock to the other there are fewer ticks than 64 bits can count. -/
theorem length?_lt (h : r.length? = some n) : n < 0x10000000000000000 := by
  obtain ⟨stop, -, rfl⟩ := Option.map_eq_some_iff.mp h
  have hStep := r.step_pos
  have hCursor := Tick.toInt_bounds r.cursor
  have hStop := Tick.toInt_bounds stop
  have hFew : (stop.toInt - r.cursor.toInt + r.step.toInt - 1) / r.step.toInt < 0x10000000000000000 := by
    refine Int.ediv_lt_of_lt_mul hStep ?_
    omega
  omega

theorem count_ticks (r : TickRange) : r.count = r.ticks.length := by
  unfold count
  split
  · rename_i hLength
    exact (length_ticks hLength).symm
  · rfl

/-- Whatever is found after skipping ticks stands so many steps on. -/
theorem toInt_of_nth? (h : (r.nth? n).1 = some t) : t.toInt = r.cursor.toInt + n * r.step.toInt := by
  rw [nth?_eq] at h
  split at h
  · rename_i cursor hTarget
    split at h
    · cases h
    · rename_i hPresent
      obtain ⟨rest, hTicks⟩ := ticks_of_present (Bool.eq_false_of_not_eq_true hPresent)
      rw [(ofRange_next _).1, hTicks] at h
      cases h
      exact Tick.ofInt?_eq_some_iff.mp hTarget
  · cases h

theorem last?_ticks (r : TickRange) : r.last? = r.ticks.getLast? := by
  unfold last?
  split
  · rename_i hLength
    rw [List.eq_nil_of_length_eq_zero (length_ticks hLength), List.getLast?_nil]
  · rename_i n hLength
    have hCount := length_ticks hLength
    obtain ⟨last, hLast⟩ : ∃ last, r.ticks[n]? = some last := ⟨_, List.getElem?_eq_getElem (by omega)⟩
    rw [List.getLast?_eq_getElem?, hCount, Nat.succ_sub_one, hLast, Tick.ofInt?_eq_some_iff]
    exact toInt_of_nth? ((r.nth?_ticks n).1.trans hLast)
  · rfl

theorem tells_ticks (r : TickRange) : r.Tells r.ticks where
  contains_iff _ := mem_ticks.symm
  isEmpty_eq := r.isEmpty_ticks
  first?_eq := r.first?_ticks
  length?_eq := r.length?_ticks
  length?_lt _ := length?_lt
  count_eq := r.count_ticks
  last?_eq := r.last?_ticks

/-- The ticks of a range are what it gives one by one until it gives nothing any more. Whatever is drawn from
it, and with however many ticks skipped, it gives what the list of its ticks gives, it leaves the ticks that
are left of that list, and what it tells of itself then is so of them. -/
theorem draws_from_ticks (r : TickRange) (draws : List Draw) :
    (∀ n, (Draw.series Draw.ofRange (List.replicate (r.ticks.length + n) .next) r).1 =
        r.ticks.map some ++ List.replicate n none) ∧
      (Draw.series Draw.ofRange draws r).1 = (Draw.series Draw.ofList draws r.ticks).1 ∧
      (Draw.series Draw.ofRange draws r).2.ticks = (Draw.series Draw.ofList draws r.ticks).2 ∧
      (Draw.series Draw.ofRange draws r).2.Tells (Draw.series Draw.ofList draws r.ticks).2 := by
  obtain ⟨hGiven, hLeft⟩ := r.series_ticks draws
  refine ⟨fun n => ?_, hGiven, hLeft, ?_⟩
  · rw [(r.series_ticks _).1, series_next]
  · rw [← hLeft]
    exact tells_ticks _

/-- Drawing past the stop leaves nothing. -/
example : Draw.series Draw.ofRange [.nth 1, .nth 5, .next] (range 0 10 3) =
    ([some 3, none, none], ⟨6, 3, some 6, by decide⟩) := by
  decide

end TickScheduler.TickRange
