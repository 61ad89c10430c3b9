import Mathlib.Tactic.IntervalCases
import TickScheduler.Calendar
/-!
Dates and day numbers. The date of a day number exists, and its own number is that number again; so no two
days have one date, and a bound on the year is a bound on the day number.
-/
namespace TickScheduler.Date

variable {century group year day n : Int}

/-- The year of a 400-year cycle that one of its days lies in. -/
def yearOfCycle (dayOfCycle : Int) : Int :=
  (dayOfCycle - dayOfCycle / 1460 + dayOfCycle / 36524 - dayOfCycle / 146096) / 365

/-- The date of a day of a year that runs from March. -/
def fromMarch (year dayOfYear : Int) : Date :=
  let month := (5 * dayOfYear + 2) / 153
  let day := dayOfYear - (153 * month + 2) / 5 + 1
  if month < 10 then ⟨year, (month + 3).toNat, day.toNat⟩
  else ⟨year + 1, (month - 9).toNat, day.toNat⟩

theorem ofDayNumber_eq (n : Int) : ofDayNumber n =
    let dayOfCycle := (n + 719468) % 146097
    let year := yearOfCycle dayOfCycle
    fromMarch (year + 400 * ((n + 719468) / 146097)) (dayOfCycle - (365 * year + year / 4 - year / 100)) :=
  rfl

/-! ### The years of a cycle -/

/-- The place of a day in a cycle: the century, in that the group of four years, in that the year, and in that
the day. -/
structure Place (century group year day : Int) : Prop where
  century_mem : 0 ≤ century ∧ century ≤ 3
  group_mem : 0 ≤ group ∧ group ≤ 24
  year_mem : 0 ≤ year ∧ year ≤ 3
  day_mem : 0 ≤ day ∧ day ≤ 365
  /-- Of four years the last one is longer, but of 25 such groups not the last one, except in the last
  century. -/
  leap : day = 365 → year = 3 ∧ (group < 24 ∨ century = 3)

theorem exists_place (dayOfCycle : Int) (hLow : 0 ≤ dayOfCycle) (hHigh : dayOfCycle < 146097) :
    ∃ century group year day, Place century group year day ∧
      dayOfCycle = 36524 * century + 1461 * group + 365 * year + day := by
  let century := min 3 (dayOfCycle / 36524)
  let group := (dayOfCycle - 36524 * century) / 1461
  let dayOfGroup := dayOfCycle - 36524 * century - 1461 * group
  let year := min 3 (dayOfGroup / 365)
  exact ⟨century, group, year, dayOfGroup - 365 * year, ⟨by omega, by omega, by omega, by omega, by omega⟩, by omega⟩

theorem yearOfCycle_eq (h : Place century group year day) :
    yearOfCycle (36524 * century + 1461 * group + 365 * year + day) = 100 * century + 4 * group + year := by
  obtain ⟨hCentury, hGroup, hYear, hDay, hLeap⟩ := h
  by_cases hLast : 36523 < 1461 * group + 365 * year + day
  · -- the last day of the cycle
    obtain ⟨rfl, rfl, rfl, rfl⟩ : century = 3 ∧ group = 24 ∧ year = 3 ∧ day = 365 := by omega
    rfl
  · have hCenturies : (36524 * century + 1461 * group + 365 * year + day) / 36524 = century := by omega
    have hCycles : (36524 * century + 1461 * group + 365 * year + day) / 146096 = 0 := by omega
    have hQuotient : (36524 * century + 1461 * group + 365 * year + day) / 1460 =
        25 * century + group + (24 * century + group + 365 * year + day) / 1460 := by omega
    rw [yearOfCycle, hCenturies, hCycles, hQuotient]
    omega

/-! ### Years that run from March -/

/-- The months of a year that runs from March start on the days `(153 * month + 2) / 5`. -/
theorem month_spec (hLow : 0 ≤ day) (hHigh : day ≤ 365) : ∃ month : Int, (5 * day + 2) / 153 = month ∧
    0 ≤ month ∧ month ≤ 11 ∧ (153 * month + 2) / 5 ≤ day ∧ day < (153 * (month + 1) + 2) / 5 := by
  refine ⟨_, rfl, ?_⟩
  omega

/-- The day of a year comes from the month that it lies in. -/
theorem dayNumber_fromMarch (hLow : 0 ≤ day) (hHigh : day ≤ 365) :
    (fromMarch year day).dayNumber = 365 * year + year / 4 - year / 100 + year / 400 + day - 719468 := by
  obtain ⟨month, hMonth, hFirst, hLast, hFrom, hTo⟩ := month_spec hLow hHigh
  unfold fromMarch dayNumber
  simp only [hMonth]
  split
  · rename_i hThisYear
    have hBack : (((month + 3).toNat : Int) + 9) % 12 = month := by omega
    have hLater : ¬ (month + 3).toNat ≤ 2 := by omega
    simp only [hBack, hLater, if_false]
    omega
  · rename_i hNextYear
    have hBack : (((month - 9).toNat : Int) + 9) % 12 = month := by omega
    have hEarlier : (month - 9).toNat ≤ 2 := by omega
    simp only [hBack, hEarlier, if_true, Int.add_sub_cancel]
    omega

/-- The last day of such a year is 29 February. -/
theorem isValid_fromMarch (hLow : 0 ≤ day) (hHigh : day ≤ 365) (hLeap : day = 365 → isLeap (year + 1) = true) :
    (fromMarch year day).isValid = true := by
  obtain ⟨month, hMonth, hFirst, hLast, hFrom, hTo⟩ := month_spec hLow hHigh
  unfold fromMarch isValid
  simp only [hMonth]
  interval_cases month <;> simp [daysInMonth] <;> grind

/-! ### Dates -/

/-- What the date of a day number is made of. -/
theorem ofDayNumber_spec (n : Int) : ∃ year day, ofDayNumber n = fromMarch year day ∧ 0 ≤ day ∧ day ≤ 365 ∧
    (day = 365 → isLeap (year + 1) = true) ∧
    n = 365 * year + year / 4 - year / 100 + year / 400 + day - 719468 := by
  obtain ⟨century, group, year, day, hPlace, hDay⟩ :=
    exists_place ((n + 719468) % 146097) (by omega) (by omega)
  have hYear := yearOfCycle_eq hPlace
  rw [← hDay] at hYear
  obtain ⟨hCentury, hGroup, hYearMem, hDayMem, hLeap⟩ := hPlace
  let cycle := (n + 719468) / 146097
  have hFourth : (100 * century + 4 * group + year + 400 * cycle) / 4 = 25 * century + group + 100 * cycle := by omega
  have hHundredth : (100 * century + 4 * group + year + 400 * cycle) / 100 = century + 4 * cycle := by omega
  have hCycle : (100 * century + 4 * group + year + 400 * cycle) / 400 = cycle := by omega
  refine ⟨100 * century + 4 * group + year + 400 * cycle, day, ?_, hDayMem.1, hDayMem.2, fun hLast => ?_, by omega⟩
  · rw [ofDayNumber_eq]
    dsimp only
    rw [hYear, hDay]
    have hGroups : (100 * century + 4 * group + year) / 4 = 25 * century + group := by omega
    have hCenturies : (100 * century + 4 * group + year) / 100 = century := by omega
    congr 1
    omega
  · obtain ⟨rfl, hLong⟩ := hLeap hLast
    simp only [isLeap, Bool.and_eq_true, Bool.or_eq_true, beq_iff_eq, bne_iff_ne, ne_eq]
    omega

/-- The date of a day has the number of that day. -/
@[simp] theorem dayNumber_ofDayNumber (n : Int) : (ofDayNumber n).dayNumber = n := by
  obtain ⟨year, day, hDate, hLow, hHigh, -, hNumber⟩ := ofDayNumber_spec n
  rw [hDate, dayNumber_fromMarch hLow hHigh, ← hNumber]

@[simp] theorem isValid_ofDayNumber (n : Int) : (ofDayNumber n).isValid = true := by
  obtain ⟨year, day, hDate, hLow, hHigh, hLeap, -⟩ := ofDayNumber_spec n
  rw [hDate, isValid_fromMarch hLow hHigh hLeap]

variable {d : Date}

/-- Only a month has days, and none has more than 31. -/
theorem mem_of_isValid (h : d.isValid = true) : 1 ≤ d.month ∧ d.month ≤ 12 ∧ 1 ≤ d.day ∧ d.day ≤ 31 := by
  simp only [isValid, Bool.and_eq_true, decide_eq_true_eq] at h
  obtain ⟨hFirst, hLast⟩ := h
  unfold daysInMonth at hLast
  split at hLast
  all_goals first | omega | (split at hLast <;> omega)

/-- Roughly, the days of the years that four digits write. -/
theorem dayNumber_mem (h : d.isValid = true) (hLow : 0 ≤ d.year) (hHigh : d.year ≤ 9999) :
    -1000000 ≤ d.dayNumber ∧ d.dayNumber ≤ 3000000 := by
  have hDate := mem_of_isValid h
  unfold dayNumber
  dsimp only
  split <;> omega

end TickScheduler.Date
