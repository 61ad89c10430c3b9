import TickScheduler.Proofs.Timestamp.Calendar
import TickScheduler.Store.Row
/-!
The stored form of a timestamp, written and read again. A year of four digits is read back with everything
else: the fraction in as few digits as it was written, and a leap second as the second 60. Any other year is
written with a sign, which the reader does not know.
-/
namespace TickScheduler

namespace Timestamp

variable {digits rest : List Char} {least most n : Nat} {t : Timestamp}

/-! ### Fields -/

theorem byteLength_cons (c : Char) (cs : List Char) : byteLength (c :: cs) = c.utf8Size + byteLength cs := by
  rw [byteLength, ← List.singleton_append, String.ofList_append, String.utf8ByteSize_append,
    ← String.singleton_eq_ofList, String.utf8ByteSize_singleton, byteLength]

/-- A character takes a byte at least. -/
theorem length_le_byteLength (cs : List Char) : cs.length ≤ byteLength cs := by
  induction cs with
  | nil => exact Nat.zero_le _
  | cons c rest ih =>
      have hByte := c.utf8Size_pos
      rw [byteLength_cons, List.length_cons]
      omega

/-- A run of digits ends where the field does, or with the first character that is none. -/
theorem takeWhile_digits (hDigits : ∀ c ∈ digits, c.isDigit = true) (hMost : digits.length ≤ most)
    (hStop : digits.length = most ∨ ∀ c ∈ rest.head?, c.isDigit = false) :
    ((digits ++ rest).take most).takeWhile Char.isDigit = digits := by
  rcases hStop with rfl | hStop
  · rw [List.take_left]
    have hAll : (digits ++ []).takeWhile Char.isDigit = digits ++ [].takeWhile Char.isDigit :=
      List.takeWhile_append_of_pos hDigits
    simpa using hAll
  · have hNone : (rest.take (most - digits.length)).takeWhile Char.isDigit = [] := by
      cases rest with
      | nil => simp
      | cons c rest =>
          have hc : c.isDigit = false := hStop c rfl
          cases most - digits.length <;> simp [hc]
    rw [List.take_append, List.take_of_length_le hMost, List.takeWhile_append_of_pos hDigits, hNone,
      List.append_nil]

theorem readNumber_digits (hDigits : ∀ c ∈ digits, c.isDigit = true) (hLeast : least ≤ digits.length)
    (hMost : digits.length ≤ most)
    (hStop : digits.length = most ∨ ∀ c ∈ rest.head?, c.isDigit = false) :
    readNumber least most (digits ++ rest) = .ok (Digits.value digits, rest) := by
  have hBytes := length_le_byteLength (digits ++ rest)
  rw [List.length_append] at hBytes
  have hLong : ¬ byteLength (digits ++ rest) < least := by omega
  have hRun : ¬ digits.length < least := by omega
  simp only [readNumber, takeWhile_digits hDigits hMost hStop, hLong, hRun, if_false, List.drop_left]

/-- A field of fixed width is read back whatever follows it. -/
theorem readNumber_fixed (width : Nat) (h : n < Nat.pow 10 width) (rest : List Char) :
    readNumber width width (Digits.fixed width n ++ rest) = .ok (n, rest) := by
  rw [readNumber_digits (fun c hc => Digits.isDigit_of_mem_fixed hc) (by simp) (by simp) (.inl (by simp)),
    Digits.value_fixed, Nat.mod_eq_of_lt h]

theorem readOneOf_cons {allowed : List Char} {c : Char} (h : c ∈ allowed) (rest : List Char) :
    readOneOf allowed (c :: rest) = .ok ((), rest) :=
  if_pos h

/-- A fraction is read back if something else than a digit follows it. -/
theorem readFraction_fixed {width : Nat} (hWidth : 1 ≤ width ∧ width ≤ 9) (h : n < Nat.pow 10 width)
    (hStop : ∀ c ∈ rest.head?, c.isDigit = false) :
    readFraction ('.' :: (Digits.fixed width n ++ rest)) = .ok (n * Nat.pow 10 (9 - width), rest) := by
  have hDigits : ∀ c ∈ Digits.fixed width n, c.isDigit = true := fun c hc => Digits.isDigit_of_mem_fixed hc
  have hRead : readNumber 1 9 (Digits.fixed width n ++ rest) = .ok (n, rest) := by
    rw [readNumber_digits hDigits (by simp [hWidth]) (by simp [hWidth]) (.inr hStop), Digits.value_fixed,
      Nat.mod_eq_of_lt h]
  have hRest : rest.dropWhile Char.isDigit = rest := by
    cases rest with
    | nil => rfl
    | cons c rest => simp [hStop c rfl]
  have hRun : ((Digits.fixed width n ++ rest).take 9).takeWhile Char.isDigit = Digits.fixed width n :=
    takeWhile_digits hDigits (by simp [hWidth]) (.inr hStop)
  simp only [readFraction, hRun, hRead, hRest, Digits.length_fixed, bind, Except.bind, pure, Except.pure]

/-- Of the precisions that lose nothing, the shortest is written. -/
theorem readFraction_fractionText (h : n < 1000000000) (hStop : ∀ c ∈ rest.head?, c.isDigit = false ∧ c ≠ '.') :
    readFraction (fractionText .exact n ++ rest) = .ok (n, rest) := by
  have hEnd : ∀ c ∈ rest.head?, c.isDigit = false := fun c hc => (hStop c hc).1
  unfold fractionText
  dsimp only
  split
  · rename_i hZero
    subst hZero
    cases rest with
    | nil => rfl
    | cons c rest =>
        unfold readFraction
        split
        · rename_i hPoint
          exact absurd (List.cons.inj hPoint).1 (hStop c rfl).2
        · rfl
  · split
    · rw [List.cons_append, readFraction_fixed (by decide) (by simp; omega) hEnd]
      have hWhole : n / 1000000 * Nat.pow 10 (9 - 3) = n := by
        simp
        omega
      rw [hWhole]
    · split
      · rw [List.cons_append, readFraction_fixed (by decide) (by simp; omega) hEnd]
        have hWhole : n / 1000 * Nat.pow 10 (9 - 6) = n := by
          simp
          omega
        rw [hWhole]
      · rw [List.cons_append, readFraction_fixed (by decide) (by simp; omega) hEnd]
        simp

/-! ### Years of four digits -/

/-- The year of a timestamp is written without a sign. -/
def HasPlainYear (t : Timestamp) : Prop :=
  0 ≤ t.date.year ∧ t.date.year ≤ 9999

instance : DecidablePred HasPlainYear := fun t =>
  inferInstanceAs (Decidable (0 ≤ t.date.year ∧ t.date.year ≤ 9999))

theorem requireInRange_true (cs : List Char) : requireInRange true cs = .ok ((), cs) :=
  rfl

theorem readStoredDate_dateText {d : Date} (hValid : d.isValid = true) (hLow : 0 ≤ d.year) (hHigh : d.year ≤ 9999)
    (rest : List Char) : readStoredDate (dateText d ++ rest) = .ok (d, rest) := by
  obtain ⟨-, hMonth, -, hDay⟩ := Date.mem_of_isValid hValid
  have hYear : d.year.toNat < Nat.pow 10 4 := by
    simp
    omega
  have hBack : (⟨(d.year.toNat : Int), d.month, d.day⟩ : Date) = d := by
    rw [Int.toNat_of_nonneg hLow]
  simp only [readStoredDate, dateText, yearText, if_pos (And.intro hLow hHigh), List.append_assoc, List.cons_append,
    bind, StateT.bind, Except.bind, readNumber_fixed 4 hYear,
    readOneOf_cons (List.mem_singleton_self '-'), readNumber_fixed 2 (Nat.lt_of_le_of_lt hMonth (by decide)),
    readNumber_fixed 2 (Nat.lt_of_le_of_lt hDay (by decide)), hBack, hValid, requireInRange_true]
  rfl

/-- What is written of a timestamp. -/
def fields (t : Timestamp) : Fields where
  date := t.date
  hour := t.secondOfDay / 3600
  minute := t.secondOfDay / 60 % 60
  second := t.secondOfDay % 60 + if t.nanos < 1000000000 then 0 else 1
  nanos := t.nanos % 1000000000
  zone := 0

theorem secondOfDay_lt (t : Timestamp) : t.secondOfDay < 86400 := by
  unfold secondOfDay
  omega

theorem readZone_utc : readZone (readOneOf [':']) "+00:00".toList = .ok (0, []) := by
  decide

theorem readStored_storedText (h : t.HasPlainYear) : readStored t.storedText.toList = .ok (t.fields, []) := by
  have hTime := t.secondOfDay_lt
  have hDate (rest : List Char) : readStoredDate (dateText t.date ++ rest) = .ok (t.date, rest) :=
    readStoredDate_dateText (Date.isValid_ofDayNumber _) h.1 h.2 rest
  have hSeparator (rest : List Char) : readOneOf ['T', 't', ' '] ('T' :: rest) = .ok ((), rest) :=
    readOneOf_cons (by decide) rest
  have hHour : t.fields.hour < 24 := by
    simp only [fields]
    omega
  have hMinute : t.fields.minute < 60 := by
    simp only [fields]
    omega
  have hSecond : t.fields.second ≤ 60 := by
    simp only [fields]
    split <;> omega
  have hFraction : readFraction (fractionText .exact t.fields.nanos ++ "+00:00".toList) =
      .ok (t.fields.nanos, "+00:00".toList) :=
    readFraction_fractionText (Nat.mod_lt _ (by decide)) (by simp)
  have hText : t.storedText.toList = dateText t.date ++ 'T' :: (Digits.fixed 2 t.fields.hour ++
      ':' :: (Digits.fixed 2 t.fields.minute ++ ':' :: (Digits.fixed 2 t.fields.second ++
        (fractionText .exact t.fields.nanos ++ "+00:00".toList)))) := by
    simp [storedText, text, timeText, fields]
  have hInRange : (decide (t.fields.hour < 24) && decide (t.fields.minute < 60) && decide (t.fields.second ≤ 60)) =
      true := by simp [hHour, hMinute, hSecond]
  rw [hText]
  simp only [readStored, bind, StateT.bind, Except.bind, hDate,
    hSeparator, readOneOf_cons (List.mem_singleton_self ':'),
    readNumber_fixed 2 (Nat.lt_trans hHour (by decide)), readNumber_fixed 2 (Nat.lt_trans hMinute (by decide)),
    readNumber_fixed 2 (Nat.lt_of_le_of_lt hSecond (by decide)), hFraction, hInRange, requireInRange_true, readZone_utc]
  rfl

theorem ofUnix?_self (h : earliest ≤ t.seconds ∧ t.seconds ≤ latest) : ofUnix? t.seconds t.nanos = some t := by
  rw [ofUnix?, if_pos h, dif_pos t.nanos_valid]

/-- A leap second is written as the second 60, and no other second is. -/
theorem second_fields (t : Timestamp) :
    (if t.fields.second == 60 then 59 else t.fields.second) = t.secondOfDay % 60 ∧
      (if t.fields.second == 60 then t.fields.nanos + 1000000000 else t.fields.nanos) = t.nanos := by
  have hSecond : (t.secondOfDay : Int) % 60 = t.seconds % 60 := by
    unfold secondOfDay
    omega
  have hNanos := t.nanos_valid
  by_cases hLeap : t.nanos < 1000000000
  · have hOrdinary : ¬ t.secondOfDay % 60 = 60 := by omega
    simp [fields, hLeap, hOrdinary, Nat.mod_eq_of_lt hLeap]
  · have hLast : t.secondOfDay % 60 = 59 := by omega
    simp [fields, hLeap, hLast]
    omega

/-- The fields that are written of a timestamp name that timestamp. -/
theorem toTimestamp_fields (h : t.HasPlainYear) : t.fields.toTimestamp = .ok t := by
  have hNumber : t.date.dayNumber = t.seconds / 86400 := Date.dayNumber_ofDayNumber _
  have hValid : t.date.isValid = true := Date.isValid_ofDayNumber _
  have hDays := Date.dayNumber_mem hValid h.1 h.2
  have hTime : (t.secondOfDay : Int) = t.seconds % 86400 := Int.toNat_of_nonneg (by omega)
  have hUsable : (decide (firstYear ≤ t.fields.date.year) && decide (t.fields.date.year ≤ lastYear) &&
      t.fields.date.isValid && decide (t.fields.zone.natAbs < 86400)) = true := by
    have hFirst : firstYear ≤ t.date.year := Int.le_trans (by decide) h.1
    have hLast : t.date.year ≤ lastYear := Int.le_trans h.2 (by decide)
    simp [fields, hFirst, hLast, hValid]
  have hSeconds : t.fields.date.dayNumber * 86400 + ((t.fields.hour : Int) * 3600 + t.fields.minute * 60 +
      (t.secondOfDay % 60 : Nat)) - t.fields.zone = t.seconds := by
    simp only [fields, hNumber]
    omega
  have hExists : ofUnix? t.seconds t.nanos = some t := by
    refine ofUnix?_self ⟨?_, ?_⟩
    · simp only [earliest]
      omega
    · simp only [latest]
      omega
  obtain ⟨hSecond, hNanos⟩ := t.second_fields
  simp only [Fields.toTimestamp, hUsable, if_true, hSecond, hNanos, hSeconds, hExists]

/-- The stored form is never too short to be looked at. -/
theorem storedLength_le (t : Timestamp) : storedLength ≤ byteLength t.storedText.toList := by
  have hYear : 4 ≤ (yearText t.date.year).length := by
    unfold yearText
    split
    · simp
    · simp only [Digits.padded, List.length_cons, List.length_append, List.length_replicate]
      omega
  refine Nat.le_trans ?_ (length_le_byteLength _)
  simp [storedText, text, dateText, timeText, storedLength]
  omega

/-- With a year of four digits, a timestamp is read back as it was. -/
theorem ofStored_storedText (h : t.HasPlainYear) : ofStored t.storedText = .ok t := by
  simp only [ofStored, Nat.not_lt.mpr t.storedLength_le, if_false, readStored_storedText h, bind, Except.bind,
    List.isEmpty_nil, if_true, toTimestamp_fields h]

/-- A field that starts with something else than a digit is refused. -/
theorem readNumber_of_other {c : Char} (hOther : c.isDigit = false) (hLeast : 0 < least)
    (hLong : least ≤ (c :: rest).length) : readNumber least most (c :: rest) = .error .invalid := by
  have hBytes := Nat.le_trans hLong (length_le_byteLength (c :: rest))
  have hNone : ((c :: rest).take most).takeWhile Char.isDigit = [] := by
    cases most <;> simp [hOther]
  simp only [readNumber, hNone, Nat.not_lt.mpr hBytes, if_false, List.length_nil, if_pos hLeast]

/-- With any other year it is not: the sign before the year is none of its digits. -/
theorem ofStored_storedText_of_signed (h : ¬ t.HasPlainYear) : ofStored t.storedText = .error .invalid := by
  have hSigned : ∃ sign year, sign.isDigit = false ∧ 3 ≤ year.length ∧ yearText t.date.year = sign :: year := by
    refine ⟨if t.date.year < 0 then '-' else '+', Digits.padded 4 t.date.year.natAbs, ?_, ?_, if_neg h⟩
    · split <;> decide
    · simp only [Digits.padded, List.length_append, List.length_replicate]
      omega
  obtain ⟨sign, year, hSign, hYear, hText⟩ := hSigned
  obtain ⟨rest, hRest⟩ : ∃ rest, t.storedText.toList = sign :: (year ++ rest) := by
    simp [storedText, text, dateText, hText]
  have hRefused : readNumber 4 4 t.storedText.toList = .error .invalid := by
    rw [hRest]
    refine readNumber_of_other hSign (by decide) ?_
    simp only [List.length_cons, List.length_append]
    omega
  simp only [ofStored, Nat.not_lt.mpr t.storedLength_le, if_false, readStored, readStoredDate, bind, StateT.bind,
    Except.bind, hRefused]

/-- What is read of the stored form of a timestamp. -/
theorem ofStored_storedText_eq (t : Timestamp) :
    ofStored t.storedText = if t.HasPlainYear then .ok t else .error .invalid := by
  split
  · exact ofStored_storedText ‹_›
  · exact ofStored_storedText_of_signed ‹_›

end Timestamp

/-! ### Rows -/

namespace ResultRow

theorem readTime_storedText (column : TimeColumn) (t : Timestamp) : readTime column t.storedText =
    if t.HasPlainYear then .ok t else .error (.database (.time column .invalid)) := by
  rw [readTime, Timestamp.ofStored_storedText_eq]
  by_cases hPlain : t.HasPlainYear
  · simp only [if_pos hPlain]
  · simp only [if_neg hPlain]

/-- What is read of the row of a result: its start is looked at before its end. -/
theorem read_ofResult (r : TaskResult) : (ofResult r).read =
    if r.started.HasPlainYear then
      if r.finished.HasPlainYear then .ok r else .error (.database (.time .finished .invalid))
    else .error (.database (.time .started .invalid)) := by
  have hStatus : readStatus r.status.name = .ok r.status := by
    rw [readStatus, TaskStatus.ofName?_name]
  simp only [read, ofResult, readTime_storedText, hStatus]
  by_cases hStarted : r.started.HasPlainYear
  · by_cases hFinished : r.finished.HasPlainYear
    · simp only [if_pos hStarted, if_pos hFinished]
      rfl
    · simp only [if_pos hStarted, if_neg hFinished]
      rfl
  · simp only [if_neg hStarted]
    rfl

end ResultRow

end TickScheduler
