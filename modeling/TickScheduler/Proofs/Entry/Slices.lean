import Mathlib.Data.List.Sort
import TickScheduler.Entry.Draft
import TickScheduler.Proofs.Entry.Consumption
import TickScheduler.Proofs.Entry.Ticks
/-!
Slices of a recurring entry: ticks are taken off it again and again, up to cutoffs that come in any order.
Nothing is lost between two slices and nothing comes twice, so the slices together are what the entry had
before the latest of the cutoffs.
-/
namespace TickScheduler.Entry

variable {e : Entry} {interval horizon first last : Tick} {cutoffs : List Tick}

/-- What is taken off an entry up to one cutoff after the other, each slice with what it leaves. -/
def slices (e : Entry) : List Tick → List (TickRange × Entry)
  | [] => []
  | cutoff :: rest => e.takeUntil cutoff :: (e.takeUntil cutoff).2.slices rest

theorem slices_cons (e : Entry) (cutoff : Tick) (rest : List Tick) : e.slices (cutoff :: rest) =
    (e.remainingTimes (some cutoff), e.after cutoff) :: (e.after cutoff).slices rest := by
  rw [slices, takeUntil_eq]

/-- What is left of an entry after slices up to some cutoffs. -/
def afterAll (e : Entry) (cutoffs : List Tick) : Entry :=
  cutoffs.foldl after e

/-! ### One slice -/

/-- A recurring entry is always in reach. -/
theorem isInReach_of_recurring (hInterval : e.interval = some interval) : e.IsInReach horizon := by
  intro _ hNone
  rw [hInterval] at hNone
  cases hNone

@[simp] theorem interval_after : (e.after horizon).interval = e.interval := by
  unfold after
  split
  · exact (e.moves_advance _).interval_eq
  · rfl

/-- A slice of a recurring entry moves nothing but the cursor. -/
theorem after_of_recurring (hInterval : e.interval = some interval) :
    ∃ time, e.after horizon = { e with nextTaskTime := time } := by
  unfold after
  cases e.latestBefore horizon with
  | none => exact ⟨e.nextTaskTime, rfl⟩
  | some last => exact ⟨last.addClamped interval, by simp only [advance, hInterval]⟩

/-- A slice never moves the cursor back. -/
theorem le_nextTaskTime_after : e.nextTaskTime ≤ (e.after horizon).nextTaskTime := by
  unfold after
  cases hLatest : e.latestBefore horizon with
  | none => exact Int64.le_refl _
  | some last => exact le_nextTaskTime_advance hLatest

/-- A recurring entry has the ticks before one cutoff, and what those leave of it has the ticks from there
to a later cutoff. -/
theorem ticks_append_after (hInterval : e.interval = some interval) (hLater : first ≤ last) :
    (e.remainingTimes (some first)).ticks ++ ((e.after first).remainingTimes (some last)).ticks =
      (e.remainingTimes (some last)).ticks := by
  have hFirst (t : Tick) : t ∈ (e.remainingTimes (some first)).ticks ↔ e.Offers t ∧ t < first :=
    mem_remainingTimes (isInReach_of_recurring hInterval)
  have hRest (t : Tick) : t ∈ ((e.after first).remainingTimes (some last)).ticks ↔
      (e.Offers t ∧ first ≤ t) ∧ t < last := by
    rw [mem_remainingTimes (isInReach_of_recurring (interval_after.trans hInterval))]
    refine and_congr_left fun hEarly => offers_after ?_
    exact Std.lt_of_lt_of_le hEarly (Int64.le_maxValue last)
  -- both sides increase, so they are the same once they have the same ticks
  refine List.Pairwise.eq_of_mem_iff (r := (· < ·)) ?_ (TickRange.pairwise_ticks _) fun t => ?_
  · refine List.pairwise_append.mpr ⟨TickRange.pairwise_ticks _, TickRange.pairwise_ticks _, ?_⟩
    exact fun a ha b hb => Std.lt_of_lt_of_le ((hFirst a).mp ha).2 ((hRest b).mp hb).1.2
  · rw [List.mem_append, hFirst, hRest, mem_remainingTimes (isInReach_of_recurring hInterval), and_assoc,
      ← and_or_left]
    simp only [Int64.lt_iff_toInt_lt, Int64.le_iff_toInt_le] at hLater ⊢
    refine and_congr_right fun _ => ?_
    omega

/-! ### Slice after slice -/

theorem interval_afterAll : (e.afterAll cutoffs).interval = e.interval := by
  induction cutoffs generalizing e with
  | nil => rfl
  | cons cutoff rest ih => exact ih.trans interval_after

/-- The ticks that are left come after every cutoff. -/
theorem offers_afterAll {t : Tick} (ht : t < Int64.maxValue) :
    (e.afterAll cutoffs).Offers t ↔ e.Offers t ∧ ∀ cutoff ∈ cutoffs, cutoff ≤ t := by
  induction cutoffs generalizing e with
  | nil => simp [afterAll]
  | cons cutoff rest ih =>
      change ((e.after cutoff).afterAll rest).Offers t ↔ _
      rw [ih, offers_after ht, List.forall_mem_cons, and_assoc]

/-- The slices and what is left of the ticks before some later tick are all the ticks before it. -/
theorem slices_append_afterAll (hInterval : e.interval = some interval)
    (hLast : ∀ cutoff ∈ cutoffs, cutoff ≤ last) :
    (e.slices cutoffs).flatMap (·.1.ticks) ++ ((e.afterAll cutoffs).remainingTimes (some last)).ticks =
      (e.remainingTimes (some last)).ticks := by
  induction cutoffs generalizing e with
  | nil => rfl
  | cons cutoff rest ih =>
      obtain ⟨hFirst, hRest⟩ := List.forall_mem_cons.mp hLast
      calc
        _ = (e.remainingTimes (some cutoff)).ticks ++ (((e.after cutoff).slices rest).flatMap (·.1.ticks) ++
            (((e.after cutoff).afterAll rest).remainingTimes (some last)).ticks) := by
          rw [slices_cons, List.flatMap_cons, List.append_assoc]
          rfl
        _ = (e.remainingTimes (some cutoff)).ticks ++ ((e.after cutoff).remainingTimes (some last)).ticks := by
          rw [ih (interval_after.trans hInterval) hRest]
        _ = _ := ticks_append_after hInterval hFirst

/-- The entries that slices leave behind differ in the cursor only, and that never moves back. -/
theorem cursors_of_slices (hInterval : e.interval = some interval) :
    (e :: (e.slices cutoffs).map Prod.snd).Pairwise (·.nextTaskTime ≤ ·.nextTaskTime) ∧
      ∀ f ∈ (e.slices cutoffs).map Prod.snd, ∃ time, f = { e with nextTaskTime := time } := by
  induction cutoffs generalizing e with
  | nil => exact ⟨List.pairwise_singleton _ _, List.forall_mem_nil _⟩
  | cons cutoff rest ih =>
      obtain ⟨hOrder, hSame⟩ := ih (e := e.after cutoff) (interval_after.trans hInterval)
      obtain ⟨time, hAfter⟩ : ∃ time, e.after cutoff = { e with nextTaskTime := time } :=
        after_of_recurring hInterval
      rw [slices_cons, List.map_cons]
      refine ⟨.cons (List.forall_mem_cons.mpr ⟨le_nextTaskTime_after, fun f hf => ?_⟩) hOrder,
        List.forall_mem_cons.mpr ⟨⟨time, hAfter⟩, fun f hf => ?_⟩⟩
      · exact Int64.le_trans le_nextTaskTime_after ((List.pairwise_cons.mp hOrder).1 f hf)
      · obtain ⟨later, rfl⟩ := hSame f hf
        exact ⟨later, by rw [hAfter]⟩

/-- Taken together, the slices of a recurring entry are what it had before the latest of the cutoffs, in
whatever order those come; on the way its cursor never moves back, and nothing else of it changes. -/
theorem slices_exact (hInterval : e.interval = some interval) (hMem : last ∈ cutoffs)
    (hLast : ∀ cutoff ∈ cutoffs, cutoff ≤ last) :
    (e.slices cutoffs).flatMap (·.1.ticks) = (e.remainingTimes (some last)).ticks ∧
      (e :: (e.slices cutoffs).map Prod.snd).Pairwise (·.nextTaskTime ≤ ·.nextTaskTime) ∧
      ∀ f ∈ (e.slices cutoffs).map Prod.snd, ∃ time, f = { e with nextTaskTime := time } := by
  have hNone : ((e.afterAll cutoffs).remainingTimes (some last)).ticks = [] := by
    refine List.eq_nil_iff_forall_not_mem.mpr fun t ht => ?_
    have hLeft : (e.afterAll cutoffs).interval = some interval := interval_afterAll.trans hInterval
    have hReach : (e.afterAll cutoffs).IsInReach last := isInReach_of_recurring hLeft
    obtain ⟨hOffers, hEarly⟩ := (mem_remainingTimes hReach).mp ht
    have hRoom : t < Int64.maxValue := Std.lt_of_lt_of_le hEarly (Int64.le_maxValue last)
    exact Int64.not_lt.mpr (((offers_afterAll hRoom).mp hOffers).2 last hMem) hEarly
  refine ⟨?_, cursors_of_slices hInterval⟩
  rw [← slices_append_afterAll hInterval hLast, hNone, List.append_nil]

/-- At every tick from the start on, five times. -/
def metronome : Entry :=
  Draft.entryFrom ⟨"metronome", "beep", none, some 0, some 5, false, some 1, none, none⟩ 0 (some 5) "first"

/-- Four slices, one of them up to a cutoff that was passed before. -/
theorem slices_exact_of_metronome :
    (metronome.slices [2, 4, 1, 9]).flatMap (·.1.ticks) = (metronome.remainingTimes (some 9)).ticks ∧
      (metronome.slices [2, 4, 1, 9]).map (·.1.ticks) = [[0, 1], [2, 3], [], [4]] ∧
      (metronome.slices [2, 4, 1, 9]).map (·.2.nextTaskTime) = [2, 4, 4, 5] :=
  ⟨(slices_exact rfl (by decide) (by simp)).1, by decide +kernel, by decide +kernel⟩

end TickScheduler.Entry
