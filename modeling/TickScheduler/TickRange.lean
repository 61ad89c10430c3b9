import TickScheduler.Tick
/-!
Tick ranges: an arithmetic sequence of ticks `cursor, cursor + step, …` that ends before an optional
`stop`, or where the clock itself ends. A range is three numbers, whatever its length; the
sequence that it stands for is `TickRange.ticks`, the items that repeated `next?` returns.
-/
namespace TickScheduler

structure TickRange where
  /-- The first tick still to come. -/
  cursor : Tick
  step : Tick
  /-- The first tick that no longer belongs; `none` for a range that only the clock ends. -/
  stop : Option Tick
  step_pos : 0 < step.toInt
deriving DecidableEq, Repr

namespace TickRange

/-- No ticks at all. -/
def empty : TickRange :=
  ⟨0, 1, some 0, by decide⟩

instance : Inhabited TickRange := ⟨empty⟩

/-- Every tick `start, start + step, …` up to the end of the clock; none if the step is not positive. -/
def unbounded (start step : Tick) : TickRange :=
  if h : 0 < step.toInt then ⟨start, step, none, h⟩ else empty

/-- The one tick `tick`; none for the last tick of the clock, which no exclusive end lies beyond. -/
def once (tick : Tick) : TickRange :=
  ⟨tick, 1, some (tick.addClamped 1), by decide⟩

/-- The ticks `start, start + step, …` before `stop`; none if the step is not positive. -/
def range (start stop step : Tick) : TickRange :=
  if h : 0 < step.toInt then
    if start < stop then ⟨start, step, some stop, h⟩ else empty
  else empty

def isBounded (r : TickRange) : Bool :=
  r.stop.isSome

/-- Whether `stop` has been reached. -/
def isEmpty (r : TickRange) : Bool :=
  r.stop.any (· ≤ r.cursor)

/-- The next tick, left in place. -/
def first? (r : TickRange) : Option Tick :=
  if r.isEmpty then none else some r.cursor

/-- Whether a tick lies on the progression and before its end. -/
def contains (r : TickRange) (tick : Tick) : Bool :=
  !r.isEmpty && r.cursor ≤ tick && (tick.toInt - r.cursor.toInt) % r.step.toInt == 0
    && r.stop.all (tick < ·)

/-- How many ticks are left before `stop`; `none` without one. -/
def length? (r : TickRange) : Option Nat :=
  r.stop.map fun stop =>
    ((stop.toInt - r.cursor.toInt + r.step.toInt - 1) / r.step.toInt).toNat

/-- The range with nothing left, its cursor kept. -/
def exhaust (r : TickRange) : TickRange :=
  { r with stop := some r.cursor }

/-- Takes the next tick off. A range whose next step leaves the clock is exhausted by it. -/
def next? (r : TickRange) : Option (Tick × TickRange) :=
  if r.isEmpty then none
  else some (r.cursor,
    match r.cursor.add? r.step with
    | some cursor => { r with cursor }
    | none => r.exhaust)

/-- What is left of the clock for a range: a bound on how often `next?` can still answer. -/
def room (r : TickRange) : Nat :=
  if r.isEmpty then 0 else (0x8000000000000000 - r.cursor.toInt).toNat

theorem isEmpty_exhaust (r : TickRange) : r.exhaust.isEmpty = true := by
  simp [exhaust, isEmpty]

theorem room_lt_of_next? {r rest : TickRange} {tick : Tick} (h : r.next? = some (tick, rest)) :
    rest.room < r.room := by
  have bounds := Tick.toInt_bounds r.cursor
  unfold next? at h
  split at h
  · cases h
  · rename_i present
    obtain ⟨-, rfl⟩ := Prod.mk.inj (Option.some.inj h)
    have whole : r.room = (0x8000000000000000 - r.cursor.toInt).toNat := by simp [room, present]
    rw [whole]
    split
    · rename_i cursor moved
      have := Tick.add?_eq_some_iff.mp moved
      have := r.step_pos
      have := Tick.toInt_bounds cursor
      unfold room
      split
      · omega
      · exact (Int.toNat_lt_toNat (by omega)).mpr (by show 0x8000000000000000 - cursor.toInt < _; omega)
    · rw [room, if_pos r.isEmpty_exhaust]
      omega

/-- The ticks of a range in order: what repeated `next?` returns until nothing is left. -/
def ticks (r : TickRange) : List Tick :=
  match _h : r.next? with
  | none => []
  | some (tick, rest) => tick :: rest.ticks
termination_by r.room
decreasing_by exact room_lt_of_next? _h

/-- Takes up to `n` ticks off, and returns them with what is left. -/
def take : Nat → TickRange → List Tick × TickRange
  | 0, r => ([], r)
  | n + 1, r =>
    match r.next? with
    | none => ([], r)
    | some (tick, rest) =>
      let (more, left) := take n rest
      (tick :: more, left)

/-- Skips `n` ticks and takes the one after them; the range is exhausted if there is none. -/
def nth? (r : TickRange) (n : Nat) : Option Tick × TickRange :=
  let target := r.cursor.toInt + n * r.step.toInt
  match Tick.ofInt? target with
  | some cursor =>
    if r.isEmpty || r.stop.any (· ≤ cursor) then (none, r.exhaust)
    else
      match { r with cursor }.next? with
      | some (tick, rest) => (some tick, rest)
      | none => (none, { r with cursor })
  | none => (none, r.exhaust)

/-- The number of ticks left, counted one by one where only the clock ends the range. -/
def count (r : TickRange) : Nat :=
  match r.length? with
  | some n => n
  | none => r.ticks.length

/-- The last tick left, found one by one where only the clock ends the range. -/
def last? (r : TickRange) : Option Tick :=
  match r.length? with
  | some 0 => none
  | some (n + 1) => Tick.ofInt? (r.cursor.toInt + n * r.step.toInt)
  | none => r.ticks.getLast?

/-- Bounds on the number of ticks left; without a `stop` the lower one is the largest 64-bit count. -/
def sizeHint (r : TickRange) : Nat × Option Nat :=
  match r.length? with
  | some n => (n, some n)
  | none => (UInt64.size - 1, none)

end TickRange

end TickScheduler
