import TickScheduler.Proofs.Engine.Course
import TickScheduler.Proofs.Engine.Scene
/-!
Invariants of the scheduling loop. A loop invariant says what every single request of the loop leaves
behind, given what the loop knows at that point of its course. Whoever proves that has the invariant for
every pass and for every run, however the surroundings behave.
-/
namespace TickScheduler

/-- What the loop may know of one entry, on its way from the snapshot to the result of a task. -/
inductive Note where
  /-- The entry was read, and nothing was taken off it since. -/
  | held (e : Entry)
  /-- The highest id among its results was read as well. -/
  | counted (e : Entry) (last : TaskId)
  /-- The task was taken off its entry, and the cursor is saved. -/
  | ready (task : Task)
  /-- The result of the task is stored as in progress. -/
  | opened (task : Task)
  | called (task : Task)

namespace Note

def name : Note → String
  | held e => e.name
  | counted e _ => e.name
  | ready task => task.entryName
  | opened task => task.entryName
  | called task => task.entryName

end Note

/-- Something that holds all along a loop: what each request does to it and to what the loop knows. A
request about one entry leaves alone what is known of others. -/
structure LoopInvariant (setup : LoopSetup) (c : Conduct Request Request.Answer Scene) where
  inv : Scene → Prop
  holds : Note → Scene → Prop
  moved : ∀ {s t}, c.moves s t → inv s → inv t ∧ ∀ note, holds note s → holds note t
  passive : ∀ {r s a t}, r.IsPassive → c.answers r s a t → inv s →
    inv t ∧ ∀ note, holds note s → holds note t
  snapshot : ∀ {s entries t}, c.answers .activeEntries s (.ok entries) t → inv s →
    (entries.map Entry.name).Nodup ∧ ∀ e ∈ entries, holds (.held e) t
  found : ∀ {name s e t}, c.answers (.entry name) s (.ok e) t → e.name = name
  counted : ∀ {e last s t}, c.answers (.lastTaskId e.name) s (.ok (some last)) t → inv s →
    holds (.held e) s → holds (.counted e last) t
  restored : ∀ {e last next s a t}, Tick.succ? last = some next →
    c.answers (.saveCursor { e with nextTaskId := next }) s a t → inv s → holds (.counted e last) s →
    inv t ∧ ∀ note, note.name ≠ e.name → holds note s → holds note t
  saved : ∀ {e now task f s a t}, e.consume now = .ok (task, f) → c.answers (.saveCursor f) s a t →
    inv s → holds (.held e) s →
    inv t ∧ (a = .ok () → ∀ τ, task = some τ → holds (.ready τ) t) ∧
      ∀ note, note.name ≠ e.name → holds note s → holds note t
  opened : ∀ {τ id started s a t}, τ.taskId = some id →
    c.answers (.final (.record (.inProgress τ.entryName id started) setup.settings.maxTaskResults)) s a t →
    inv s → holds (.ready τ) s →
    inv t ∧ (a = .ok () → holds (.opened τ) t) ∧
      ∀ note, note.name ≠ τ.entryName → holds note s → holds note t
  called : ∀ {τ id s a t}, τ.taskId = some id → c.answers (.call τ id) s a t → inv s →
    holds (.opened τ) s →
    inv t ∧ holds (.called τ) t ∧ ∀ note, note.name ≠ τ.entryName → holds note s → holds note t
  finalised : ∀ {τ id r s a t}, τ.taskId = some id →
    r.Closes τ.entryName id setup.settings.maxTaskResults → c.answers (.final r) s a t → inv s →
    holds (.called τ) s → inv t ∧ ∀ note, holds note s → holds note t
  spawned : ∀ {τ id s a t} {job : Finalisation}, τ.taskId = some id →
    job.program.Asks (FinalRequest.Closes τ.entryName id setup.settings.maxTaskResults) →
    c.answers (.spawn job) s a t → inv s → holds (.called τ) s →
    inv t ∧ ∀ note, note.name ≠ τ.entryName → holds note s → holds note t

namespace LoopInvariant

variable {setup : LoopSetup} {c : Conduct Request Request.Answer Scene} (L : LoopInvariant setup c)
  {s t : Scene} {notes : List Note} {α β : Type}

/-- What is known at some point of the loop. -/
def Knows (notes : List Note) (s : Scene) : Prop :=
  L.inv s ∧ ∀ note ∈ notes, L.holds note s

variable {L}

theorem knows_nil (h : L.inv s) : L.Knows [] s :=
  ⟨h, fun _ => nofun⟩

theorem Knows.anti {fewer : List Note} (hSub : fewer ⊆ notes) (h : L.Knows notes s) : L.Knows fewer s :=
  ⟨h.1, fun note hNote => h.2 note (hSub hNote)⟩

theorem Knows.moved (hMove : c.moves s t) (h : L.Knows notes s) : L.Knows notes t := by
  obtain ⟨hInv, hKeep⟩ := L.moved hMove h.1
  exact ⟨hInv, fun note hNote => hKeep note (h.2 note hNote)⟩

theorem Knows.passive {r : Request} {a : r.Answer} (h : L.Knows notes s) (hAnswer : c.answers r s a t)
    (hPassive : r.IsPassive) : L.Knows notes t := by
  obtain ⟨hInv, hKeep⟩ := L.passive hPassive hAnswer h.1
  exact ⟨hInv, fun note hNote => hKeep note (h.2 note hNote)⟩

/-- What is known of others survives a request about one entry. -/
theorem Knows.others {name : String} (hInv : L.inv t)
    (hKeep : ∀ note, note.name ≠ name → L.holds note s → L.holds note t)
    (hOther : ∀ note ∈ notes, note.name ≠ name) (h : L.Knows notes s) : L.Knows notes t :=
  ⟨hInv, fun note hNote => hKeep note (hOther note hNote) (h.2 note hNote)⟩

theorem Knows.cons {note : Note} (hNote : L.holds note s) (h : L.Knows notes s) :
    L.Knows (note :: notes) s :=
  ⟨h.1, List.forall_mem_cons.mpr ⟨hNote, h.2⟩⟩

theorem Knows.append {more : List Note} (hMore : ∀ note ∈ more, L.holds note s) (h : L.Knows notes s) :
    L.Knows (more ++ notes) s :=
  ⟨h.1, List.forall_mem_append.mpr ⟨hMore, h.2⟩⟩

/-! ### Along the course of the loop -/

end LoopInvariant

namespace Course

/-- What is known of the task whose turn it is. -/
def noteOf : Task × Headway → Note
  | (τ, .found) => .ready τ
  | (τ, .opened) => .opened τ
  | (τ, .called) => .called τ

/-- All that the loop knows of entries. -/
def notes (φ : Course) : List Note :=
  φ.held.map Note.held ++ φ.counted.toList.map (fun (e, last) => Note.counted e last) ++
    φ.ready.map Note.ready ++ φ.current.toList.map noteOf

theorem name_noteOf (current : Task × Headway) : (noteOf current).name = current.1.entryName := by
  obtain ⟨τ, headway⟩ := current
  cases headway <;> rfl

theorem map_name_notes (φ : Course) : φ.notes.map Note.name = φ.names := by
  simp only [notes, names, List.map_append, List.map_map]
  congr 2
  exact funext name_noteOf

section Parts

variable {time : Tick} {held : List Entry} {counted : Option (Entry × TaskId)} {ready : List Task}
  {current : Option (Task × Headway)} {note : Note}

theorem mem_notes {φ : Course} : note ∈ φ.notes ↔ (∃ e ∈ φ.held, .held e = note) ∨
    (∃ e last, φ.counted = some (e, last) ∧ .counted e last = note) ∨
      (∃ τ ∈ φ.ready, .ready τ = note) ∨ ∃ x, φ.current = some x ∧ noteOf x = note := by
  simp [notes]

theorem notes_held {e : Entry} : (notes ⟨time, e :: held, counted, ready, current⟩).Perm
    (.held e :: notes ⟨time, held, counted, ready, current⟩) := by
  simp [notes]

theorem notes_counted {e : Entry} {last : TaskId} :
    (notes ⟨time, held, some (e, last), ready, current⟩).Perm
      (.counted e last :: notes ⟨time, held, none, ready, current⟩) := by
  simp [notes]

theorem notes_current {x : Task × Headway} : (notes ⟨time, held, counted, ready, some x⟩).Perm
    (noteOf x :: notes ⟨time, held, counted, ready, none⟩) := by
  simp only [notes, Option.toList_some, Option.toList_none, List.map_cons, List.map_nil, List.append_nil]
  exact List.perm_append_singleton _ _

end Parts

/-- What is known of one entry and what is known of others. -/
theorem name_ne_of_perm {φ : Course} {note : Note} {others : List Note}
    (hPerm : φ.notes.Perm (note :: others)) (hNodup : φ.names.Nodup) :
    ∀ other ∈ others, other.name ≠ note.name := by
  rw [← map_name_notes, (hPerm.map _).nodup_iff, List.map_cons, List.nodup_cons] at hNodup
  exact fun other hOther hSame => hNodup.1 (hSame ▸ List.mem_map_of_mem hOther)

end Course

namespace LoopInvariant

variable {setup : LoopSetup} {c : Conduct Request Request.Answer Scene} {L : LoopInvariant setup c}
  {s t : Scene} {φ : Course} {restoring : Prop}

/-- The invariant holds, all that the loop knows is true, and it is at work on no entry twice. -/
def Tracks (L : LoopInvariant setup c) (φ : Course) (s : Scene) : Prop :=
  L.Knows φ.notes s ∧ φ.names.Nodup

/-- One thing that the loop knows is used. -/
theorem Tracks.holds {note : Note} {others : List Note} (h : L.Tracks φ s)
    (hPerm : φ.notes.Perm (note :: others)) : L.holds note s :=
  h.1.2 note (hPerm.mem_iff.mpr List.mem_cons_self)

/-- What is known of others is still known after a request about one entry. -/
theorem Tracks.others {note : Note} {others : List Note} (h : L.Tracks φ s)
    (hPerm : φ.notes.Perm (note :: others)) (hInv : L.inv t)
    (hKeep : ∀ other, other.name ≠ note.name → L.holds other s → L.holds other t) : L.Knows others t :=
  (h.1.anti fun _ hNote => hPerm.mem_iff.mpr (List.mem_cons_of_mem _ hNote)).others hInv hKeep
    (Course.name_ne_of_perm hPerm h.2)

/-- Passive requests bring no knowledge about entries, except for snapshots and for the counting of
results. -/
theorem notes_after_of_passive {r : Request} {a : r.Answer} (hPassive : r.IsPassive)
    (hSnapshot : r ≠ .activeEntries) (hCount : ∀ name, r ≠ .lastTaskId name) :
    (φ.after r a).notes ⊆ φ.notes := by
  obtain ⟨time, held, counted, ready, current⟩ := φ
  intro note hNote
  cases r with
  | activeEntries => exact absurd rfl hSnapshot
  | lastTaskId name => exact absurd rfl (hCount name)
  | saveCursor | final | call | spawn => exact hPassive.elim
  | entry name =>
      rw [Course.mem_notes] at hNote ⊢
      cases a with
      | ok e => cases ready <;> simp [Course.after, Course.noteOf] at hNote ⊢ <;> grind
      | error e =>
          cases e with
          | entryNotFound => cases ready <;> simp [Course.after] at hNote ⊢ <;> grind
          | _ => simp [Course.after] at hNote
  | publish upcoming =>
      have hMem (τ : Task) : τ ∈ (TaskQueue.ofList ready).toList ↔ τ ∈ ready := TaskQueue.mem_ofList
      rw [Course.mem_notes] at hNote ⊢
      simpa [Course.after, hMem] using hNote
  | countOutcome failed | stop =>
      rw [Course.mem_notes] at hNote ⊢
      simp [Course.after] at hNote ⊢
      grind
  | setIdle => exact absurd hNote List.not_mem_nil
  | _ => exact hNote

theorem knows_after_saveCursor {f : Entry} {a : Except Error Unit}
    (hPermits : φ.Permits setup restoring (.saveCursor f)) (hAnswer : c.answers (.saveCursor f) s a t)
    (h : L.Tracks φ s) : L.Knows (φ.after (.saveCursor f) a).notes t := by
  obtain ⟨time, held, counted, ready, current⟩ := φ
  have hInv := h.1.1
  rcases hPermits with ⟨-, e, last, next, hCounted, hNext, rfl⟩ | ⟨e, rest, hNone, hHeld, hConsume⟩
  · obtain rfl : counted = some (e, last) := hCounted
    obtain ⟨hInv, hKeep⟩ := L.restored hNext hAnswer hInv (h.holds Course.notes_counted)
    cases a with
    | ok => exact h.others Course.notes_counted hInv hKeep
    | error e => exact knows_nil hInv
  · obtain rfl : counted = none := hNone
    obtain rfl : held = e :: rest := hHeld
    obtain ⟨hInv, hReady, hKeep⟩ := L.saved hConsume hAnswer hInv (h.holds Course.notes_held)
    cases a with
    | ok =>
        have hOthers := h.others Course.notes_held hInv hKeep
        have hTask : ∀ note ∈ (Course.due ⟨time, e :: rest, none, ready, current⟩).toList.map .ready,
            L.holds note t := by
          intro note hNote
          obtain ⟨τ, hDue, rfl⟩ := List.mem_map.mp hNote
          exact hReady rfl τ (Option.mem_toList.mp hDue)
        refine (hOthers.append hTask).anti fun note hNote => ?_
        rw [List.mem_append, Course.mem_notes]
        rw [Course.mem_notes] at hNote
        simp [Course.after] at hNote ⊢
        grind
    | error e => exact knows_nil hInv

theorem knows_after_final {r : FinalRequest} {a : r.Answer}
    (hPermits : φ.Permits setup restoring (.final r)) (hAnswer : c.answers (.final r) s a t)
    (h : L.Tracks φ s) : L.Knows (φ.after (.final r) a).notes t := by
  obtain ⟨time, held, counted, ready, current⟩ := φ
  have hInv := h.1.1
  obtain ⟨τ, id, hId, ⟨hCurrent, started, rfl⟩ | ⟨hCurrent, hCloses⟩⟩ := hPermits
  · obtain rfl : current = some (τ, .found) := hCurrent
    obtain ⟨hInv, hOpened, hKeep⟩ := L.opened hId hAnswer hInv (h.holds Course.notes_current)
    cases a with
    | ok =>
        refine ((h.others Course.notes_current hInv hKeep).cons (hOpened rfl)).anti ?_
        exact Course.notes_current.subset
    | error e => exact knows_nil hInv
  · obtain rfl : current = some (τ, .called) := hCurrent
    obtain ⟨hInv, hKeep⟩ := L.finalised hId hCloses hAnswer hInv (h.holds Course.notes_current)
    have hSame : L.Knows (Course.notes ⟨time, held, counted, ready, some (τ, .called)⟩) t :=
      ⟨hInv, fun note hNote => hKeep note (h.1.2 note hNote)⟩
    cases r with
    | record result keep =>
        cases a with
        | ok => exact hSame
        | error e => exact knows_nil hInv
    | notify url payload => exact hSame

/-- Every request that is permitted keeps what is known up to date. -/
theorem knows_after {r : Request} {a : r.Answer} (hPermits : φ.Permits setup restoring r)
    (hAnswer : c.answers r s a t) (h : L.Tracks φ s) :
    Course.Sensible r a ∧ L.Knows (φ.after r a).notes t := by
  have hPassed (hPassive : r.IsPassive) : L.Knows φ.notes t := h.1.passive hAnswer hPassive
  cases r with
  | activeEntries =>
      have hInv := (hPassed trivial).1
      cases a with
      | ok entries =>
          obtain ⟨hNames, hHeld⟩ := L.snapshot hAnswer h.1.1
          refine ⟨hNames, hInv, fun note hNote => ?_⟩
          obtain ⟨e, hEntry, rfl⟩ : ∃ e ∈ entries, Note.held e = note := by
            simpa [Course.after, Course.mem_notes] using hNote
          exact hHeld e hEntry
      | error e => exact ⟨trivial, knows_nil hInv⟩
  | lastTaskId name =>
      obtain ⟨-, e, rest, hHeld, rfl⟩ := hPermits
      refine ⟨trivial, ?_⟩
      obtain ⟨time, held, counted, ready, current⟩ := φ
      obtain rfl : held = e :: rest := hHeld
      cases a with
      | ok last =>
          cases last with
          | none =>
              refine (hPassed trivial).anti fun note hNote => ?_
              rw [Course.mem_notes] at hNote ⊢
              simp [Course.after] at hNote ⊢
              grind
          | some last =>
              have hCounted := L.counted hAnswer h.1.1 (h.holds Course.notes_held)
              refine ((hPassed trivial).cons hCounted).anti fun note hNote => ?_
              rw [List.mem_cons, Course.mem_notes]
              rw [Course.mem_notes] at hNote
              simp [Course.after] at hNote ⊢
              grind
      | error e => exact knows_nil (hPassed trivial).1
  | saveCursor f => exact ⟨trivial, knows_after_saveCursor hPermits hAnswer h⟩
  | final r => exact ⟨trivial, knows_after_final hPermits hAnswer h⟩
  | call τ id =>
      obtain ⟨time, held, counted, ready, current⟩ := φ
      obtain ⟨hCurrent, hId⟩ := hPermits
      obtain rfl : current = some (τ, .opened) := hCurrent
      obtain ⟨hInv, hCalled, hKeep⟩ := L.called hId hAnswer h.1.1 (h.holds Course.notes_current)
      refine ⟨trivial, ((h.others Course.notes_current hInv hKeep).cons hCalled).anti ?_⟩
      exact Course.notes_current.subset
  | spawn job =>
      obtain ⟨time, held, counted, ready, current⟩ := φ
      obtain ⟨τ, id, hCurrent, hId, hAsks⟩ := hPermits
      obtain rfl : current = some (τ, .called) := hCurrent
      obtain ⟨hInv, hKeep⟩ := L.spawned hId hAsks hAnswer h.1.1 (h.holds Course.notes_current)
      exact ⟨trivial, h.others Course.notes_current hInv hKeep⟩
  | entry name =>
      refine ⟨?_, (hPassed trivial).anti (notes_after_of_passive trivial (by simp) (by simp))⟩
      cases a with
      | ok e => exact L.found hAnswer
      | error e => exact trivial
  | _ => exact ⟨trivial, (hPassed trivial).anti (notes_after_of_passive trivial (by simp) (by simp))⟩

theorem tracks_after {r : Request} {a : r.Answer} (hPermits : φ.Permits setup restoring r)
    (hAnswer : c.answers r s a t) (h : L.Tracks φ s) :
    Course.Sensible r a ∧ L.Tracks (φ.after r a) t := by
  obtain ⟨hSense, hKnows⟩ := knows_after hPermits hAnswer h
  exact ⟨hSense, hKnows, Course.names_after hSense h.2⟩

/-- A program that keeps to the course of the loop upholds every loop invariant. -/
theorem upholds {Result : Type} {p : Program Request Request.Answer Result}
    {post : Result → Course → Prop} (h : L.inv s)
    (hObeys : ∀ φ, p.Obeys (Course.discipline setup restoring) post φ) :
    p.Upholds c L.inv (fun _ t => L.inv t) s := by
  have hStart : L.Tracks { time := 0 } s := ⟨knows_nil h, .nil⟩
  refine Program.Upholds.mono ?_ ?_
    ((hObeys _).upholds L.Tracks (fun hMove h => ⟨h.1.moved hMove, h.2⟩) tracks_after hStart)
  · rintro t ⟨φ, hTracks⟩
    exact hTracks.1.1
  · rintro result t ⟨φ, hTracks, -⟩
    exact hTracks.1.1

theorem upholds_runOnce (h : L.inv s) :
    Program.Upholds c L.inv (fun _ t => L.inv t) (ExceptT.run (Pass.runOnce setup)) s :=
  upholds h fun φ => (Course.keeps_runOnce : Course.Keeps setup False _ _ φ)

/-- A loop invariant holds as long as a scheduler is at work. -/
theorem upholds_duty (duty : Duty) (h : L.inv s) :
    Program.Upholds c L.inv (fun _ t => L.inv t) (duty.program setup) s :=
  upholds h fun _ => duty.obeys_program

end LoopInvariant

end TickScheduler
