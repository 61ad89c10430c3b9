import TickScheduler.Proofs.Engine.Course
import TickScheduler.Proofs.Engine.Scene
import TickScheduler.Proofs.Store.Deeds
/-!
The loop under watch. A watch follows the loop along its course, sees every deed of clients and actions,
and remembers of both whatever a property has to speak of. It never interferes; but one can ask what
holds as long as certain answers and deeds do not occur.
-/
namespace TickScheduler

namespace Scene

/-- What goes on beside the loop and the deeds: the background makes a step, time goes by, or someone asks
the loop to stop. -/
inductive Elapses (faulty : Prop) : Scene → Scene → Prop where
  | work {s t : Scene} (h : Works faulty s t) : Elapses faulty s t
  | age {s t : Scene} (h : Ages s t) : Elapses faulty s t
  | stop {s : Scene} : Elapses faulty s { s with monitor := s.monitor.stop }

variable {s t : Scene} {faulty : Prop} {r : Request} {a : r.Answer}

theorem sensible_of_answers (h : Answers faulty r s a t) : Course.Sensible r a := by
  cases r with
  | activeEntries =>
      cases a with
      | ok entries => exact (snapshot_answer h).2.1
      | error e => exact trivial
  | entry name =>
      cases a with
      | ok e => exact entry_answer h
      | error e => exact trivial
  | _ => exact trivial

/-- Entries change only when a cursor is saved. -/
theorem entries_of_answers (h : Answers faulty r s a t) (hSave : ∀ e, r ≠ .saveCursor e) :
    t.store.entries = s.store.entries := by
  by_cases hPassive : r.IsPassive
  · obtain ⟨monitor, rfl⟩ := passive_answer hPassive h
    rfl
  · cases r with
    | saveCursor e => exact absurd rfl (hSave e)
    | final => exact (entries_of_answersFinal h).1
    | call | spawn =>
        obtain rfl := h
        rfl
    | _ => exact (hPassive trivial).elim

/-- The loop neither brings rows in nor takes any away. -/
theorem isSome_row?_of_answers (h : Answers faulty r s a t) (name : String) :
    (t.store.row? name).isSome = (s.store.row? name).isSome := by
  by_cases hSave : ∃ e, r = .saveCursor e
  · obtain ⟨e, rfl⟩ := hSave
    rcases Writes.cases h with ⟨store, hStore, -, rfl⟩ | ⟨_, -, rfl⟩
    · exact (Store.rewrites_of_saveCursor hStore).isSome_row? name
    · rfl
  · rw [Store.row?_congr (entries_of_answers h (not_exists.mp hSave))]

theorem row?_eq_none_of_answers (h : Answers faulty r s a t) {name : String}
    (hNone : s.store.row? name = none) : t.store.row? name = none := by
  have hRow := isSome_row?_of_answers h name
  rwa [hNone, Option.isSome_none, Option.isSome_eq_false_iff, Option.isNone_iff_eq_none] at hRow

/-- An entry that is found has a row. -/
theorem row_of_found {name : String} {e : Entry} (h : Answers faulty (.entry name) s (.ok e) t) :
    t = s ∧ ∃ row, s.store.row? name = some row := by
  obtain ⟨hRead | ⟨-, _, hError⟩, rfl⟩ := h
  · obtain ⟨row, hRow, -⟩ := Store.getEntry_eq_ok_iff.mp hRead.symm
    exact ⟨rfl, row, hRow⟩
  · cases hError

/-- Results change only when one is recorded. -/
theorem results_of_answers (h : Answers faulty r s a t) (hFinal : ∀ r', r ≠ .final r') :
    t.store.results = s.store.results := by
  by_cases hPassive : r.IsPassive
  · obtain ⟨monitor, rfl⟩ := passive_answer hPassive h
    rfl
  · cases r with
    | saveCursor e =>
        rcases Writes.cases h with ⟨store, hStore, -, rfl⟩ | ⟨_, -, rfl⟩
        · exact (Store.rewrites_of_saveCursor hStore).results_eq
        · rfl
    | final r' => exact absurd rfl (hFinal r')
    | call | spawn =>
        obtain rfl := h
        rfl
    | _ => exact (hPassive trivial).elim

/-- A task counts as executed only when its action is called. -/
theorem executed_of_answers (h : Answers faulty r s a t) (hCall : ∀ task id, r ≠ .call task id) :
    t.executed = s.executed := by
  by_cases hPassive : r.IsPassive
  · obtain ⟨monitor, rfl⟩ := passive_answer hPassive h
    rfl
  · cases r with
    | saveCursor e => rcases Writes.cases h with ⟨store, -, -, rfl⟩ | ⟨_, -, rfl⟩ <;> rfl
    | final => exact (entries_of_answersFinal h).2
    | call task id => exact absurd rfl (hCall task id)
    | spawn =>
        obtain rfl := h
        rfl
    | _ => exact (hPassive trivial).elim

theorem clock_of_answers (h : Answers faulty r s a t) : t.clock = s.clock := by
  obtain ⟨_, _, _, _, rfl⟩ := frame_of_answers h
  rfl

/-- The background grows only when a finalisation is put there. -/
theorem jobs_of_answers (h : Answers faulty r s a t) (hSpawn : ∀ job, r ≠ .spawn job) :
    t.jobs = s.jobs := by
  by_cases hPassive : r.IsPassive
  · obtain ⟨monitor, rfl⟩ := passive_answer hPassive h
    rfl
  · cases r with
    | saveCursor e =>
        rcases Writes.cases h with ⟨store, -, -, rfl⟩ | ⟨_, -, rfl⟩ <;> rfl
    | final =>
        obtain ⟨store, journal, rfl⟩ := frame_of_answersFinal h
        rfl
    | call =>
        obtain rfl := h
        rfl
    | spawn job => exact absurd rfl (hSpawn job)
    | _ => exact (hPassive trivial).elim

theorem Elapses.entries_eq (h : Elapses faulty s t) : t.store.entries = s.store.entries := by
  cases h with
  | work h => exact (entries_of_works h).1
  | age h =>
      obtain ⟨clock, -, rfl⟩ := h
      rfl
  | stop => rfl

theorem Elapses.executed_eq (h : Elapses faulty s t) : t.executed = s.executed := by
  cases h with
  | work h => exact (entries_of_works h).2
  | age h =>
      obtain ⟨clock, -, rfl⟩ := h
      rfl
  | stop => rfl

theorem Elapses.clock_le (h : Elapses faulty s t) : s.clock ≤ t.clock := by
  cases h with
  | work h =>
      obtain ⟨_, _, _, _, rfl⟩ := frame_of_works h
      exact Int64.le_refl _
  | age h =>
      obtain ⟨clock, hClock, rfl⟩ := h
      exact hClock
  | stop => exact Int64.le_refl _

end Scene

/-- A scene, how far the loop has come in it, and what is remembered. -/
structure Watched (Memory : Type) where
  scene : Scene
  course : Course
  memory : Memory

structure Watch (Memory : Type) where
  /-- What is remembered after a request of the loop and its answer. -/
  heard : Memory → Course → (r : Request) → r.Answer → Memory
  /-- What is remembered after a deed. -/
  seen : Memory → Deed → Memory
  /-- Which answers there are. -/
  admits : Watched Memory → (r : Request) → r.Answer → Prop := fun _ _ _ => True
  /-- Which deeds there are. -/
  allows : Watched Memory → Deed → Prop := fun _ _ => True

namespace Watched

variable {Memory : Type}

/-- A scheduler that is about to begin. -/
def begin (scene : Scene) (memory : Memory) : Watched Memory :=
  ⟨scene, { time := scene.clock }, memory⟩

/-- The first of the entries has given up what is due, and its cursor is saved. -/
structure Saves (s : Watched Memory) (e : Entry) (rest : List Entry) (f : Entry) (t : Watched Memory) :
    Prop where
  counted : s.course.counted = none
  held : s.course.held = e :: rest
  consumes : e.Consumes s.course.time s.course.due f
  rewrites : s.scene.store.Rewrites e.name (·.withCursor f) t.scene.store
  course_eq : t.course =
    { s.course with held := rest, ready := s.course.ready ++ s.course.due.toList }

namespace Saves

variable {s t : Watched Memory} {e f : Entry} {rest : List Entry}

theorem mem (h : s.Saves e rest f t) : e ∈ s.course.held := by
  simp [h.held]

/-- The other entries stay as they are. -/
theorem other (h : s.Saves e rest f t) (hNames : s.course.names.Nodup) {other : Entry}
    (hOther : other ∈ t.course.held) :
    other ∈ s.course.held ∧ t.scene.store.row? other.name = s.scene.store.row? other.name := by
  rw [h.course_eq] at hOther
  refine ⟨h.held ▸ List.mem_cons_of_mem e hOther, ?_⟩
  exact h.rewrites.other (Course.name_ne_of_held hNames h.held hOther)

/-- What is ready was ready before, or has just been taken. -/
theorem mem_ready (h : s.Saves e rest f t) {τ : Task} (hτ : τ ∈ t.course.ready) :
    τ ∈ s.course.ready ∨ e.Takes s.course.time τ f := by
  rw [h.course_eq] at hτ
  exact (List.mem_append.mp hτ).imp_right fun hDue => h.consumes.takes τ (Option.mem_toList.mp hDue)

/-- An id that was just taken is past. -/
theorem countsPast (h : s.Saves e rest f t) {τ : Task} (hTakes : e.Takes s.course.time τ f) :
    t.scene.store.CountsPast e.name e.nextTaskId := by
  intro now hNow
  obtain ⟨row, -, rfl⟩ := Option.map_eq_some_iff.mp (h.rewrites.same.symm.trans hNow)
  exact Std.lt_of_lt_of_le hTakes.nextTaskId_lt (row.le_nextTaskId_withCursor f)

/-- No counter is lowered if the entry was held with the one that is stored. -/
theorem raises (h : s.Saves e rest f t)
    (hCounter : ∀ row, s.scene.store.row? e.name = some row → row.nextTaskId = e.nextTaskId)
    {name : String} {now : EntryRow} (hNow : t.scene.store.row? name = some now) :
    ∃ row, s.scene.store.row? name = some row ∧ row.nextTaskId ≤ now.nextTaskId := by
  rcases h.rewrites.source hNow with ⟨-, hOld⟩ | ⟨rfl, old, hOld, rfl⟩
  · exact ⟨now, hOld, Int64.le_refl _⟩
  · exact ⟨old, hOld, Int64.le_trans (hCounter old hOld ▸ h.consumes.le_nextTaskId)
      (old.le_nextTaskId_withCursor f)⟩

end Saves

end Watched

namespace Watch

variable {Memory : Type} {w : Watch Memory} {faulty : Prop} {s t : Watched Memory}

/-- The loop has an answer. -/
structure Hears (w : Watch Memory) (faulty : Prop) (r : Request) (s : Watched Memory) (a : r.Answer)
    (t : Watched Memory) : Prop where
  admitted : w.admits s r a
  answer : Scene.Answers faulty r s.scene a t.scene
  course_eq : t.course = s.course.after r a
  memory_eq : t.memory = w.heard s.memory s.course r a

/-- Something happens that the loop did not ask for. -/
inductive Passes (w : Watch Memory) (faulty : Prop) : Watched Memory → Watched Memory → Prop where
  | elapse {s : Watched Memory} {scene : Scene} (h : s.scene.Elapses faulty scene) :
      Passes w faulty s { s with scene }
  | deed {s : Watched Memory} {deed : Deed} {store : Store} (hAllowed : w.allows s deed)
      (hStore : deed.apply s.scene.store = .ok store) :
      Passes w faulty s ⟨{ s.scene with store }, s.course, w.seen s.memory deed⟩

/-- Clients and actions do what is allowed. If the scene is faulty, any operation of the store may
fail. -/
def conduct (w : Watch Memory) (faulty : Prop) : Conduct Request Request.Answer (Watched Memory) where
  answers := w.Hears faulty
  moves := w.Passes faulty

/-- The same watch as long as an entry is not deleted. -/
def sparing (w : Watch Memory) (name : String) : Watch Memory :=
  { w with allows := fun s deed => w.allows s deed ∧ deed ≠ .delete name }

theorem Hears.of_sparing {r : Request} {a : r.Answer} {name : String}
    (h : (w.sparing name).Hears faulty r s a t) : w.Hears faulty r s a t :=
  ⟨h.admitted, h.answer, h.course_eq, h.memory_eq⟩

theorem Passes.of_sparing {name : String} (h : (w.sparing name).Passes faulty s t) :
    w.Passes faulty s t := by
  cases h with
  | elapse hElapses => exact .elapse hElapses
  | deed hAllowed hStore => exact .deed hAllowed.1 hStore

/-- What is due of an entry was taken off, and its cursor is saved or is not. -/
theorem Hears.saves {f : Entry} {a : Except Error Unit} (hTakes : s.course.Takes f)
    (hHears : w.Hears faulty (.saveCursor f) s a t) :
    (∃ fault, a = .error fault ∧ t.scene = s.scene ∧ t.course = { time := s.course.time }) ∨
      ∃ e rest, a = .ok () ∧ s.Saves e rest f t := by
  have hNone := hTakes.counted_eq
  obtain ⟨e, rest, -, hHeld, hConsume⟩ := hTakes
  have hConsumes := Entry.consumes_of_consume hConsume
  rcases Scene.Writes.cases hHears.answer with ⟨store, hStore, rfl, hScene⟩ | ⟨fault, rfl, hScene⟩
  · refine .inr ⟨e, rest, rfl, hNone, hHeld, hConsumes, ?_, ?_⟩
    · rw [hScene]
      exact hConsumes.moves.name_eq ▸ Store.rewrites_of_saveCursor hStore
    · rw [hHears.course_eq]
      simp [Course.after, hNone, hHeld]
  · exact .inl ⟨fault, rfl, hScene, hHears.course_eq⟩

variable {setup : LoopSetup} {restoring : Prop} {Result : Type} {p q : Program Request Request.Answer Result}
  {post : Result → Course → Prop}

/-- What the answers to permitted requests keep, and what happens meanwhile, holds wherever the loop
comes to; and what is left of the program still follows the course of the loop. -/
theorem of_leads (inv : Watched Memory → Prop)
    (hMove : ∀ {s t}, w.Passes faulty s t → inv s → inv t)
    (hAnswer : ∀ {r s a t}, s.course.Permits setup restoring r → s.course.names.Nodup →
      w.Hears faulty r s a t → inv s → inv t)
    (hLeads : Program.Leads (w.conduct faulty) p s q t)
    (hObeys : p.Obeys (Course.discipline setup restoring) post s.course)
    (hNames : s.course.names.Nodup) (h : inv s) :
    inv t ∧ t.course.names.Nodup ∧ q.Obeys (Course.discipline setup restoring) post t.course := by
  have hCome := hObeys.of_leads (fun φ u => u.course = φ ∧ φ.names.Nodup ∧ inv u) ?_ ?_ hLeads
    ⟨rfl, hNames, h⟩
  · obtain ⟨φ, ⟨rfl, hNames, hInv⟩, hRest⟩ := hCome
    exact ⟨hInv, hNames, hRest⟩
  · rintro φ u v hPasses ⟨rfl, hNames, hInv⟩
    refine ⟨?_, hNames, hMove hPasses hInv⟩
    cases hPasses <;> rfl
  · rintro φ r u a v hPermits hHears ⟨rfl, hNames, hInv⟩
    have hSense := Scene.sensible_of_answers hHears.answer
    exact ⟨hSense, hHears.course_eq, Course.names_after hSense hNames,
      hAnswer hPermits hNames hHears hInv⟩

end Watch

end TickScheduler
