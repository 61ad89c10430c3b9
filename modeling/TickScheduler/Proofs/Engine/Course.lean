import Mathlib.Data.List.Nodup
import TickScheduler.Engine.Run
import TickScheduler.Proofs.Entry.Consumption
import TickScheduler.Proofs.Program.Discipline
/-!
The course of the scheduling loop: which entries of a snapshot it has yet to look at, which tasks wait for
their turn, and how far it has come with the one whose turn it is. All of this follows from what the
loop has asked and heard, and it says what the loop may ask next. The walk through pass and run is
made here, once for all invariants of the loop.
-/
namespace TickScheduler

/-- The first result of a task is stored. -/
def FinalRequest.Opens (name : String) (id : TaskId) (keep : Nat) (r : FinalRequest) : Prop :=
  ∃ started, r = .record (.inProgress name id started) keep

/-- A request in the finalisation of a task. -/
def FinalRequest.Closes (name : String) (id : TaskId) (keep : Nat) : FinalRequest → Prop
  | .record result kept =>
      result.entryName = name ∧ result.taskId = id ∧ result.status ≠ .inProgress ∧ kept = keep
  | .notify _ _ => True

theorem Finalisation.asks_closes (f : Finalisation) (h : f.result.status ≠ .inProgress) :
    f.program.Asks (FinalRequest.Closes f.result.entryName f.result.taskId f.keep) := by
  refine ⟨⟨rfl, rfl, h, rfl⟩, fun answer => ?_⟩
  cases answer with
  | error e => exact trivial
  | ok =>
      cases hReceiver : f.receiver with
      | none => exact trivial
      | some url =>
          refine ⟨trivial, fun delivery => ?_⟩
          cases delivery with
          | ok => exact trivial
          | error e =>
              dsimp only
              split
              · exact ⟨⟨rfl, rfl, nofun, rfl⟩, fun _ => trivial⟩
              · exact trivial

/-- How far the loop has come with a task whose turn it is. -/
inductive Headway where
  /-- Its entry was there. -/
  | found
  /-- Its result is stored as in progress. -/
  | opened
  /-- Its action was called. -/
  | called
deriving DecidableEq, Repr

namespace Headway

/-- The result of the task was stored, for the first time or again. -/
def recorded : Headway → Headway
  | found => opened
  | other => other

end Headway

structure Course where
  /-- The clock as it was last read. -/
  time : Tick
  /-- Entries of the snapshot that nothing was taken off yet. -/
  held : List Entry := []
  /-- The entry whose id is being restored, with the highest id among its results. -/
  counted : Option (Entry × TaskId) := none
  /-- Tasks that wait for their turn. -/
  ready : List Task := []
  /-- The task whose turn it is. -/
  current : Option (Task × Headway) := none
deriving Repr

namespace Course

/-- The task that the first of the entries gives up. -/
def due (φ : Course) : Option Task :=
  φ.held.head?.bind fun e => (e.consume φ.time).toOption.bind Prod.fst

/-- The id that is handed out when the cursor of the first of the entries is saved. -/
def handout (φ : Course) : Option (String × TaskId) :=
  if φ.counted.isSome then none
  else φ.due.bind fun τ => τ.taskId.map fun id => (τ.entryName, id)

/-- The course after a request and its answer. With most errors everything is over. -/
def after (φ : Course) : (r : Request) → r.Answer → Course
  | .now, time => { φ with time }
  | .activeEntries, .ok entries => { time := φ.time, held := entries }
  | .lastTaskId _, .ok last =>
      { φ with
        held := φ.held.tail
        counted := φ.held.head?.bind fun e => last.map fun last => (e, last) }
  | .saveCursor _, .ok () =>
      if φ.counted.isSome then { φ with counted := none }
      else { φ with held := φ.held.tail, ready := φ.ready ++ φ.due.toList }
  | .publish _, () => { φ with ready := (TaskQueue.ofList φ.ready).toList }
  | .entry _, .ok _ =>
      { φ with ready := φ.ready.tail, current := φ.ready.head?.map fun τ => (τ, .found) }
  | .entry _, .error (.entryNotFound _) => { φ with ready := φ.ready.tail }
  | .final (.record _ _), .ok () =>
      { φ with current := φ.current.map fun (τ, headway) => (τ, headway.recorded) }
  | .call _ _, _ => { φ with current := φ.current.map fun (τ, _) => (τ, .called) }
  | .spawn _, () | .countOutcome _, _ => { φ with current := none }
  | .stop, () => { φ with ready := [] }
  | .setIdle, () | .activeEntries, .error _ | .lastTaskId _, .error _ | .saveCursor _, .error _
  | .entry _, .error _ | .final (.record _ _), .error _ => { time := φ.time }
  | _, _ => φ

/-- The id of an entry is set to the one after its highest. -/
def Restores (φ : Course) (f : Entry) : Prop :=
  ∃ e last next, φ.counted = some (e, last) ∧ Tick.succ? last = some next ∧
    f = { e with nextTaskId := next }

/-- What is due is taken off the first of the entries. -/
def Takes (φ : Course) (f : Entry) : Prop :=
  ∃ e rest, φ.counted = none ∧ φ.held = e :: rest ∧ e.consume φ.time = .ok (φ.due, f)

theorem Takes.counted_eq {φ : Course} {f : Entry} (h : φ.Takes f) : φ.counted = none := by
  obtain ⟨e, rest, hNone, -⟩ := h
  exact hNone

/-- The action of the task whose turn it is, if there is one, was called. -/
def HasCalled (φ : Course) : Prop :=
  ∀ τ headway, φ.current = some (τ, headway) → headway = .called

/-- What the loop may ask next. Ids are restored only at the beginning of a run. -/
def Permits (setup : LoopSetup) (restoring : Prop) (φ : Course) : Request → Prop
  | .lastTaskId name => restoring ∧ ∃ e rest, φ.held = e :: rest ∧ e.name = name
  | .saveCursor f => (restoring ∧ φ.Restores f) ∨ φ.Takes f
  | .entry name => ∃ τ rest, φ.ready = τ :: rest ∧ τ.entryName = name ∧ τ.taskId.isSome = true ∧
      φ.HasCalled
  | .final r => ∃ τ id, τ.taskId = some id ∧
      ((φ.current = some (τ, .found) ∧ r.Opens τ.entryName id setup.settings.maxTaskResults) ∨
        (φ.current = some (τ, .called) ∧ r.Closes τ.entryName id setup.settings.maxTaskResults))
  | .call τ id => φ.current = some (τ, .opened) ∧ τ.taskId = some id
  | .spawn job => ∃ τ id, φ.current = some (τ, .called) ∧ τ.taskId = some id ∧
      job.program.Asks (FinalRequest.Closes τ.entryName id setup.settings.maxTaskResults)
  | .countOutcome _ => φ.HasCalled
  | _ => True

/-- A snapshot has no two entries of one name, and an entry is found under its own. -/
def Sensible : (r : Request) → r.Answer → Prop
  | .activeEntries, .ok entries => (entries.map Entry.name).Nodup
  | .entry name, .ok e => e.name = name
  | _, _ => True

def discipline (setup : LoopSetup) (restoring : Prop) : Discipline Request Request.Answer Course where
  permits := Permits setup restoring
  sensible := Sensible
  after := after

/-- The entries that the loop is at work on. -/
def names (φ : Course) : List String :=
  φ.held.map Entry.name ++ φ.counted.toList.map (·.1.name) ++ φ.ready.map Task.entryName ++
    φ.current.toList.map (·.1.entryName)

theorem mem_names_of_held {φ : Course} {e : Entry} (h : e ∈ φ.held) : e.name ∈ φ.names := by
  simp [names, List.mem_map_of_mem h]

theorem mem_names_of_ready {φ : Course} {τ : Task} (h : τ ∈ φ.ready) : τ.entryName ∈ φ.names := by
  simp [names, List.mem_map_of_mem h]

/-- The first of the entries is not among the others. -/
theorem name_ne_of_held {φ : Course} {e other : Entry} {rest : List Entry} (hNames : φ.names.Nodup)
    (hHeld : φ.held = e :: rest) (hOther : other ∈ rest) : other.name ≠ e.name := by
  simp only [names, hHeld, List.map_cons, List.cons_append, List.nodup_cons] at hNames
  exact fun hSame => hNames.1 (by simp [← hSame, List.mem_map_of_mem hOther])

/-- The first of the entries is at no other place either. -/
theorem name_ne_of_others {φ : Course} {e : Entry} {rest : List Entry} (hNames : φ.names.Nodup)
    (hHeld : φ.held = e :: rest) :
    (∀ τ ∈ φ.ready, τ.entryName ≠ e.name) ∧
      ∀ τ headway, φ.current = some (τ, headway) → τ.entryName ≠ e.name := by
  simp only [names, hHeld, List.map_cons, List.cons_append, List.nodup_cons] at hNames
  refine ⟨fun τ hτ hSame => hNames.1 ?_, fun τ headway hCurrent hSame => hNames.1 ?_⟩
  · simp [← hSame, List.mem_map_of_mem hτ]
  · simp [← hSame, hCurrent]

/-- The entry of the task whose turn it is is at no other place. -/
theorem name_ne_of_current {φ : Course} {τ : Task} {headway : Headway} (hNames : φ.names.Nodup)
    (hCurrent : φ.current = some (τ, headway)) :
    (∀ e ∈ φ.held, e.name ≠ τ.entryName) ∧ ∀ σ ∈ φ.ready, σ.entryName ≠ τ.entryName := by
  have hApart := (List.nodup_append.mp hNames).2.2
  refine ⟨fun e hHeld => hApart e.name ?_ τ.entryName ?_, fun σ hReady => hApart σ.entryName ?_ τ.entryName ?_⟩
  · simp [List.mem_map_of_mem hHeld]
  · simp [hCurrent]
  · simp [List.mem_map_of_mem hReady]
  · simp [hCurrent]

theorem entryName_of_due {φ : Course} {e : Entry} {rest : List Entry} {τ : Task}
    (hHeld : φ.held = e :: rest) (hDue : φ.due = some τ) : τ.entryName = e.name := by
  rw [due, hHeld, List.head?_cons, Option.bind_some] at hDue
  cases hConsume : e.consume φ.time with
  | error failure => simp [hConsume, Except.toOption] at hDue
  | ok outcome =>
      obtain ⟨task, f⟩ := outcome
      obtain rfl : task = some τ := by simpa [hConsume, Except.toOption] using hDue
      exact ((Entry.consumes_of_consume hConsume).takes τ rfl).entryName_eq

/-- What is due of an entry takes the id that its counter is at. -/
theorem handout_of_consumes {φ : Course} {e f : Entry} (hNone : φ.counted = none)
    (hConsumes : e.Consumes φ.time φ.due f) :
    φ.handout = φ.due.map fun _ => (e.name, e.nextTaskId) := by
  cases hDue : φ.due with
  | none => simp [handout, hNone, hDue]
  | some τ =>
      have hTaken := hConsumes.takes τ hDue
      simp [handout, hNone, hDue, hTaken.taskId_eq, hTaken.entryName_eq]

/-- The parts of the names, counted one by one. -/
private theorem count_names (φ : Course) (name : String) : φ.names.count name =
    (φ.held.map Entry.name).count name + (φ.counted.toList.map (·.1.name)).count name +
      (φ.ready.map Task.entryName).count name + (φ.current.toList.map (·.1.entryName)).count name := by
  simp only [names, List.count_append]

/-- Only a snapshot brings entries in. -/
theorem count_names_after {φ : Course} {r : Request} {a : r.Answer} (hOther : r ≠ .activeEntries)
    (name : String) : (φ.after r a).names.count name ≤ φ.names.count name := by
  obtain ⟨time, held, counted, ready, current⟩ := φ
  simp only [count_names]
  cases r with
  | activeEntries => exact absurd rfl hOther
  | lastTaskId asked =>
      cases a with
      | ok last =>
          cases held with
          | nil => simp [after]
          | cons e rest =>
              cases last with
              | none =>
                  simp [after, List.count_cons]
                  omega
              | some last => simp [after, List.count_cons]
      | error e => simp [after]
  | saveCursor f =>
      cases a with
      | ok =>
          cases counted with
          | some counted => simp [after]
          | none =>
              cases held with
              | nil => simp [after, due]
              | cons e rest =>
                  cases hDue : due ⟨time, e :: rest, none, ready, current⟩ with
                  | none => simp [after, hDue, List.count_cons]
                  | some τ =>
                      have hName : τ.entryName = e.name := entryName_of_due rfl hDue
                      simp [after, hDue, List.count_cons, hName]
                      omega
      | error e => simp [after]
  | publish upcoming =>
      simp [after, ((TaskQueue.perm_ofList ready).map Task.entryName).count_eq]
  | entry asked =>
      cases a with
      | ok e =>
          cases ready with
          | nil => simp [after]
          | cons τ rest =>
              simp [after, List.count_cons]
              omega
      | error e =>
          cases e with
          | entryNotFound => cases ready <;> simp [after, List.count_cons]
          | _ => simp [after]
  | final r =>
      cases r with
      | record result keep => cases a <;> cases current <;> simp [after]
      | notify url payload => simp [after]
  | call τ id => cases current <;> simp [after]
  | spawn job | countOutcome failed | stop => simp [after]
  | _ => simp [after]

theorem names_after_subset {φ : Course} {r : Request} {a : r.Answer} (hOther : r ≠ .activeEntries) :
    (φ.after r a).names ⊆ φ.names := fun name hName =>
  List.count_pos_iff.mp (Nat.lt_of_lt_of_le (List.count_pos_iff.mpr hName) (count_names_after hOther name))

/-- No entry comes in twice. -/
theorem names_after {φ : Course} {r : Request} {a : r.Answer} (hSense : Sensible r a)
    (h : φ.names.Nodup) : (φ.after r a).names.Nodup := by
  by_cases hSnapshot : r = .activeEntries
  · subst hSnapshot
    cases a with
    | ok entries => simpa [after, names] using (show (entries.map Entry.name).Nodup from hSense)
    | error e => simp [after, names]
  · rw [List.nodup_iff_count_le_one] at h ⊢
    exact fun name => Nat.le_trans (count_names_after hSnapshot name) (h name)

/-- The loop goes on to an entry only when it is done with another one, and a snapshot begins anew. -/
theorem held_after_subset {φ : Course} {r : Request} {a : r.Answer} (hOther : r ≠ .activeEntries) :
    (φ.after r a).held ⊆ φ.held := by
  cases r with
  | activeEntries => exact absurd rfl hOther
  | lastTaskId =>
      cases a with
      | ok => exact (List.tail_sublist _).subset
      | error => exact List.nil_subset _
  | saveCursor =>
      cases a with
      | ok =>
          rw [after]
          split
          · exact List.Subset.refl _
          · exact (List.tail_sublist _).subset
      | error => exact List.nil_subset _
  | entry =>
      cases a with
      | ok => exact List.Subset.refl _
      | error e => cases e <;> first | exact List.Subset.refl _ | exact List.nil_subset _
  | final r =>
      cases r with
      | record => cases a <;> first | exact List.Subset.refl _ | exact List.nil_subset _
      | notify => exact List.Subset.refl _
  | setIdle => exact List.nil_subset _
  | _ => exact List.Subset.refl _

/-- Tasks become ready only when a cursor is saved. -/
theorem ready_after_subset {φ : Course} {r : Request} {a : r.Answer} (hOther : ∀ f, r ≠ .saveCursor f) :
    (φ.after r a).ready ⊆ φ.ready := by
  cases r with
  | saveCursor f => exact absurd rfl (hOther f)
  | publish => exact fun τ hτ => TaskQueue.mem_ofList.mp hτ
  | activeEntries => cases a <;> exact List.nil_subset _
  | lastTaskId => cases a <;> first | exact List.Subset.refl _ | exact List.nil_subset _
  | entry =>
      cases a with
      | ok => exact (List.tail_sublist _).subset
      | error e => cases e <;> first | exact (List.tail_sublist _).subset | exact List.nil_subset _
  | final r =>
      cases r with
      | record => cases a <;> first | exact List.Subset.refl _ | exact List.nil_subset _
      | notify => exact List.Subset.refl _
  | stop | setIdle => exact List.nil_subset _
  | _ => exact List.Subset.refl _

/-- An id is counted only after it was asked for. -/
theorem counted_after {φ : Course} {r : Request} {a : r.Answer} (hOther : ∀ name, r ≠ .lastTaskId name)
    {pair : Entry × TaskId} (h : (φ.after r a).counted = some pair) : φ.counted = some pair := by
  cases r with
  | lastTaskId name => exact absurd rfl (hOther name)
  | activeEntries => cases a <;> cases h
  | saveCursor =>
      cases a with
      | ok =>
          rw [after] at h
          split at h
          · cases h
          · exact h
      | error => cases h
  | entry =>
      cases a with
      | ok => exact h
      | error e => cases e <;> first | exact h | cases h
  | final r =>
      cases r with
      | record => cases a <;> first | exact h | cases h
      | notify => exact h
  | setIdle => cases h
  | _ => exact h

theorem time_after {φ : Course} {r : Request} {a : r.Answer} (hOther : r ≠ .now) :
    (φ.after r a).time = φ.time := by
  cases r with
  | now => exact absurd rfl hOther
  | activeEntries | lastTaskId => cases a <;> rfl
  | saveCursor =>
      cases a with
      | ok =>
          rw [after]
          split <;> rfl
      | error => rfl
  | entry =>
      cases a with
      | ok => rfl
      | error e => cases e <;> rfl
  | final r =>
      cases r with
      | record => cases a <;> rfl
      | notify => rfl
  | _ => rfl

/-- A task whose action is yet to be called was ready, or had its turn and was not called either. -/
theorem current_after {φ : Course} {r : Request} {a : r.Answer} {τ : Task} {headway : Headway}
    (h : (φ.after r a).current = some (τ, headway)) (hOpen : headway ≠ .called) :
    τ ∈ φ.ready ∨ ∃ before, before ≠ .called ∧ φ.current = some (τ, before) := by
  have hSame (hCurrent : φ.current = some (τ, headway)) :
      τ ∈ φ.ready ∨ ∃ before, before ≠ .called ∧ φ.current = some (τ, before) :=
    .inr ⟨headway, hOpen, hCurrent⟩
  cases r with
  | entry =>
      cases a with
      | ok =>
          obtain ⟨σ, hHead, hPair⟩ := Option.map_eq_some_iff.mp h
          obtain ⟨rfl, -⟩ := Prod.mk.inj hPair
          exact .inl (List.mem_of_mem_head? hHead)
      | error e => cases e <;> first | exact hSame h | cases h
  | final r =>
      cases r with
      | record =>
          cases a with
          | ok =>
              obtain ⟨⟨σ, before⟩, hBefore, hPair⟩ := Option.map_eq_some_iff.mp h
              obtain ⟨rfl, rfl⟩ := Prod.mk.inj hPair
              exact .inr ⟨before, fun hCalled => hOpen (by rw [hCalled, Headway.recorded]; nofun), hBefore⟩
          | error => cases h
      | notify => exact hSame h
  | call =>
      obtain ⟨⟨σ, before⟩, -, hPair⟩ := Option.map_eq_some_iff.mp h
      exact absurd (Prod.mk.inj hPair).2.symm hOpen
  | saveCursor =>
      cases a with
      | ok =>
          rw [after] at h
          split at h <;> exact hSame h
      | error => cases h
  | activeEntries | lastTaskId => cases a <;> first | exact hSame h | cases h
  | spawn | countOutcome | setIdle => cases h
  | _ => exact hSame h

/-- It is a task's turn only after its entry was looked up. -/
theorem isSome_current_after {φ : Course} {r : Request} {a : r.Answer} (hOther : ∀ name, r ≠ .entry name)
    (h : (φ.after r a).current.isSome = true) : φ.current.isSome = true := by
  cases r with
  | entry name => exact absurd rfl (hOther name)
  | final r =>
      cases r with
      | record =>
          cases a with
          | ok => simpa [after] using h
          | error => cases h
      | notify => exact h
  | call => simpa [after] using h
  | saveCursor =>
      cases a with
      | ok =>
          rw [after] at h
          split at h <;> exact h
      | error => cases h
  | activeEntries | lastTaskId => cases a <;> first | exact h | cases h
  | spawn | countOutcome | setIdle => cases h
  | _ => exact h

/-- No task waits for its turn, and none has it. -/
def Rests (φ : Course) : Prop :=
  φ.ready = [] ∧ φ.current = none

/-! ### Walking through a pass -/

variable {setup : LoopSetup} {restoring : Prop} {φ : Course} {α β : Type}

/-- A part of the loop asks what is permitted, and ends as `post` says unless it fails. -/
def Keeps (setup : LoopSetup) (restoring : Prop) (part : Engine α) (post : α → Course → Prop)
    (φ : Course) : Prop :=
  Program.Obeys (discipline setup restoring) (fun result ψ => ∀ x, result = .ok x → post x ψ)
    (ExceptT.run part) φ

theorem keeps_pure {x : α} {post : α → Course → Prop} (h : post x φ) :
    Keeps setup restoring (pure x) post φ := by
  rintro y ⟨⟩
  exact h

theorem keeps_error {e : Failure} {post : α → Course → Prop} :
    Keeps setup restoring (Engine.ofExcept (.error e)) post φ :=
  fun _ => nofun

theorem Keeps.bind {part : Engine α} {f : α → Engine β} {post : α → Course → Prop}
    {last : β → Course → Prop} (h : Keeps setup restoring part post φ)
    (hNext : ∀ x ψ, post x ψ → Keeps setup restoring (f x) last ψ) :
    Keeps setup restoring (part >>= f) last φ := by
  refine Program.Obeys.bind h fun result ψ hPost => ?_
  cases result with
  | ok x => exact hNext x ψ (hPost x rfl)
  | error e => exact keeps_error

theorem keeps_ask {r : Request} {f : r.Answer → Engine β} {post : β → Course → Prop}
    (hPermits : φ.Permits setup restoring r)
    (hNext : ∀ a, Sensible r a → Keeps setup restoring (f a) post (φ.after r a)) :
    Keeps setup restoring (Engine.ask r >>= f) post φ :=
  ⟨hPermits, hNext⟩

theorem keeps_check {answer : Except Error α} {f : α → Engine β} {post : β → Course → Prop}
    (hNext : ∀ x, answer = .ok x → Keeps setup restoring (f x) post φ) :
    Keeps setup restoring (Engine.check answer >>= f) post φ := by
  cases answer with
  | ok x => exact hNext x rfl
  | error e => exact keeps_error

/-- A request whose answer may be an error. -/
theorem keeps_try {r : Request} {read : r.Answer → Except Error α} {f : α → Engine β}
    {post : β → Course → Prop} (hPermits : φ.Permits setup restoring r)
    (hNext : ∀ a x, Sensible r a → read a = .ok x → Keeps setup restoring (f x) post (φ.after r a)) :
    Keeps setup restoring ((Engine.ask r >>= fun a => Engine.check (read a)) >>= f) post φ := by
  rw [bind_assoc]
  exact keeps_ask hPermits fun a hSense => keeps_check fun x hOk => hNext a x hSense hOk

/-- Saving what a look at the clock left of an entry: its task is ready then. -/
theorem keeps_saveCursor {e f : Entry} {task : Option Task} {time : Tick} {rest : List Entry}
    {ready : List Task} {g : Unit → Engine β} {post : β → Course → Prop}
    (hConsume : e.consume time = .ok (task, f))
    (hNext : Keeps setup restoring (g ()) post { time, held := rest, ready := ready ++ task.toList }) :
    Keeps setup restoring (Engine.saveCursor f >>= g) post { time, held := e :: rest, ready } := by
  have hDue : due { time, held := e :: rest, ready } = task := by
    simp [due, hConsume, Except.toOption]
  refine keeps_try (.inr ⟨e, rest, rfl, rfl, hDue ▸ hConsume⟩) fun a _ _ hOk => ?_
  obtain rfl : a = .ok () := hOk
  simpa [after, hDue] using hNext

/-- Taking ticks off entries turns what is held into tasks that are ready. -/
theorem keeps_collect {entries : List Entry} {ready : List Task} {time : Tick} :
    Keeps setup restoring (Pass.collect entries)
      (fun (tasks, _) ψ => ∃ time, ψ = { time, ready := ready ++ tasks })
      { time, held := entries, ready } := by
  induction entries generalizing ready time with
  | nil => exact keeps_pure ⟨time, by simp⟩
  | cons e rest ih =>
      unfold Pass.collect
      refine keeps_ask trivial fun now _ => ?_
      cases hConsume : e.consume now with
      | error failure => exact keeps_error
      | ok outcome =>
          obtain ⟨task, f⟩ := outcome
          refine keeps_saveCursor hConsume (ih.bind fun outcome ψ hPost => ?_)
          obtain ⟨time, rfl⟩ := hPost
          exact keeps_pure ⟨time, by simp⟩

/-- The course of a task whose action was called. -/
def finalising (time : Tick) (ready : List Task) (τ : Task) : Course :=
  { time, ready, current := some (τ, .called) }

/-- A finalisation is all about the task whose turn it is. -/
theorem keeps_finalise {τ : Task} {id : TaskId} {job : Finalisation} (time : Tick) (ready : List Task)
    (hId : τ.taskId = some id) (hName : job.result.entryName = τ.entryName)
    (hResult : job.result.taskId = id) (hStatus : job.result.status ≠ .inProgress)
    (hKeep : job.keep = setup.settings.maxTaskResults) :
    Keeps setup restoring (Engine.finalise job) (fun _ ψ => ψ = finalising time ready τ)
      (finalising time ready τ) := by
  have hPermits {r : FinalRequest} (hCloses : r.Closes τ.entryName id setup.settings.maxTaskResults) :
      (finalising time ready τ).Permits setup restoring (.final r) := ⟨τ, id, hId, .inr ⟨rfl, hCloses⟩⟩
  refine ⟨hPermits ⟨hName, hResult, hStatus, hKeep⟩, fun stored _ => ?_⟩
  cases stored with
  | error e => exact fun _ => nofun
  | ok =>
      dsimp only
      cases hReceiver : job.receiver with
      | none => exact fun _ _ => rfl
      | some url =>
          refine ⟨hPermits trivial, fun delivered _ => ?_⟩
          cases delivered with
          | ok => exact fun _ _ => rfl
          | error e =>
              dsimp only
              by_cases hSuccess : job.result.status = .success
              · rw [if_pos hSuccess]
                refine ⟨hPermits ⟨hName, hResult, nofun, hKeep⟩, fun rewritten _ => ?_⟩
                cases rewritten with
                | ok => exact fun _ _ => rfl
                | error e => exact fun _ => nofun
              · rw [if_neg hSuccess]
                exact fun _ _ => rfl

/-- Running one task. A task whose entry is gone is left out. -/
theorem keeps_runTask {time : Tick} {rest : List Task} {τ : Task} :
    Keeps setup restoring (Pass.runTask setup τ)
      (fun status ψ => ∃ current, ψ = { time, ready := rest, current } ∧ ψ.HasCalled ∧
        (status = none → current = none))
      { time, ready := τ :: rest } := by
  unfold Pass.runTask
  split
  · exact keeps_error
  · rename_i id hId
    refine keeps_ask ⟨τ, rest, rfl, rfl, hId ▸ rfl, nofun⟩ fun answer hSense => ?_
    cases answer with
    | error e =>
        cases e with
        | entryNotFound name => exact keeps_pure ⟨none, rfl, nofun, fun _ => rfl⟩
        | _ => exact keeps_error
    | ok entry =>
        have hName : entry.name = τ.entryName := hSense
        dsimp only
        rw [hName]
        refine keeps_ask trivial fun started _ => ?_
        refine keeps_try ⟨τ, id, hId, .inl ⟨rfl, started, rfl⟩⟩ fun a _ _ hOk => ?_
        obtain rfl : a = .ok () := hOk
        refine keeps_ask ⟨rfl, hId⟩ fun outcome _ => ?_
        refine keeps_ask trivial fun finished _ => ?_
        refine keeps_ask trivial fun _ _ => ?_
        -- the outcome is known, so no result is in progress any more
        have hStatus : (outcome.verdict τ.action).1 ≠ .inProgress := by cases outcome <;> nofun
        split
        · refine keeps_ask ⟨τ, id, rfl, hId, ?_⟩ fun _ _ => ?_
          · exact Finalisation.asks_closes _ hStatus
          · exact keeps_pure ⟨none, rfl, nofun, fun _ => rfl⟩
        · refine Keeps.bind (keeps_finalise time rest hId rfl rfl hStatus rfl) fun _ ψ hPost => ?_
          refine keeps_pure ⟨_, hPost, ?_, nofun⟩
          rw [hPost]
          rintro σ headway ⟨⟩
          rfl

/-- Running tasks in their order, until none is left. -/
theorem keeps_runTasks {time : Tick} {tasks : List Task} :
    Keeps setup restoring (Pass.runTasks setup tasks) (fun _ => Rests) { time, ready := tasks } := by
  induction tasks with
  | nil => exact keeps_pure ⟨rfl, rfl⟩
  | cons τ rest ih =>
      unfold Pass.runTasks
      refine keeps_runTask.bind fun status ψ hPost => ?_
      obtain ⟨current, rfl, hCalled, hNone⟩ := hPost
      cases status with
      | none =>
          obtain rfl := hNone rfl
          exact ih
      | some status =>
          refine keeps_ask hCalled fun failures _ => ?_
          split
          · exact ⟨trivial, fun _ _ _ _ => ⟨rfl, rfl⟩⟩
          · exact ih

theorem keeps_passOver {time : Tick} {entries : List Entry} :
    Keeps setup restoring (Pass.passOver setup entries) (fun _ => Rests) { time, held := entries } := by
  unfold Pass.passOver
  split
  · exact keeps_ask trivial fun _ _ => ⟨trivial, fun _ _ _ _ => ⟨rfl, rfl⟩⟩
  · refine keeps_ask trivial fun _ _ => ?_
    refine keeps_collect.bind fun outcome ψ hPost => ?_
    obtain ⟨time, rfl⟩ := hPost
    refine keeps_ask trivial fun now _ => ?_
    exact keeps_ask trivial fun _ _ => keeps_runTasks

/-- A snapshot of active entries: all of them are held. -/
theorem keeps_activeEntries {f : List Entry → Engine β} {post : β → Course → Prop}
    (hNext : ∀ time entries, Keeps setup restoring (f entries) post { time, held := entries }) :
    Keeps setup restoring (Engine.activeEntries >>= f) post φ := by
  refine keeps_try trivial fun a entries _ hOk => ?_
  obtain rfl : a = .ok entries := hOk
  exact hNext _ entries

theorem keeps_pass : Keeps setup restoring (Pass.pass setup) (fun _ => Rests) φ :=
  keeps_activeEntries fun _ _ => keeps_passOver

theorem keeps_runOnce : Keeps setup restoring (Pass.runOnce setup) (fun _ _ => True) φ :=
  keeps_pass.bind fun _ _ _ => ⟨trivial, fun _ _ _ _ => trivial⟩

/-! ### Walking through a run -/

theorem keeps_restoreTaskIds {time : Tick} {entries : List Entry} {counted : Option (Entry × TaskId)}
    (hRestoring : restoring) : Keeps setup restoring (Run.restoreTaskIds entries) (fun _ => Rests)
      { time, held := entries, counted } := by
  induction entries generalizing counted with
  | nil => exact keeps_pure ⟨rfl, rfl⟩
  | cons e rest ih =>
      unfold Run.restoreTaskIds
      refine keeps_try ⟨hRestoring, e, rest, rfl, rfl⟩ fun a last _ hOk => ?_
      obtain rfl : a = .ok last := hOk
      cases last with
      | none => exact ih
      | some last =>
          dsimp only
          split
          · exact keeps_error
          · rename_i next hNext
            split
            · refine keeps_try (.inl ⟨hRestoring, e, last, next, rfl, hNext, rfl⟩) fun a _ _ hOk => ?_
              obtain rfl : a = .ok () := hOk
              exact ih
            · exact ih

theorem keeps_step {phase : Run.Phase} :
    Keeps setup restoring (Run.step setup phase) (fun _ _ => True) φ := by
  cases phase with
  | pass =>
      refine keeps_ask trivial fun since _ => keeps_pass.bind fun _ _ _ => ?_
      refine keeps_ask trivial fun stopping _ => ?_
      split <;> exact keeps_pure trivial
  | wait since =>
      refine keeps_ask trivial fun now _ => keeps_ask trivial fun stopping _ => ?_
      split
      · exact keeps_pure trivial
      split
      · rw [bind_assoc]
        refine keeps_ask trivial fun slept _ => ?_
        cases slept with
        | ok => exact keeps_pure trivial
        | error failure => exact keeps_error
      · exact keeps_pure trivial

theorem keeps_phases {fuel : Nat} {phase : Run.Phase} :
    Keeps setup restoring (Run.phases setup fuel phase) (fun _ _ => True) φ := by
  induction fuel generalizing phase φ with
  | zero => exact keeps_pure trivial
  | succ fuel ih =>
      refine keeps_step.bind fun next _ _ => ?_
      cases next with
      | none => exact keeps_pure trivial
      | some phase => exact ih

theorem keeps_untilStopped {fuel : Nat} (hRestoring : restoring) :
    Keeps setup restoring (Run.untilStopped setup fuel) (fun _ _ => True) φ :=
  keeps_activeEntries fun _ _ => (keeps_restoreTaskIds hRestoring).bind fun _ _ _ => keeps_phases

theorem keeps_wrapUp {ended : Except Failure Bool} :
    Keeps setup restoring (Run.wrapUp setup ended) (fun _ _ => True) φ := by
  unfold Run.wrapUp
  split
  · exact keeps_ask trivial fun _ _ => keeps_ask trivial fun _ _ => keeps_pure trivial
  · exact keeps_error
  · refine keeps_ask trivial fun _ _ => keeps_ask trivial fun _ _ => ?_
    dsimp only
    split
    · exact keeps_ask trivial fun _ _ => keeps_error
    · exact keeps_error

theorem keeps_run {fuel : Nat} (hRestoring : restoring) :
    Keeps setup restoring (Run.run setup fuel) (fun _ _ => True) φ := by
  have hEnded {ψ : Course} : Keeps setup restoring
      (ExceptT.lift (ExceptT.run (Run.untilStopped setup fuel)) >>= Run.wrapUp setup)
      (fun _ _ => True) ψ := by
    have hLift : Keeps setup restoring (ExceptT.lift (ExceptT.run (Run.untilStopped setup fuel)))
        (fun _ _ => True) ψ :=
      Program.Obeys.bind (keeps_untilStopped hRestoring) fun _ _ _ => keeps_pure trivial
    exact hLift.bind fun _ _ _ => keeps_wrapUp
  unfold Run.run
  dsimp only
  split
  · exact keeps_ask trivial fun _ _ => hEnded
  · exact hEnded

end Course

/-- What a scheduler is started for. -/
inductive Duty where
  /-- A run of the loop, broken off after a number of phases if it has not ended by then. -/
  | run (phases : Nat)
  /-- Passes one after the other, whether or not the one before has failed. -/
  | passes (count : Nat)

namespace Duty

def series (setup : LoopSetup) : Nat → Program Request Request.Answer Unit
  | 0 => .done ()
  | count + 1 => (ExceptT.run (Pass.runOnce setup)).bind fun _ => series setup count

def program (setup : LoopSetup) : Duty → Program Request Request.Answer Unit
  | run phases => (ExceptT.run (Run.run setup phases)).bind fun _ => .done ()
  | passes count => series setup count

/-- Whether ids are restored at the beginning. -/
def Restores : Duty → Prop
  | run _ => True
  | passes _ => False

/-- A scheduler keeps to its course, wherever the one before it has left off. -/
theorem obeys_program {setup : LoopSetup} (duty : Duty) {φ : Course} :
    Program.Obeys (Course.discipline setup duty.Restores) (fun _ _ => True) (duty.program setup) φ := by
  cases duty with
  | run phases => exact .bind (Course.keeps_run trivial) fun _ _ _ => trivial
  | passes count =>
      change Program.Obeys _ _ (series setup count) φ
      induction count generalizing φ with
      | zero => exact trivial
      | succ count ih => exact .bind Course.keeps_runOnce fun _ _ _ => ih

end Duty

end TickScheduler
