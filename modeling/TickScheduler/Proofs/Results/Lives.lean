import TickScheduler.Proofs.Engine.Parts
import TickScheduler.Proofs.Results.Bustle
/-!
What becomes of the results of a pass whose reports are made at once. Apart from looking at clock and
entries, a pass is one task after the other; each is opened, called, closed, and reported if someone is to
be told, and what is stored of it is the latest of these.
-/
namespace TickScheduler

/-- The longest beginning of a text that has no more than so many characters. -/
structure IsLongestBeginning (length : Nat) (text part : String) : Prop where
  begins : part.toList <+: text.toList
  length_le : part.length ≤ length
  longest : ∀ other : String, other.toList <+: text.toList → other.length ≤ length →
    other.length ≤ part.length

theorem Pass.truncate_longest (text : String) (length : Nat) :
    IsLongestBeginning length text (Pass.truncate text length) := by
  have hList : (Pass.truncate text length).toList = text.toList.take length := String.toList_ofList
  have hLength (other : String) : other.length = other.toList.length := (String.length_toList).symm
  refine ⟨hList ▸ List.take_prefix _ _, ?_, fun other hOther hShort => ?_⟩
  · rw [hLength, hList, List.length_take]
    exact Nat.min_le_left _ _
  · rw [hLength] at hShort ⊢
    rw [hLength, hList, List.length_take]
    exact Nat.le_min.mpr ⟨hShort, hOther.length_le⟩

/-- A request about a task: its entry is looked up, its action is called, or its result is written or
reported, now or later on. -/
def Request.IsAboutTask : Request → Bool
  | .entry _ | .final _ | .call _ _ | .spawn _ => true
  | _ => false

/-- A request that a pass asks outside of the turns of its tasks. -/
def Request.OffTurn : Request → Prop
  | .now | .activeEntries | .saveCursor _ | .beginPass | .publish _ | .setIdle => True
  | _ => False

theorem Request.OffTurn.isAboutTask_eq {r : Request} (h : r.OffTurn) : r.IsAboutTask = false := by
  cases r <;> first | rfl | exact h.elim

/-- An exchange about a task whose entry is there. -/
def Exchange.isAboutTask : Exchange Request.Answer → Bool
  | ⟨.entry _, .error _⟩ => false
  | ⟨r, _⟩ => r.IsAboutTask

/-- The result that is written for a task. -/
def Exchange.write? (key : ResultKey) : Exchange Request.Answer → Option TaskResult
  | ⟨.final (.record result _), _⟩ => if ⟨result.entryName, result.taskId⟩ = key then some result else none
  | _ => none

def Exchange.report? : Exchange Request.Answer → Option (String × Payload)
  | ⟨.final (.notify url payload), _⟩ => some (url, payload)
  | _ => none

def Exchange.call? : Exchange Request.Answer → Option Task
  | ⟨.call task _, _⟩ => some task
  | _ => none

theorem Exchange.write?_of_other (key : ResultKey) {x : Exchange Request.Answer}
    (h : x.isAboutTask = false) : write? key x = none := by
  obtain ⟨r, a⟩ := x
  cases r <;> first | rfl | cases h

theorem Exchange.report?_of_other {x : Exchange Request.Answer} (h : x.isAboutTask = false) :
    report? x = none := by
  obtain ⟨r, a⟩ := x
  cases r <;> first | rfl | cases h

theorem Exchange.call?_of_other {x : Exchange Request.Answer} (h : x.isAboutTask = false) :
    call? x = none := by
  obtain ⟨r, a⟩ := x
  cases r <;> first | rfl | cases h

namespace Finalisation

/-- Whether a success is reported in vain. -/
def isUndelivered (f : Finalisation) (delivery : Except Error Unit) : Bool :=
  f.receiver.isSome && delivery.toOption.isNone && f.result.status == .success

/-- All that is asked for, if no result is refused and a report ends in this way. -/
def exchanges (f : Finalisation) (delivery : Except Error Unit) : List (Exchange Request.Answer) :=
  [⟨.final (.record f.result f.keep), .ok ()⟩] ++
    f.receiver.toList.map (fun url => ⟨.final (.notify url (.ofResult f.result f.baseUrl)), delivery⟩) ++
      if f.isUndelivered delivery then [⟨.final (.record f.undelivered f.keep), .ok ()⟩] else []

theorem filter_exchanges (f : Finalisation) (delivery : Except Error Unit) :
    (f.exchanges delivery).filter Exchange.isAboutTask = f.exchanges delivery := by
  refine List.filter_eq_self.mpr fun x hx => ?_
  simp only [exchanges, List.mem_append, List.mem_singleton, List.mem_map] at hx
  rcases hx with (rfl | ⟨url, -, rfl⟩) | hx
  · rfl
  · rfl
  · split at hx
    · obtain rfl := List.mem_singleton.mp hx
      rfl
    · cases hx

theorem filterMap_write (f : Finalisation) (delivery : Except Error Unit) (key : ResultKey) :
    (f.exchanges delivery).filterMap (Exchange.write? key) =
      if ⟨f.result.entryName, f.result.taskId⟩ = key then
        f.result :: if f.isUndelivered delivery then [f.undelivered] else []
      else [] := by
  have hReports : (f.receiver.toList.map fun url =>
      (⟨.final (.notify url (.ofResult f.result f.baseUrl)), delivery⟩ :
        Exchange Request.Answer)).filterMap (Exchange.write? key) = [] := by
    rw [List.filterMap_map]
    exact List.filterMap_eq_nil_iff.mpr fun _ _ => rfl
  rw [exchanges, List.filterMap_append, List.filterMap_append, hReports]
  by_cases hKey : (⟨f.result.entryName, f.result.taskId⟩ : ResultKey) = key <;>
    cases f.isUndelivered delivery <;> simp [Exchange.write?, undelivered, hKey]

theorem filterMap_report (f : Finalisation) (delivery : Except Error Unit) :
    (f.exchanges delivery).filterMap Exchange.report? =
      f.receiver.toList.map fun url => (url, .ofResult f.result f.baseUrl) := by
  rw [exchanges, List.filterMap_append, List.filterMap_append, List.filterMap_map]
  cases f.isUndelivered delivery <;> cases f.receiver <;> rfl

theorem filterMap_call (f : Finalisation) (delivery : Except Error Unit) :
    (f.exchanges delivery).filterMap Exchange.call? = [] := by
  rw [exchanges, List.filterMap_append, List.filterMap_append, List.filterMap_map]
  cases f.isUndelivered delivery <;> cases f.receiver <;> rfl

end Finalisation

/-- What the execution of one task depends on. -/
structure Life where
  task : Task
  id : TaskId
  /-- The entry as it was read before the action was called. -/
  entry : Entry
  started : Timestamp
  outcome : Outcome
  finished : Timestamp
  /-- How a report of the result would end. -/
  delivery : Except Error Unit

namespace Life

variable (setup : LoopSetup) (l : Life)

def key : ResultKey :=
  ⟨l.entry.name, l.id⟩

def opening : TaskResult :=
  .inProgress l.entry.name l.id l.started

/-- What the action left to say: what it returned, or the text of its error. -/
def text : String :=
  (l.outcome.verdict l.task.action).2

def closing : TaskResult :=
  l.opening.finish l.finished (l.outcome.verdict l.task.action).1
    (Pass.truncate l.text setup.settings.maxDetailLen)

/-- Whom to tell, if anyone. -/
def receiver : Option String :=
  if setup.hasNotifier then l.entry.callbackUrl else none

def payload : Payload :=
  .ofResult (l.closing setup) setup.callback.resultBaseUrl

def job : Finalisation where
  result := l.closing setup
  keep := setup.settings.maxTaskResults
  receiver := l.receiver setup
  baseUrl := setup.callback.resultBaseUrl

/-- What is written of the result, one after the other. -/
def writes : List TaskResult :=
  [l.opening, l.closing setup] ++
    if (l.job setup).isUndelivered l.delivery then
      [{ l.closing setup with status := .notificationFailed }]
    else []

def reports : List (String × Payload) :=
  (l.receiver setup).toList.map fun url => (url, l.payload setup)

/-- All that the loop does about the task. -/
def exchanges : List (Exchange Request.Answer) :=
  [⟨.entry l.task.entryName, .ok l.entry⟩, ⟨.final (.record l.opening setup.settings.maxTaskResults), .ok ()⟩,
      ⟨.call l.task l.id, l.outcome⟩] ++
    (l.job setup).exchanges l.delivery

/-- All that is said in the turn of the task. What is to be reported is reported at once, or later on. -/
def turn : List (Exchange Request.Answer) :=
  [⟨.entry l.task.entryName, .ok l.entry⟩, ⟨.timestamp, l.started⟩,
      ⟨.final (.record l.opening setup.settings.maxTaskResults), .ok ()⟩, ⟨.call l.task l.id, l.outcome⟩,
      ⟨.timestamp, l.finished⟩, ⟨.pause, ()⟩] ++
    if setup.callback.asynchronous then [⟨.spawn (l.job setup), ()⟩] else (l.job setup).exchanges l.delivery

end Life

/-- No result was refused. -/
def Exchange.Wrote : Exchange Request.Answer → Prop
  | ⟨.final (.record _ _), a⟩ => a = .ok ()
  | _ => True

namespace Pass

variable {setup : LoopSetup} {log : List (Exchange Request.Answer)}

/-- What a finalisation asks for, if no result is refused. -/
theorem speaks_finalise {job : Finalisation} {result : Except Failure Unit}
    (h : (ExceptT.run (Engine.finalise job)).Speaks log (.done result))
    (hWrote : ∀ x ∈ log, Exchange.Wrote x) :
    result = .ok () ∧ ∃ delivery, log = job.exchanges delivery := by
  obtain ⟨recorded, rest, rfl, hRecorded⟩ := Program.speaks_ask_iff.mp h
  obtain rfl : recorded = .ok () := hWrote _ List.mem_cons_self
  cases hReceiver : job.receiver with
  | none =>
      simp only [hReceiver, id] at hRecorded
      obtain ⟨rfl, hDone⟩ := Program.speaks_done_iff.mp hRecorded
      cases hDone
      exact ⟨rfl, .ok (), by simp [Finalisation.exchanges, Finalisation.isUndelivered, hReceiver]⟩
  | some url =>
      simp only [hReceiver, id] at hRecorded
      obtain ⟨delivery, rest, rfl, hNotified⟩ := Program.speaks_ask_iff.mp hRecorded
      cases delivery with
      | ok =>
          obtain ⟨rfl, hDone⟩ := Program.speaks_done_iff.mp hNotified
          cases hDone
          exact ⟨rfl, .ok (), by
            simp [Finalisation.exchanges, Finalisation.isUndelivered, hReceiver, Except.toOption]⟩
      | error e =>
          simp only [id] at hNotified
          by_cases hSuccess : job.result.status = .success
          · rw [if_pos hSuccess] at hNotified
            obtain ⟨rewritten, rest, rfl, hRewritten⟩ := Program.speaks_ask_iff.mp hNotified
            have hOk : rewritten = .ok () := hWrote ⟨.final (.record job.undelivered job.keep), rewritten⟩ (by simp)
            subst hOk
            obtain ⟨rfl, hDone⟩ := Program.speaks_done_iff.mp hRewritten
            cases hDone
            exact ⟨rfl, .error e, by
              simp [Finalisation.exchanges, Finalisation.isUndelivered, hReceiver, Except.toOption, hSuccess]⟩
          · rw [if_neg hSuccess] at hNotified
            obtain ⟨rfl, hDone⟩ := Program.speaks_done_iff.mp hNotified
            cases hDone
            exact ⟨rfl, .error e, by
              simp [Finalisation.exchanges, Finalisation.isUndelivered, hReceiver, hSuccess]⟩

/-- The turn of a task is over at once, if its entry is not there or cannot be read. Otherwise the task lives a
whole life, if no result is refused. -/
theorem speaks_turn {τ : Task} {id : TaskId} (hId : τ.taskId = some id)
    {result : Except Failure (Option TaskStatus)} (h : (ExceptT.run (runTask setup τ)).Speaks log (.done result))
    (hWrote : ∀ x ∈ log, Exchange.Wrote x) :
    (∃ name, log = [⟨.entry τ.entryName, .error (.entryNotFound name)⟩] ∧ result = .ok none) ∨
      (∃ e failure, (∀ name, e ≠ .entryNotFound name) ∧ log = [⟨.entry τ.entryName, .error e⟩] ∧
        result = .error failure) ∨
      ∃ l : Life, l.task = τ ∧ l.id = id ∧ log = l.turn setup ∧ result = .ok (some (l.closing setup).status) := by
  unfold runTask at h
  rw [hId] at h
  obtain ⟨answer, log, rfl, hFound⟩ := Engine.speaks_ask_iff.mp h
  clear h
  cases answer with
  | error e =>
      cases e with
      | entryNotFound name =>
          obtain ⟨rfl, hDone⟩ := Program.speaks_done_iff.mp hFound
          cases hDone
          exact .inl ⟨name, rfl, rfl⟩
      | _ =>
          obtain ⟨rfl, hDone⟩ := Program.speaks_done_iff.mp hFound
          cases hDone
          exact .inr (.inl ⟨_, _, fun _ => Error.noConfusion, rfl, rfl⟩)
  | ok entry =>
      refine .inr (.inr ?_)
      obtain ⟨started, log, rfl, hStarted⟩ := Engine.speaks_ask_iff.mp hFound
      obtain ⟨recorded, log, rfl, hOpened⟩ := Engine.speaks_ask_iff.mp hStarted
      have hOk : recorded = .ok () :=
        hWrote ⟨.final (.record (.inProgress entry.name id started) _), recorded⟩ (by simp)
      subst hOk
      obtain ⟨outcome, log, rfl, hCalled⟩ := Engine.speaks_ask_iff.mp hOpened
      obtain ⟨finished, log, rfl, hFinished⟩ := Engine.speaks_ask_iff.mp hCalled
      obtain ⟨paused, log, rfl, hPaused⟩ := Engine.speaks_ask_iff.mp hFinished
      let life (delivery : Except Error Unit) : Life := ⟨τ, id, entry, started, outcome, finished, delivery⟩
      by_cases hAsync : setup.callback.asynchronous = true
      · rw [if_pos hAsync] at hPaused
        obtain ⟨spawned, log, rfl, hSpawned⟩ := Engine.speaks_ask_iff.mp hPaused
        obtain ⟨rfl, hDone⟩ := Program.speaks_done_iff.mp hSpawned
        cases hDone
        refine ⟨life (.ok ()), rfl, rfl, ?_, rfl⟩
        rw [Life.turn, if_pos hAsync]
        rfl
      · rw [if_neg hAsync] at hPaused
        obtain ⟨ended, first, rest, rfl, hFinal, hRest⟩ := Engine.speaks_bind hPaused
        change (ExceptT.run (Engine.finalise ((life (.ok ())).job setup))).Speaks first (.done ended) at hFinal
        obtain ⟨rfl, delivery, rfl⟩ := speaks_finalise hFinal fun x hx => hWrote x (by simp [hx])
        obtain ⟨_, -, hDone⟩ | ⟨_, hError, -⟩ := hRest
        · obtain ⟨rfl, hDone⟩ := Program.speaks_done_iff.mp hDone
          cases hDone
          refine ⟨life delivery, rfl, rfl, ?_, rfl⟩
          rw [Life.turn, if_neg hAsync, List.append_nil]
          rfl
        · cases hError

/-- A task whose entry is there lives a whole life, if no result is refused. -/
theorem speaks_runTask (hSync : setup.callback.asynchronous = false) {τ : Task} {id : TaskId}
    (hId : τ.taskId = some id) {result : Except Failure (Option TaskStatus)}
    (h : (ExceptT.run (runTask setup τ)).Speaks log (.done result))
    (hWrote : ∀ x ∈ log, Exchange.Wrote x) :
    (log.filter Exchange.isAboutTask = [] ∧ ∀ status, result ≠ .ok (some status)) ∨
      ∃ l : Life, l.task = τ ∧ l.id = id ∧ log.filter Exchange.isAboutTask = l.exchanges setup ∧
        result = .ok (some (l.closing setup).status) := by
  rcases speaks_turn hId h hWrote with ⟨_, rfl, rfl⟩ | ⟨_, _, -, rfl, rfl⟩ | ⟨l, hTask, hSame, rfl, rfl⟩
  · exact .inl ⟨rfl, nofun⟩
  · exact .inl ⟨rfl, nofun⟩
  · refine .inr ⟨l, hTask, hSame, ?_, rfl⟩
    rw [Life.turn, if_neg (by simp [hSync]), List.filter_append, Finalisation.filter_exchanges]
    rfl

theorem filter_eq_nil (h : ∀ x ∈ log, x.1.IsAboutTask = false) :
    log.filter Exchange.isAboutTask = [] := by
  refine List.filter_eq_nil_iff.mpr fun x hx => ?_
  obtain ⟨r, a⟩ := x
  have hOther : r.IsAboutTask = false := h _ hx
  cases r <;> first | exact Bool.false_ne_true | cases hOther

/-- Whatever is executed lives a whole life, one task after the other. -/
theorem speaks_runTasks (hSync : setup.callback.asynchronous = false) {tasks : List Task}
    (hIds : ∀ τ ∈ tasks, τ.taskId.isSome = true) {result : Except Failure Unit}
    (h : (ExceptT.run (runTasks setup tasks)).Speaks log (.done result))
    (hWrote : ∀ x ∈ log, Exchange.Wrote x) :
    ∃ lives : List Life, log.filter Exchange.isAboutTask = lives.flatMap (·.exchanges setup) ∧
      (lives.map Life.task).Sublist tasks ∧ ∀ l ∈ lives, l.task.taskId = some l.id := by
  induction tasks generalizing log with
  | nil =>
      obtain ⟨rfl, -⟩ := Program.speaks_done_iff.mp h
      exact ⟨[], rfl, .slnil, List.forall_mem_nil _⟩
  | cons τ rest ih =>
      have hLater := fun σ hσ => hIds σ (List.mem_cons_of_mem τ hσ)
      obtain ⟨id, hId⟩ := Option.isSome_iff_exists.mp (hIds τ List.mem_cons_self)
      unfold runTasks at h
      obtain ⟨status, first, last, rfl, hTask, hLast⟩ := Engine.speaks_bind h
      replace hTask := speaks_runTask hSync hId hTask fun x hx => hWrote x (List.mem_append_left _ hx)
      have hWroteLast := fun x hx => hWrote x (List.mem_append_right first hx)
      rw [List.filter_append]
      rcases hTask with ⟨hNone, hStatus⟩ | ⟨l, rfl, rfl, hLife, rfl⟩
      · rw [hNone, List.nil_append]
        obtain ⟨_ | status, rfl, hLast⟩ | ⟨_, -, rfl, -⟩ := hLast
        · obtain ⟨lives, hLives, hSub, hKnown⟩ := ih hLater hLast hWroteLast
          exact ⟨lives, hLives, hSub.cons τ, hKnown⟩
        · exact absurd rfl (hStatus status)
        · exact ⟨[], rfl, List.nil_sublist _, List.forall_mem_nil _⟩
      · obtain ⟨_, hSame, hLast⟩ | ⟨_, hError, -⟩ := hLast
        · cases hSame
          obtain ⟨failures, last, rfl, hCounted⟩ := Engine.speaks_ask_iff.mp hLast
          split at hCounted
          · obtain ⟨_, last, rfl, hDone⟩ := Program.speaks_ask_iff.mp hCounted
            obtain ⟨rfl, -⟩ := Program.speaks_done_iff.mp hDone
            refine ⟨[l], ?_, List.singleton_sublist.mpr List.mem_cons_self, by simpa using hId⟩
            rw [hLife, List.flatMap_singleton]
            exact List.append_nil _
          · obtain ⟨lives, hLives, hSub, hKnown⟩ := ih hLater hCounted fun x hx =>
              hWroteLast x (List.mem_cons_of_mem _ hx)
            refine ⟨l :: lives, ?_, hSub.cons_cons _, List.forall_mem_cons.mpr ⟨hId, hKnown⟩⟩
            rw [List.flatMap_cons, ← hLives, hLife]
            rfl
        · cases hError

/-- Every task that is collected is one of an entry of its own. -/
theorem speaks_collect {entries others : List Entry} {tasks : List Task}
    (h : (ExceptT.run (collect entries)).Speaks log (.done (.ok (tasks, others)))) :
    (tasks.map Task.entryName).Sublist (entries.map Entry.name) ∧ ∀ τ ∈ tasks, τ.taskId.isSome = true := by
  induction entries generalizing log tasks others with
  | nil =>
      obtain ⟨-, hDone⟩ := Program.speaks_done_iff.mp h
      cases hDone
      exact ⟨.slnil, nofun⟩
  | cons e rest ih =>
      unfold collect at h
      obtain ⟨now, log, rfl, hNow⟩ := Engine.speaks_ask_iff.mp h
      obtain ⟨outcome, first, log, rfl, hConsume, hSave⟩ := Engine.speaks_bind hNow
      obtain ⟨-, hDone⟩ := Program.speaks_done_iff.mp hConsume
      obtain ⟨⟨task, f⟩, rfl, hSave⟩ | ⟨_, -, -, hError⟩ := hSave
      · have hConsumes := Entry.consumes_of_consume (Program.done.inj hDone).symm
        obtain ⟨_, _, log, rfl, -, ⟨-, -, hRest⟩ | ⟨_, -, -, hError⟩⟩ := Engine.speaks_bind hSave
        · obtain ⟨_, part, log, rfl, hPart, ⟨⟨later, kept⟩, rfl, hLast⟩ | ⟨_, -, -, hError⟩⟩ :=
            Engine.speaks_bind hRest
          · obtain ⟨-, hLast⟩ := Program.speaks_done_iff.mp hLast
            cases hLast
            obtain ⟨hNames, hIds⟩ := ih hPart
            cases task with
            | none => exact ⟨hNames.cons _, hIds⟩
            | some τ =>
                have hTakes := hConsumes.takes τ rfl
                have hName : τ.entryName = e.name := hTakes.entryName_eq
                refine ⟨?_, List.forall_mem_cons.mpr ⟨by rw [hTakes.taskId_eq, Option.isSome_some], hIds⟩⟩
                change (τ.entryName :: _).Sublist (e.name :: _)
                rw [hName]
                exact hNames.cons_cons _
          · cases hError
        · cases hError
      · cases hError

/-- The tasks that a pass has before it: what it has taken off the entries, sorted. -/
inductive Queues : List (Exchange Request.Answer) → List Task → Prop where
  | idle (rest : List (Exchange Request.Answer)) : Queues (⟨.activeEntries, .ok []⟩ :: rest) []
  | busy {entries left : List Entry} {first : List (Exchange Request.Answer)} {taken : List Task}
      (hTaken : (ExceptT.run (collect entries)).Speaks first (.done (.ok (taken, left))))
      (rest : List (Exchange Request.Answer)) :
      Queues (⟨.activeEntries, .ok entries⟩ :: ⟨.beginPass, ()⟩ :: (first ++ rest)) (TaskQueue.ofList taken).toList

namespace Queues

variable {tasks : List Task}

theorem append (h : Queues log tasks) (more : List (Exchange Request.Answer)) : Queues (log ++ more) tasks := by
  cases h with
  | idle rest => exact .idle (rest ++ more)
  | @busy _ _ first _ hTaken rest =>
      have hLog := busy hTaken (rest ++ more)
      rwa [← List.append_assoc] at hLog

theorem isSome_ids (h : Queues log tasks) : ∀ τ ∈ tasks, τ.taskId.isSome = true := by
  cases h with
  | idle => exact List.forall_mem_nil _
  | busy hTaken => exact fun τ hτ => (speaks_collect hTaken).2 τ (TaskQueue.mem_ofList.mp hτ)

/-- If no two entries have the same name, no two tasks are of the same entry. -/
theorem nodup_names (h : Queues log tasks) (hSense : ∀ x ∈ log, Course.Sensible x.1 x.2) :
    (tasks.map Task.entryName).Nodup := by
  cases h with
  | idle => exact .nil
  | @busy entries _ _ _ hTaken =>
      have hNames : (entries.map Entry.name).Nodup := hSense _ List.mem_cons_self
      rw [((TaskQueue.perm_ofList _).map Task.entryName).nodup_iff]
      exact (speaks_collect hTaken).1.nodup hNames

end Queues

/-- A pass looks at clock and entries, and then its tasks have their turns. If there is nothing to do, or
something fails before that, there is nothing else. -/
theorem speaks_pass_turns {result : Except Failure Unit} (h : (ExceptT.run (pass setup)).Speaks log (.done result)) :
    ((∀ x ∈ log, x.1.OffTurn) ∧ (result = .ok () → Queues log [])) ∨
      ∃ tasks opening turns, log = opening ++ turns ∧ (∀ x ∈ opening, x.1.OffTurn) ∧ Queues log tasks ∧
        (ExceptT.run (runTasks setup tasks)).Speaks turns (.done result) := by
  unfold pass Engine.activeEntries at h
  rw [bind_assoc] at h
  obtain ⟨answer, log, rfl, hRead⟩ := Engine.speaks_ask_iff.mp h
  cases answer with
  | error e =>
      obtain ⟨rfl, hDone⟩ := Program.speaks_done_iff.mp hRead
      cases hDone
      exact .inl ⟨by simp [Request.OffTurn], nofun⟩
  | ok entries =>
      change (ExceptT.run (passOver setup entries)).Speaks _ _ at hRead
      unfold passOver at hRead
      split at hRead
      · have hIdle : Program.Asks Request.OffTurn
            (ExceptT.run (Engine.ask (.publish .empty) >>= fun _ => Engine.ask .setIdle)) :=
          Engine.asks_ask trivial fun _ => ⟨trivial, fun _ => trivial⟩
        exact .inl ⟨List.forall_mem_cons.mpr ⟨trivial, hIdle.of_speaks hRead⟩, fun _ => .idle _⟩
      · obtain ⟨_, log, rfl, hBegun⟩ := Engine.speaks_ask_iff.mp hRead
        obtain ⟨_, first, log, rfl, hCollect, hRest⟩ := Engine.speaks_bind hBegun
        have hFirst := (asks_collect Request.OffTurn trivial (fun _ => trivial) entries).of_speaks hCollect
        obtain ⟨⟨taken, left⟩, rfl, hRest⟩ | ⟨e, rfl, rfl, rfl⟩ := hRest
        · obtain ⟨now, log, rfl, hNow⟩ := Engine.speaks_ask_iff.mp hRest
          obtain ⟨_, turns, rfl, hTurns⟩ := Engine.speaks_ask_iff.mp hNow
          let announcement : Exchange Request.Answer :=
            ⟨.publish (announced left now setup.settings.lookaheadMultiplier), ()⟩
          refine .inr ⟨_, ⟨.activeEntries, .ok entries⟩ :: ⟨.beginPass, ()⟩ :: (first ++ [⟨.now, now⟩, announcement]),
            turns, ?_, ?_, .busy hCollect _, hTurns⟩
          · simp [announcement]
          · simpa [announcement, or_imp, forall_and, Request.OffTurn] using hFirst
        · exact .inl ⟨by simpa [Request.OffTurn] using hFirst, nofun⟩

/-- What a pass does about tasks: whole lives, of different entries. -/
theorem speaks_pass (hSync : setup.callback.asynchronous = false) {result : Except Failure Unit}
    (h : (ExceptT.run (pass setup)).Speaks log (.done result))
    (hWrote : ∀ x ∈ log, Exchange.Wrote x) (hSense : ∀ x ∈ log, Course.Sensible x.1 x.2) :
    ∃ lives : List Life, log.filter Exchange.isAboutTask = lives.flatMap (·.exchanges setup) ∧
      (lives.map (·.task.entryName)).Nodup ∧ ∀ l ∈ lives, l.task.taskId = some l.id := by
  obtain ⟨hOff, -⟩ | ⟨tasks, opening, turns, rfl, hOff, hQueues, hTurns⟩ := speaks_pass_turns h
  · exact ⟨[], filter_eq_nil fun x hx => (hOff x hx).isAboutTask_eq, .nil, List.forall_mem_nil _⟩
  · obtain ⟨lives, hLives, hSub, hKnown⟩ := speaks_runTasks hSync hQueues.isSome_ids hTurns fun x hx =>
      hWrote x (List.mem_append_right opening hx)
    refine ⟨lives, ?_, ?_, hKnown⟩
    · rw [List.filter_append, filter_eq_nil fun x hx => (hOff x hx).isAboutTask_eq, List.nil_append, hLives]
    · have hSublist := (hSub.map Task.entryName).nodup (hQueues.nodup_names hSense)
      rwa [List.map_map] at hSublist

end Pass

/-! ### What single lives come to -/

namespace Life

variable {setup : LoopSetup} {l : Life}

theorem status_closing : (l.closing setup).status = (l.outcome.verdict l.task.action).1 :=
  rfl

/-- It fails exactly if the action is unknown, reports an error or breaks off. -/
theorem failure_iff : (l.closing setup).status = .failure ↔
    l.outcome = .unknown ∨ (∃ chain, l.outcome = .failed chain) ∨ ∃ message, l.outcome = .panicked message := by
  rw [status_closing]
  cases l.outcome <;> simp [Outcome.verdict]

theorem success_iff : (l.closing setup).status = .success ↔ ∃ detail, l.outcome = .returned detail := by
  rw [status_closing]
  cases l.outcome <;> simp [Outcome.verdict]

/-- Only a success can be reported in vain, to someone. -/
theorem isUndelivered_iff : (l.job setup).isUndelivered l.delivery = true ↔
    (∃ url, l.receiver setup = some url) ∧ (∃ e, l.delivery = .error e) ∧
      ∃ detail, l.outcome = .returned detail := by
  have hDelivery : l.delivery.toOption.isNone = true ↔ ∃ e, l.delivery = .error e := by
    cases l.delivery <;> simp [Except.toOption]
  rw [Finalisation.isUndelivered, Bool.and_eq_true, Bool.and_eq_true, hDelivery, Option.isSome_iff_exists,
    beq_iff_eq, and_assoc]
  exact and_congr_right' (and_congr_right' success_iff)

/-- All that is asked about a task after its entry was found. -/
theorem mem_exchanges {x : Exchange Request.Answer} (h : x ∈ l.exchanges setup) :
    x = ⟨.entry l.task.entryName, .ok l.entry⟩ ∨ x.1 = .call l.task l.id ∨
      (∃ url payload, x.1 = .final (.notify url payload)) ∨
        ∃ result, x.1 = .final (.record result setup.settings.maxTaskResults) ∧
          result.entryName = l.entry.name ∧ result.taskId = l.id := by
  simp only [exchanges, Finalisation.exchanges, List.mem_append, List.mem_cons, List.not_mem_nil, or_false,
    List.mem_map] at h
  rcases h with (rfl | rfl | rfl) | (rfl | ⟨url, -, rfl⟩) | hLast
  · exact .inl rfl
  · exact .inr (.inr (.inr ⟨_, rfl, rfl, rfl⟩))
  · exact .inr (.inl rfl)
  · exact .inr (.inr (.inr ⟨_, rfl, rfl, rfl⟩))
  · exact .inr (.inr (.inl ⟨url, _, rfl⟩))
  · split at hLast
    · obtain rfl := List.mem_singleton.mp hLast
      exact .inr (.inr (.inr ⟨_, rfl, rfl, rfl⟩))
    · cases hLast

theorem filterMap_write (key : ResultKey) : (l.exchanges setup).filterMap (Exchange.write? key) =
    if l.key = key then l.writes setup else [] := by
  rw [exchanges, List.filterMap_append, Finalisation.filterMap_write, writes]
  change _ ++ (if l.key = key then _ else []) = _
  have hOpening : Exchange.write? key ⟨.final (.record l.opening setup.settings.maxTaskResults), .ok ()⟩ =
      if l.key = key then some l.opening else none := rfl
  by_cases hKey : l.key = key
  · rw [if_pos hKey] at hOpening
    rw [if_pos hKey, if_pos hKey, List.filterMap_cons_none rfl, List.filterMap_cons_some hOpening]
    rfl
  · rw [if_neg hKey] at hOpening
    rw [if_neg hKey, if_neg hKey, List.filterMap_cons_none rfl, List.filterMap_cons_none hOpening]
    rfl

theorem filterMap_report : (l.exchanges setup).filterMap Exchange.report? = l.reports setup := by
  rw [exchanges, List.filterMap_append, Finalisation.filterMap_report]
  rfl

theorem filterMap_call : (l.exchanges setup).filterMap Exchange.call? = [l.task] := by
  rw [exchanges, List.filterMap_append, Finalisation.filterMap_call]
  rfl

end Life

end TickScheduler
