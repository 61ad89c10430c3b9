import TickScheduler.Engine.Run
import TickScheduler.Entry.Draft
import TickScheduler.Proofs.Program.Conduct
import TickScheduler.Proofs.Store.Results
import TickScheduler.Proofs.Store.Rows
/-!
Surroundings of the scheduling loop in which what may happen is left open: how actions and reports end,
what time of day it is, in which order the background makes its steps, and whether operations of the
store fail. A scene also keeps a journal, so that one can speak of what was run.
-/
namespace TickScheduler

/-- What is left of a finalisation in the background. -/
abbrev Job : Type := Program FinalRequest FinalRequest.Answer (Except Error Unit)

inductive Scene.Event where
  /-- The action of a task is called. -/
  | called (task : Task)
  /-- A result is stored in the place of what was stored of the same task, if anything. -/
  | recorded (result : TaskResult) (replaced : Option ResultRow)
  | notified (url : String) (payload : Payload)
  /-- A client has read an entry and made an update of it. -/
  | edited (update : Entry)

/-- Whether an event is neither the call of an action nor the writing of a result. -/
def Scene.Event.IsAside : Scene.Event → Prop
  | .called _ | .recorded _ _ => False
  | .notified _ _ | .edited _ => True

structure Scene where
  store : Store
  clock : Tick
  monitor : Monitor := {}
  /-- What goes on in the background. -/
  jobs : List Job := []
  /-- Entries in the hands of clients. -/
  copies : List Entry := []
  /-- What has happened, the latest last. -/
  journal : List Scene.Event := []

namespace Scene

variable {s t u : Scene} {faulty : Prop} {r : Request}

def note (s : Scene) (event : Event) : Scene :=
  { s with journal := s.journal ++ [event] }

def record (s : Scene) (store : Store) (result : TaskResult) : Scene :=
  { s with store }.note (.recorded result (s.store.result? ⟨result.entryName, result.taskId⟩))

/-- The tasks whose actions were called, in order. -/
def executed (s : Scene) : List Task :=
  s.journal.filterMap fun
    | .called task => some task
    | _ => none

/-- No two tasks of one entry were run for the same tick. -/
def RunsNoTickTwice (s : Scene) : Prop :=
  s.executed.Pairwise fun a b => a.entryName = b.entryName → a.time ≠ b.time

/-- A new scheduler takes over: nothing of the old one is left but what is stored. -/
def renew (s : Scene) : Scene :=
  { s with monitor := {}, jobs := [] }

/-- An answer is what was read, or an error if reading may fail. -/
def Reads {Result : Type} (faulty : Prop) (actual answer : Except Error Result) : Prop :=
  answer = actual ∨ (faulty ∧ ∃ e, answer = .error e)

/-- A change of the store is made, or an error is reported and nothing is changed. -/
def Writes (faulty : Prop) (s : Scene) (attempt : Except Error Store) (answer : Except Error Unit)
    (t : Scene) : Prop :=
  (∃ store, attempt = .ok store ∧ answer = .ok () ∧ t = { s with store }) ∨
    ∃ e, answer = .error e ∧ t = s ∧ (attempt = .error e ∨ faulty)

/-- How a finalisation is answered. A report may be delivered or not. -/
def AnswersFinal (faulty : Prop) : (r : FinalRequest) → Scene → r.Answer → Scene → Prop
  | .record result keep, s, answer, t =>
      (∃ store, s.store.recordResult result keep = .ok store ∧ answer = .ok () ∧
        t = s.record store result) ∨
        ∃ e, answer = .error e ∧ t = s ∧ (s.store.recordResult result keep = .error e ∨ faulty)
  | .notify url payload, s, _, t => t = s.note (.notified url payload)

/-- How the loop is answered. Actions leave the scene alone, whatever becomes of them. If the scene is
faulty, any operation of the store may report an error instead of what it would do. -/
def Answers (faulty : Prop) : (r : Request) → Scene → r.Answer → Scene → Prop
  | .now, s, tick, t => tick = s.clock ∧ t = s
  | .timestamp, s, _, t => t = s
  | .activeEntries, s, answer, t => Reads faulty s.store.activeEntries answer ∧ t = s
  | .entry name, s, answer, t => Reads faulty (s.store.getEntry name) answer ∧ t = s
  | .saveCursor e, s, answer, t => Writes faulty s (s.store.saveCursor e) answer t
  | .lastTaskId name, s, answer, t => Reads faulty (s.store.lastTaskId name) answer ∧ t = s
  | .final r, s, answer, t => AnswersFinal faulty r s answer t
  | .call task _, s, _, t => t = s.note (.called task)
  | .pause, s, _, t => t = s
  | .sleep, s, _, t => t = s
  | .spawn job, s, _, t => t = { s with jobs := s.jobs ++ [job.program] }
  | .drain, s, _, t => s.jobs = [] ∧ t = s
  | .beginPass, s, _, t => t = { s with monitor := s.monitor.beginPass }
  | .setIdle, s, _, t => t = { s with monitor := s.monitor.setIdle }
  | .publish upcoming, s, _, t => t = { s with monitor := s.monitor.publish upcoming }
  | .stop, s, _, t => t = { s with monitor := s.monitor.stop }
  | .stopRequested, s, answer, t => answer = s.monitor.stopRequested ∧ t = s
  | .countOutcome failed, s, answer, t =>
      t = { s with monitor := s.monitor.countOutcome failed } ∧ answer = t.monitor.failures
  | .removeHealthFile, s, _, t => t = s
  | .touchHealthFile, s, _, t => t = s

/-- Something in the background makes a step, or is found to have ended. -/
inductive Works (faulty : Prop) : Scene → Scene → Prop where
  | step {s t : Scene} {before after : List Job} {r : FinalRequest} {next : r.Answer → Job} {a : r.Answer}
      (hJobs : s.jobs = before ++ .ask r next :: after) (hAnswer : AnswersFinal faulty r s a t) :
      Works faulty s { t with jobs := before ++ next a :: after }
  | finish {s : Scene} {before after : List Job} {result : Except Error Unit}
      (hJobs : s.jobs = before ++ .done result :: after) :
      Works faulty s { s with jobs := before ++ after }

/-- Time goes by. -/
def Ages (s t : Scene) : Prop :=
  ∃ clock, s.clock ≤ clock ∧ t = { s with clock }

/-- Nobody but the loop and its background does anything, time stands still, and nothing fails. -/
def quiet : Conduct Request Request.Answer Scene where
  answers := Answers False
  moves := Works False

/-! ### What single steps leave alone -/

theorem executed_note (s : Scene) (event : Event) : (s.note event).executed = s.executed ++
    match event with
    | .called task => [task]
    | _ => [] := by
  unfold executed note
  rw [List.filterMap_append]
  cases event <;> rfl

theorem executed_append {events : List Event} (hJournal : t.journal = s.journal ++ events)
    (hAside : ∀ event ∈ events, event.IsAside) : t.executed = s.executed := by
  unfold executed
  rw [hJournal, List.filterMap_append, List.append_right_eq_self, List.filterMap_eq_nil_iff]
  intro event hEvent
  have hOne := hAside event hEvent
  cases event <;> first | rfl | exact hOne.elim

theorem executed_record {store : Store} {result : TaskResult} :
    (s.record store result).executed = s.executed := by
  rw [record, executed_note, List.append_nil]
  rfl

theorem Writes.cases {attempt : Except Error Store} {answer : Except Error Unit}
    (h : Writes faulty s attempt answer t) :
    (∃ store, attempt = .ok store ∧ answer = .ok () ∧ t = { s with store }) ∨
      ∃ e, answer = .error e ∧ t = s := by
  rcases h with h | ⟨e, hError, rfl, -⟩
  · exact .inl h
  · exact .inr ⟨e, hError, rfl⟩

theorem record_cases {result : TaskResult} {keep : Nat} {answer : Except Error Unit}
    (h : AnswersFinal faulty (.record result keep) s answer t) :
    (∃ store, s.store.recordResult result keep = .ok store ∧ answer = .ok () ∧
        t = s.record store result) ∨
      ∃ e, answer = .error e ∧ t = s := by
  rcases h with h | ⟨e, hError, rfl, -⟩
  · exact .inl h
  · exact .inr ⟨e, hError, rfl⟩

/-- A finalisation touches neither entries nor what counts as executed. -/
theorem entries_of_answersFinal {r : FinalRequest} {a : r.Answer} (h : AnswersFinal faulty r s a t) :
    t.store.entries = s.store.entries ∧ t.executed = s.executed := by
  cases r with
  | record result keep =>
      rcases record_cases h with ⟨store, hStore, -, rfl⟩ | ⟨e, -, rfl⟩
      · exact ⟨(Store.records_of_recordResult hStore).entries_eq, executed_record⟩
      · exact ⟨rfl, rfl⟩
  | notify url payload =>
      subst h
      refine ⟨rfl, ?_⟩
      rw [executed_note, List.append_nil]

theorem frame_of_answersFinal {r : FinalRequest} {a : r.Answer} (h : AnswersFinal faulty r s a t) :
    ∃ store journal, t = { s with store, journal } := by
  cases r with
  | record result keep =>
      rcases record_cases h with ⟨store, -, -, rfl⟩ | ⟨e, -, rfl⟩
      · exact ⟨_, _, rfl⟩
      · exact ⟨_, _, rfl⟩
  | notify url payload =>
      subst h
      exact ⟨_, _, rfl⟩

theorem entries_of_works (h : Works faulty s t) :
    t.store.entries = s.store.entries ∧ t.executed = s.executed := by
  cases h with
  | step hJobs hAnswer =>
      obtain ⟨hEntries, hExecuted⟩ := entries_of_answersFinal hAnswer
      exact ⟨hEntries, hExecuted⟩
  | finish hJobs => exact ⟨rfl, rfl⟩

/-- The background never touches the monitor. -/
theorem monitor_of_works (h : Works faulty s t) : t.monitor = s.monitor := by
  cases h with
  | step _ hAnswer =>
      obtain ⟨_, _, rfl⟩ := frame_of_answersFinal hAnswer
      rfl
  | finish => rfl

end Scene

/-- What a request makes of the monitor. -/
def Request.onMonitor : Request → Monitor → Monitor
  | .beginPass => Monitor.beginPass
  | .setIdle => Monitor.setIdle
  | .publish upcoming => (·.publish upcoming)
  | .stop => Monitor.stop
  | .countOutcome failed => (·.countOutcome failed)
  | _ => id

/-- Nobody takes a stop back. -/
theorem Request.stopRequested_onMonitor {r : Request} {monitor : Monitor}
    (h : monitor.stopRequested = true) : (r.onMonitor monitor).stopRequested = true := by
  cases r with
  | beginPass =>
      simp only [onMonitor, Monitor.beginPass]
      split <;> exact h
  | stop => rfl
  | _ => exact h

/-- The requests that can only touch the monitor. -/
def Request.IsPassive : Request → Prop
  | .saveCursor _ | .final _ | .call _ _ | .spawn _ => False
  | _ => True

namespace Scene

variable {s t : Scene} {faulty : Prop}

theorem passive_answer {r : Request} {a : r.Answer} (hPassive : r.IsPassive)
    (h : Answers faulty r s a t) :
    ∃ monitor, t = { s with monitor } := by
  cases r with
  | saveCursor => exact hPassive.elim
  | final => exact hPassive.elim
  | call => exact hPassive.elim
  | spawn => exact hPassive.elim
  | timestamp | pause | sleep | removeHealthFile | touchHealthFile => exact ⟨s.monitor, h⟩
  | beginPass | setIdle | publish | stop => exact ⟨_, h⟩
  | now | activeEntries | entry | lastTaskId | drain | stopRequested => exact ⟨s.monitor, h.2⟩
  | countOutcome => exact ⟨_, h.1⟩

theorem monitor_of_answers {r : Request} {a : r.Answer} (h : Answers faulty r s a t) :
    t.monitor = r.onMonitor s.monitor := by
  cases r with
  | saveCursor => rcases Writes.cases h with ⟨_, -, -, rfl⟩ | ⟨_, -, rfl⟩ <;> rfl
  | final =>
      obtain ⟨_, _, rfl⟩ := frame_of_answersFinal h
      rfl
  | now | activeEntries | entry | lastTaskId | drain | stopRequested =>
      obtain ⟨-, rfl⟩ := h
      rfl
  | countOutcome =>
      obtain ⟨rfl, -⟩ := h
      rfl
  | _ =>
      obtain rfl := h
      rfl

/-- A snapshot holds the active entries as they are stored, no two of one name. -/
theorem snapshot_answer {entries : List Entry} (h : Answers faulty .activeEntries s (.ok entries) t) :
    t = s ∧ (entries.map Entry.name).Nodup ∧ ∀ e ∈ entries, ∃ row, s.store.row? e.name = some row ∧
      row.activeFlag = 1 ∧ e = row.toEntry := by
  obtain ⟨hRead | ⟨-, _, hError⟩, rfl⟩ := h
  · obtain ⟨hNodup, hMem⟩ := Store.mem_activeEntries hRead.symm
    refine ⟨rfl, hNodup, fun e hEntry => ?_⟩
    obtain ⟨row, hRow, hFlag, hRead⟩ := (hMem e).mp hEntry
    exact ⟨row, hRow, hFlag, (EntryRow.read_eq_ok_iff.mp hRead).2.symm⟩
  · cases hError

theorem entry_answer {name : String} {e : Entry} (h : Answers faulty (.entry name) s (.ok e) t) :
    e.name = name := by
  obtain ⟨hRead | ⟨-, _, hError⟩, -⟩ := h
  · obtain ⟨row, hRow, hRead⟩ := Store.getEntry_eq_ok_iff.mp hRead.symm
    obtain ⟨-, rfl⟩ := EntryRow.read_eq_ok_iff.mp hRead
    exact Store.name_of_row? hRow
  · cases hError

/-- What may go wrong need not. -/
theorem Answers.mono {other : Prop} (hFaulty : faulty → other) {r : Request} {a : r.Answer}
    (h : Answers faulty r s a t) : Answers other r s a t := by
  have hReads {Result : Type} {actual answer : Except Error Result} (h : Reads faulty actual answer) :
      Reads other actual answer := h.imp_right fun ⟨hFault, hError⟩ => ⟨hFaulty hFault, hError⟩
  cases r with
  | activeEntries | entry | lastTaskId => exact ⟨hReads h.1, h.2⟩
  | saveCursor =>
      exact h.imp_right fun ⟨e, hError, hSame, hWhy⟩ => ⟨e, hError, hSame, hWhy.imp_right hFaulty⟩
  | final r =>
      cases r with
      | record =>
          exact h.imp_right fun ⟨e, hError, hSame, hWhy⟩ => ⟨e, hError, hSame, hWhy.imp_right hFaulty⟩
      | notify => exact h
  | _ => exact h

theorem Works.mono {other : Prop} (hFaulty : faulty → other) (h : Works faulty s t) :
    Works other s t := by
  cases h with
  | @step _ _ _ r _ a hJobs hAnswer =>
      exact .step hJobs (Answers.mono hFaulty (r := .final r) (a := a) hAnswer)
  | finish hJobs => exact .finish hJobs

/-- The clock and the copies in the hands of clients are none of the loop's business. -/
theorem frame_of_answers {r : Request} {a : r.Answer} (h : Answers faulty r s a t) :
    ∃ store monitor jobs journal, t = { s with store, monitor, jobs, journal } := by
  by_cases hPassive : r.IsPassive
  · obtain ⟨_, rfl⟩ := passive_answer hPassive h
    exact ⟨_, _, _, _, rfl⟩
  · cases r with
    | saveCursor =>
        rcases Writes.cases h with ⟨_, -, -, rfl⟩ | ⟨_, -, rfl⟩
        · exact ⟨_, _, _, _, rfl⟩
        · exact ⟨_, _, _, _, rfl⟩
    | final =>
        obtain ⟨_, _, rfl⟩ := frame_of_answersFinal h
        exact ⟨_, _, _, _, rfl⟩
    | call | spawn =>
        obtain rfl := h
        exact ⟨_, _, _, _, rfl⟩
    | _ => exact (hPassive trivial).elim

theorem frame_of_works (h : Works faulty s t) :
    ∃ store monitor jobs journal, t = { s with store, monitor, jobs, journal } := by
  cases h with
  | step _ hAnswer =>
      obtain ⟨_, _, rfl⟩ := frame_of_answersFinal hAnswer
      exact ⟨_, _, _, _, rfl⟩
  | finish => exact ⟨_, _, _, _, rfl⟩

end Scene

end TickScheduler
