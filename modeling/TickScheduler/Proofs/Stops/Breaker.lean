import TickScheduler.Proofs.Results.LifeCycle
import TickScheduler.Proofs.Stops.Marks
/-!
The breaker. Failures are counted from task to task, across entries and across passes, and the count tells
how many of the tasks executed last have failed. A pass is cut off after a task exactly if as many as the
limit have failed in a row by then; otherwise the next task has its turn.
-/
namespace TickScheduler

open Mark (ofLog statuses)

variable {setup : LoopSetup} {log : List (Exchange Request.Answer)}

/-- A request that leaves the count of failures alone. -/
def Request.IsUncounted : Request → Prop
  | .countOutcome _ => False
  | _ => True

theorem Request.OffTurn.isUncounted {r : Request} (h : r.OffTurn) : r.IsUncounted := by
  cases r <;> first | exact trivial | exact h.elim

theorem Request.OfTurn.isUncounted {r : Request} (h : r.OfTurn) : r.IsUncounted := by
  cases r <;> first | exact trivial | exact h.elim

namespace Scene

variable {ends : String → Payload → Except Error Unit → Prop} {allows : Deed → Prop} {s t : Scene}
  {past : List TaskStatus} {tasks : List Task} {ended : Except Failure Unit}

theorem Bustles.failures_eq (h : Bustles ends allows s t) : t.monitor.failures = s.monitor.failures := by
  cases h with
  | work _ hAnswer =>
      obtain ⟨_, _, rfl⟩ := frame_of_answersFinal hAnswer
      rfl
  | finish | stop | deed => rfl
  | age h =>
      obtain ⟨clock, -, rfl⟩ := h
      rfl

theorem failures_of_answers {r : Request} {a : r.Answer} (hUncounted : r.IsUncounted)
    (h : Answers False r s a t) : t.monitor.failures = s.monitor.failures := by
  rw [monitor_of_answers h]
  cases r with
  | countOutcome => exact hUncounted.elim
  | beginPass =>
      simp only [Request.onMonitor, Monitor.beginPass]
      split <;> rfl
  | _ => rfl

theorem failures_of_replies (h : (bustling ends allows).Replies s log t)
    (hUncounted : ∀ x ∈ log, x.1.IsUncounted) : t.monitor.failures = s.monitor.failures := by
  refine h.keeps (P := fun u => u.monitor.failures = s.monitor.failures) ?_ ?_ rfl
  · exact fun u v hMove hSame => hMove.failures_eq.trans hSame
  · exact fun x hx u v hAnswer hSame => (failures_of_answers (hUncounted x hx) hAnswer.1).trans hSame

/-- An outcome is counted: the count is right again, and it is the answer. -/
theorem counted_of_replies {status : TaskStatus} {failures : Nat}
    (h : (bustling ends allows).Replies s (⟨.countOutcome (status == .failure), failures⟩ :: log) t)
    (hTable : s.store.results.isSome = true) (hCount : EndsWithFailures past s.monitor.failures) :
    ∃ u, (bustling ends allows).Replies u log t ∧ u.store.results.isSome = true ∧
      EndsWithFailures (past ++ [status]) u.monitor.failures ∧ failures = u.monitor.failures := by
  obtain ⟨u, v, hDrift, ⟨⟨hAnswer, hFailures⟩, -⟩, hRest⟩ := h.exists_first
  have hBegun : (bustling ends allows).Replies s [] u := .of_drifts hDrift (.stay u)
  have hSame := failures_of_replies hBegun (List.forall_mem_nil _)
  have hStill := (isSome_results_of_replies hBegun).trans hTable
  refine ⟨v, hRest, ?_, ?_, hFailures⟩
  · rwa [hAnswer]
  · have hConcat := hCount.concat status
    rw [← hSame] at hConcat
    rw [hAnswer]
    exact hConcat

/-- What is said outside of turns leaves no mark, and the count is as right as it was. -/
theorem aside_of_replies (h : (bustling ends allows).Replies s log t) (hOff : ∀ x ∈ log, x.1.OffTurn)
    (hCount : EndsWithFailures past s.monitor.failures) :
    ofLog log = [] ∧ EndsWithFailures past t.monitor.failures := by
  refine ⟨Mark.ofLog_eq_nil fun x hx => (hOff x hx).isUnmarked, ?_⟩
  rwa [failures_of_replies h fun x hx => (hOff x hx).isUncounted]

/-- A pass goes through its tasks as the count of failures says, and the count is right again after it. -/
theorem goes_of_replies (hIds : ∀ τ ∈ tasks, τ.taskId.isSome = true)
    (hSpeaks : (ExceptT.run (Pass.runTasks setup tasks)).Speaks log (.done ended))
    (hReplies : (bustling ends allows).Replies s log t) (hTable : s.store.results.isSome = true)
    (hCount : EndsWithFailures past s.monitor.failures) :
    Goes setup.settings.maxConsecutiveFailures ended past tasks (ofLog log) ∧
      EndsWithFailures (past ++ statuses (ofLog log)) t.monitor.failures := by
  induction tasks generalizing log s past with
  | nil =>
      obtain ⟨rfl, -⟩ := Program.speaks_done_iff.mp hSpeaks
      obtain ⟨-, hEnd⟩ := aside_of_replies hReplies (List.forall_mem_nil _) hCount
      exact ⟨.finished past, by simpa [ofLog, statuses] using hEnd⟩
  | cons τ rest ih =>
      obtain ⟨hId, hOthers⟩ := List.forall_mem_cons.mp hIds
      obtain ⟨id, hId⟩ := Option.isSome_iff_exists.mp hId
      unfold Pass.runTasks at hSpeaks
      obtain ⟨status, first, last, rfl, hTurn, hLast⟩ := Engine.speaks_bind hSpeaks
      obtain ⟨u, hFirst, hRest⟩ := Conduct.replies_append_iff.mp hReplies
      -- in its turn a task does not count yet, only what is asked after it does
      have hSame : u.monitor.failures = s.monitor.failures :=
        failures_of_replies hFirst fun x hx => ((Pass.asks_runTask τ).of_speaks hTurn x hx).isUncounted
      have hStill := (isSome_results_of_replies hFirst).trans hTable
      rw [← hSame] at hCount
      rw [Mark.ofLog_append]
      -- no entry, an entry that cannot be read, or a whole life
      rcases Pass.speaks_turn hId hTurn (wrote_of_replies hTable hFirst) with
        ⟨name, rfl, rfl⟩ | ⟨e, failure, hFound, rfl, rfl⟩ | ⟨l, rfl, -, rfl, rfl⟩
      · obtain ⟨_, hOk, hLast⟩ | ⟨_, hError, -⟩ := hLast
        · cases hOk
          obtain ⟨hGoes, hEnd⟩ := ih hOthers hLast hRest hStill hCount
          exact ⟨.skipped hGoes, hEnd⟩
        · cases hError
      · obtain ⟨_, hOk, -⟩ | ⟨_, -, rfl, rfl⟩ := hLast
        · cases hOk
        · obtain ⟨-, hEnd⟩ := aside_of_replies hRest (List.forall_mem_nil _) hCount
          rw [Mark.ofLog_of_error hFound]
          exact ⟨.failed (by simp), by simpa [ofLog, statuses] using hEnd⟩
      · obtain ⟨_, hOk, hLast⟩ | ⟨_, hError, -⟩ := hLast
        · cases hOk
          obtain ⟨failures, last, rfl, hCounted⟩ := Engine.speaks_ask_iff.mp hLast
          obtain ⟨v, hLater, hTables, hCount, rfl⟩ := counted_of_replies hRest hStill hCount
          rw [Life.marks_turn]
          split at hCounted
          · rename_i hTrips
            obtain ⟨_, last, rfl, hStopped⟩ := Program.speaks_ask_iff.mp hCounted
            obtain ⟨rfl, -⟩ := Program.speaks_done_iff.mp hStopped
            refine ⟨.tripped (hCount.trips_iff.mp hTrips), ?_⟩
            rw [failures_of_replies hLater (by simp [Request.IsUncounted])]
            exact hCount
          · rename_i hGoesOn
            obtain ⟨hGoes, hEnd⟩ := ih hOthers hCounted hLater hTables hCount
            refine ⟨.executed (fun hTrips => hGoesOn (hCount.trips_iff.mpr hTrips)) hGoes, ?_⟩
            rw [List.append_assoc] at hEnd
            exact hEnd
        · cases hError

theorem goes_of_pass (hSpeaks : (ExceptT.run (Pass.pass setup)).Speaks log (.done ended))
    (hReplies : (bustling ends allows).Replies s log t) (hTable : s.store.results.isSome = true)
    (hCount : EndsWithFailures past s.monitor.failures) :
    ∃ tasks, (ended = .ok () → Pass.Queues log tasks) ∧
      Goes setup.settings.maxConsecutiveFailures ended past tasks (ofLog log) ∧
        EndsWithFailures (past ++ statuses (ofLog log)) t.monitor.failures := by
  obtain ⟨hOff, hQueues⟩ | ⟨tasks, opening, turns, rfl, hOff, hQueues, hTurns⟩ := Pass.speaks_pass_turns hSpeaks
  · obtain ⟨hNone, hEnd⟩ := aside_of_replies hReplies hOff hCount
    rw [hNone]
    exact ⟨[], hQueues, .finished past, by simpa [statuses] using hEnd⟩
  · obtain ⟨u, hBefore, hAfter⟩ := Conduct.replies_append_iff.mp hReplies
    obtain ⟨hNone, hCount⟩ := aside_of_replies hBefore hOff hCount
    rw [Mark.ofLog_append, hNone, List.nil_append]
    exact ⟨tasks, fun _ => hQueues,
      goes_of_replies hQueues.isSome_ids hTurns hAfter ((isSome_results_of_replies hBefore).trans hTable) hCount⟩

/-- A pass on its own has no other marks than the pass. -/
theorem goes_of_runOnce (hSpeaks : (ExceptT.run (Pass.runOnce setup)).Speaks log (.done ended))
    (hReplies : (bustling ends allows).Replies s log t) (hTable : s.store.results.isSome = true)
    (hCount : EndsWithFailures past s.monitor.failures) :
    ∃ tasks, (ended = .ok () → Pass.Queues log tasks) ∧
      Goes setup.settings.maxConsecutiveFailures ended past tasks (ofLog log) ∧
        EndsWithFailures (past ++ statuses (ofLog log)) t.monitor.failures := by
  obtain ⟨_, log, rest, rfl, hPass, hRest⟩ := Engine.speaks_bind hSpeaks
  obtain ⟨u, hFirst, hLast⟩ := Conduct.replies_append_iff.mp hReplies
  obtain ⟨tasks, hQueues, hGoes, hEnd⟩ := goes_of_pass hPass hFirst hTable hCount
  obtain ⟨_, rfl, hIdle⟩ | ⟨_, rfl, rfl, rfl⟩ := hRest
  · obtain ⟨_, _, rfl, hDone⟩ := Program.speaks_ask_iff.mp hIdle
    obtain ⟨rfl, hOk⟩ := Program.speaks_done_iff.mp hDone
    cases hOk
    obtain ⟨hNone, hEnd⟩ := aside_of_replies hLast (List.forall_mem_singleton.mpr trivial) hEnd
    rw [Mark.ofLog_append, hNone, List.append_nil]
    exact ⟨tasks, fun _ => (hQueues rfl).append _, hGoes, hEnd⟩
  · obtain ⟨-, hEnd⟩ := aside_of_replies hLast (List.forall_mem_nil _) hEnd
    rw [List.append_nil]
    exact ⟨tasks, by simp, hGoes, hEnd⟩

/-! ### A stop that is asked for -/

theorem Bustles.stopRequested (h : Bustles ends allows s t) (hStop : s.monitor.stopRequested = true) :
    t.monitor.stopRequested = true := by
  cases h with
  | work _ hAnswer =>
      obtain ⟨_, _, rfl⟩ := frame_of_answersFinal hAnswer
      exact hStop
  | stop => rfl
  | finish | deed => exact hStop
  | age h =>
      obtain ⟨clock, -, rfl⟩ := h
      exact hStop

theorem stopRequested_of_replies (h : (bustling ends allows).Replies s log t)
    (hStop : s.monitor.stopRequested = true) : t.monitor.stopRequested = true := by
  refine h.keeps (P := fun u => u.monitor.stopRequested = true) ?_ ?_ hStop
  · exact fun u v hMove hStill => hMove.stopRequested hStill
  · exact fun x _ u v hAnswer hStill => by
      rw [monitor_of_answers hAnswer.1]
      exact Request.stopRequested_onMonitor hStill

theorem stopRequested_of_cut (h : (bustling ends allows).Replies s log t) (hCut : .cut ∈ ofLog log) :
    t.monitor.stopRequested = true := by
  obtain ⟨⟨r, a⟩, hMem, hMark⟩ := List.mem_filterMap.mp hCut
  have hStop : r = .stop := by
    unfold Exchange.mark? at hMark
    split at hMark <;> cases hMark
    rename_i hSame
    exact congrArg Sigma.fst hSame
  subst hStop
  obtain ⟨before, after, rfl⟩ := List.append_of_mem hMem
  obtain ⟨u, -, hAfter⟩ := Conduct.replies_append_iff.mp h
  obtain ⟨v, w, -, ⟨hAnswer, -⟩, hRest⟩ := hAfter.exists_first
  refine stopRequested_of_replies hRest ?_
  rw [monitor_of_answers hAnswer]
  rfl

end Scene

/-! ### Pass after pass -/

/-- A pass on its own, as it went. -/
structure PassRecord where
  log : List (Exchange Request.Answer)
  ended : Except Failure Unit

namespace PassRecord

def marks (p : PassRecord) : List Mark :=
  ofLog p.log

/-- How the tasks that were executed in some passes ended, in order. -/
def history (passes : List PassRecord) : List TaskStatus :=
  passes.flatMap fun p => statuses p.marks

/-- A pass is cut off where it has to be, if the tasks that were executed before have ended so, and by the end
a stop is asked for. -/
structure Heeds (p : PassRecord) (limit : Option Nat) (past : List TaskStatus) (t : Scene) : Prop where
  /-- After a task that is executed, the rest is cut off exactly if the last tasks that were executed, as many
  as the limit, have all failed. -/
  cut_iff {before after : List Mark} {τ : Task} {outcome : Outcome}
    (hMarks : p.marks = before ++ .executed τ outcome :: after) :
    after = [.cut] ↔ Trips limit (past ++ statuses (before ++ [.executed τ outcome]))
  /-- Nothing follows, and a stop is asked for. It never happens but after a task that was executed. -/
  last {before after : List Mark} (hMarks : p.marks = before ++ .cut :: after) :
    after = [] ∧ (∃ earlier τ outcome, before = earlier ++ [.executed τ outcome]) ∧
      t.monitor.stopRequested = true
  /-- Unless the pass fails, the tasks before it have their turn one after the other, and only a cut leaves any. -/
  served (hEnded : p.ended = .ok ()) : ∃ tasks left, Pass.Queues p.log (tasks ++ left) ∧
    List.Forall₂ Mark.IsOf (p.marks.filter (· ≠ .cut)) tasks ∧ (.cut ∉ p.marks → left = [])
  /-- Without a limit no pass is ever cut off. -/
  unlimited (hLimit : limit = none) : .cut ∉ p.marks

end PassRecord

namespace Scene

open PassRecord (history)

/-- Passes on their own, one after the other, each at some time, whether or not the one before has failed. -/
inductive Passes (setup : LoopSetup) (ends : String → Payload → Except Error Unit → Prop)
    (allows : Deed → Prop) : Scene → List PassRecord → Scene → Prop where
  | none (s : Scene) : Passes setup ends allows s [] s
  | pass {s t u : Scene} {clock : Tick} {p : PassRecord} {later : List PassRecord}
      (hSpeaks : (ExceptT.run (Pass.runOnce setup)).Speaks p.log (.done p.ended))
      (hReplies : (bustling ends allows).Replies { s with clock } p.log t)
      (rest : Passes setup ends allows t later u) : Passes setup ends allows s (p :: later) u

variable {ends : String → Payload → Except Error Unit → Prop} {allows : Deed → Prop} {s t : Scene}
  {passes : List PassRecord}

theorem Passes.stopRequested (h : Passes setup ends allows s passes t) (hStop : s.monitor.stopRequested = true) :
    t.monitor.stopRequested = true := by
  induction h with
  | none => exact hStop
  | pass _ hReplies _ ih => exact ih (stopRequested_of_replies hReplies hStop)

/-- The count of failures is right from pass to pass. -/
theorem Passes.goes (h : Passes setup ends allows s passes t) (hTable : s.store.results.isSome = true)
    {past : List TaskStatus} (hCount : EndsWithFailures past s.monitor.failures)
    {earlier later : List PassRecord} {p : PassRecord} (hSplit : passes = earlier ++ p :: later) :
    (∃ tasks, (p.ended = .ok () → Pass.Queues p.log tasks) ∧
      Goes setup.settings.maxConsecutiveFailures p.ended (past ++ history earlier) tasks p.marks) ∧
        (.cut ∈ p.marks → t.monitor.stopRequested = true) := by
  induction h generalizing past earlier with
  | none => simp at hSplit
  | @pass s _ _ clock _ _ hSpeaks hReplies rest ih =>
      replace hTable : { s with clock }.store.results.isSome = true := hTable
      obtain ⟨tasks, hQueues, hGoes, hEnd⟩ := goes_of_runOnce hSpeaks hReplies hTable hCount
      cases earlier with
      | nil =>
          obtain ⟨rfl, rfl⟩ := List.cons.inj hSplit
          refine ⟨⟨tasks, hQueues, ?_⟩, fun hCut => rest.stopRequested (stopRequested_of_cut hReplies hCut)⟩
          rwa [history, List.flatMap_nil, List.append_nil]
      | cons first earlier =>
          obtain ⟨rfl, hRest⟩ := List.cons.inj hSplit
          have hLater := ih ((isSome_results_of_replies hReplies).trans hTable) hEnd hRest
          rwa [List.append_assoc] at hLater

/-- In every pass that a scheduler makes on its own, whatever becomes of actions and reports and whatever
clients do, the rest of a pass is cut off exactly if as many tasks as the limit have failed in a row, over all
the passes that there were. -/
theorem breaker_trips_on_run_of_failures (hTable : s.store.results.isSome = true)
    (hFresh : s.monitor.failures = 0) (hPasses : Passes setup ends allows s passes t)
    {earlier later : List PassRecord} {p : PassRecord} (hSplit : passes = earlier ++ p :: later) :
    p.Heeds setup.settings.maxConsecutiveFailures (history earlier) t := by
  have hNone : EndsWithFailures [] s.monitor.failures := hFresh ▸ .nil
  obtain ⟨⟨tasks, hQueues, hGoes⟩, hStop⟩ := hPasses.goes hTable hNone hSplit
  rw [List.nil_append] at hGoes
  exact {
    cut_iff := hGoes.cut_iff
    last := fun hMarks => by
      obtain ⟨hAfter, hBefore⟩ := hGoes.after_cut hMarks
      exact ⟨hAfter, hBefore, hStop (by simp [hMarks])⟩
    served := fun hEnded => by
      obtain ⟨served, left, rfl, hServed, hLeft⟩ := hGoes.served
      exact ⟨served, left, hQueues hEnded, hServed, hLeft hEnded⟩
    unlimited := fun hLimit hCut => by
      obtain ⟨before, after, hMarks⟩ := List.append_of_mem hCut
      obtain ⟨rfl, earlier, τ, outcome, rfl⟩ := hGoes.after_cut hMarks
      rw [List.append_assoc] at hMarks
      obtain ⟨limit, hSome, -⟩ := (hGoes.cut_iff hMarks).mp rfl
      rw [hLimit] at hSome
      cases hSome }

/-! ### An overload -/

def appliance (name : String) (priority : Int32) (start : Tick) : Entry :=
  Draft.entryFrom ⟨name, "draw", some priority, some start, none, false, none, some "http://meter", none⟩ start none
    "first"

def household : Scene where
  store :=
    let appliances := [appliance "lamp" 1 1, appliance "oven" 2 1, appliance "fan" 1 2, appliance "iron" 2 2,
      appliance "kettle" 3 2]
    (appliances.foldlM Store.insertEntry .empty).toOption.getD .empty
  clock := 0

/-- Two failures in a row are too many. -/
def fused : LoopSetup where
  settings := { maxConsecutiveFailures := some 2 }
  hasNotifier := true

def unplug (s : Scene) (name : String) : Scene :=
  { s with store := ((Deed.delete name).apply s.store).toOption.getD s.store }

/-- Nothing but the lamp works, no report is delivered, and the fan is unplugged just before its turn. -/
def replyOverloaded : (r : Request) → Scene → r.Answer × Scene
  | .call task _, s =>
      (if task.entryName = "lamp" then .returned none else .failed ["overload"], s.note (.called task))
  | .entry name, s => replyUnheard (.entry name) (if name = "fan" then s.unplug name else s)
  | r, s => replyUnheard r s

/-- Surroundings in which anyone may unplug the fan. -/
abbrev unplugging : Conduct Request Request.Answer Scene :=
  bustling (fun _ _ _ => True) (· = .delete "fan")

theorem drifts_unplug (s : Scene) : unplugging.Drifts s (s.unplug "fan") := by
  unfold unplug
  cases hStore : (Deed.delete "fan").apply s.store with
  | ok store => exact .single (.deed rfl hStore)
  | error => exact .refl

theorem answers_replyOverloaded (r : Request) (s : Scene) : ∃ t, unplugging.Drifts s t ∧
    unplugging.answers r t (replyOverloaded r s).1 (replyOverloaded r s).2 := by
  have hUnheard (s : Scene) : ∃ t, unplugging.Drifts s t ∧
      unplugging.answers r t (replyUnheard r s).1 (replyUnheard r s).2 := by
    obtain ⟨t, hDrift, hAnswer⟩ := answers_replyUnheard r s
    have hWithin : quiet.Within unplugging := quiet_within_bustling
    exact ⟨t, Relation.ReflTransGen.mono (fun _ _ => hWithin.moves) _ _ hDrift, hWithin.answers hAnswer⟩
  cases r with
  | call => exact ⟨s, .refl, rfl, trivial⟩
  | entry name =>
      by_cases hFan : name = "fan"
      · subst hFan
        obtain ⟨t, hDrift, hAnswer⟩ := hUnheard (s.unplug "fan")
        exact ⟨t, (drifts_unplug s).trans hDrift, hAnswer⟩
      · simp only [replyOverloaded, if_neg hFan]
        exact hUnheard s
  | _ => exact hUnheard s

/-- A pass at some time, with these replies, and what comes of it. -/
def switchedOn (s : Scene) (clock : Tick) : PassRecord × Scene :=
  let pass := ExceptT.run (Pass.runOnce fused)
  (⟨pass.said replyOverloaded { s with clock }, (pass.run replyOverloaded { s with clock }).1⟩,
    (pass.run replyOverloaded { s with clock }).2)

theorem passes_switchedOn {s t : Scene} {clock : Tick} {later : List PassRecord}
    (rest : Passes fused (fun _ _ _ => True) (· = .delete "fan") (s.switchedOn clock).2 later t) :
    Passes fused (fun _ _ _ => True) (· = .delete "fan") s ((s.switchedOn clock).1 :: later) t := by
  have hSpeaks : Program.Speaks _ (Program.said replyOverloaded _ { s with clock }) _ :=
    Program.speaks_said (ExceptT.run (Pass.runOnce fused)) _
  exact .pass hSpeaks (Program.replies_said answers_replyOverloaded _ _) rest

def atDusk : PassRecord × Scene :=
  household.switchedOn 1

def atNight : PassRecord × Scene :=
  atDusk.2.switchedOn 2

def lampLit : Mark :=
  .executed ⟨1, 1, "draw", "lamp", some 1⟩ (.returned none)

def blown (name : String) (time : Tick) : Mark :=
  .executed ⟨time, 2, "draw", name, some 1⟩ (.failed ["overload"])

theorem marks_of_overload : atDusk.1.marks = [lampLit, blown "oven" 1] ∧
    atNight.1.marks = [.skipped "fan", blown "iron" 2, .cut] ∧
    (atNight.2.store.result? ⟨"lamp", 1⟩).map ResultRow.status = some "notification_failed" := by
  -- merge sort does not compute well, putting tasks in one by one does
  unfold atNight atDusk switchedOn Pass.runOnce Pass.pass Pass.passOver Pass.announced
  rw [TaskQueue.ofList_eq]
  decide +kernel

/-- The lamp counts as a success although nobody was told, and the fan does not count at all. With the iron two
have failed in a row, over two passes, and the kettle is left. -/
theorem breaker_trips_at_iron : ∃ t, Passes fused (fun _ _ _ => True) (· = .delete "fan") household
      [atDusk.1, atNight.1] t ∧
    atDusk.1.marks = [lampLit, blown "oven" 1] ∧ atNight.1.marks = [.skipped "fan", blown "iron" 2, .cut] ∧
    atDusk.1.Heeds (some 2) [] t ∧ atNight.1.Heeds (some 2) [.success, .failure] t ∧
    Trips (some 2) [.success, .failure, .failure] ∧ t.monitor.stopRequested = true ∧
    (t.store.result? ⟨"lamp", 1⟩).map ResultRow.status = some "notification_failed" := by
  obtain ⟨hDusk, hNight, hLamp⟩ := marks_of_overload
  have hPasses : Passes fused _ _ household [atDusk.1, atNight.1] atNight.2 :=
    passes_switchedOn (passes_switchedOn (.none _))
  have hFirst : atDusk.1.Heeds (some 2) [] atNight.2 :=
    breaker_trips_on_run_of_failures rfl rfl hPasses (List.nil_append _).symm
  have hHistory : history [atDusk.1] = [.success, .failure] := by
    rw [history, List.flatMap_singleton, hDusk]
    rfl
  have hSecond : atNight.1.Heeds (some 2) (history [atDusk.1]) atNight.2 :=
    breaker_trips_on_run_of_failures rfl rfl hPasses List.singleton_append.symm
  rw [hHistory] at hSecond
  have hIron : atNight.1.marks =
      [.skipped "fan"] ++ .executed ⟨2, 2, "draw", "iron", some 1⟩ (.failed ["overload"]) :: [.cut] := hNight
  have hCut : atNight.1.marks = [.skipped "fan", blown "iron" 2] ++ .cut :: [] := hNight
  exact ⟨_, hPasses, hDusk, hNight, hFirst, hSecond, (hSecond.cut_iff hIron).mp rfl, (hSecond.last hCut).2.2, hLamp⟩

end Scene

end TickScheduler
