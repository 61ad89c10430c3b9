import TickScheduler.Proofs.Engine.Rehearsal
import TickScheduler.Proofs.Results.Lives
/-!
The life cycle of a result in a pass whose reports are made at once: in progress before the action is
called, then a success or a failure, and a success that could not be reported in the end is said to be one.
-/
namespace TickScheduler

/-- Of elements with different keys, only one has a given key. -/
theorem flatMap_of_key {α β κ : Type} [DecidableEq κ] {key : α → κ} {f : α → List β} {all : List α} {x : α}
    (hDistinct : (all.map key).Nodup) (hx : x ∈ all) :
    (all.flatMap fun y => if key y = key x then f y else []) = f x := by
  obtain ⟨before, after, rfl⟩ := List.append_of_mem hx
  rw [List.map_append, List.map_cons, List.nodup_append, List.nodup_cons] at hDistinct
  obtain ⟨-, ⟨hAfter, -⟩, hBefore⟩ := hDistinct
  have hNone {part : List α} (hOther : ∀ y ∈ part, key y ≠ key x) :
      (part.flatMap fun y => if key y = key x then f y else []) = [] :=
    List.flatMap_eq_nil_iff.mpr fun y hy => if_neg (hOther y hy)
  rw [List.flatMap_append, List.flatMap_cons, hNone, hNone, if_pos rfl, List.append_nil, List.nil_append]
  · exact fun y hy hSame => hAfter (hSame ▸ List.mem_map_of_mem hy)
  · exact fun y hy => hBefore _ (List.mem_map_of_mem hy) _ List.mem_cons_self

namespace Scene

variable {ends : String → Payload → Except Error Unit → Prop} {allows : Deed → Prop} {s t : Scene}
  {log : List (Exchange Request.Answer)} {setup : LoopSetup}

/-- As long as there is a table for them, no result is refused. -/
theorem wrote_of_replies (hTable : s.store.results.isSome = true)
    (h : (bustling ends allows).Replies s log t) : ∀ x ∈ log, Exchange.Wrote x := by
  induction h with
  | stay => exact List.forall_mem_nil _
  | move first _ ih => exact ih (first.isSome_results.trans hTable)
  | @answer r a _ _ _ _ first _ ih =>
      refine List.forall_mem_cons.mpr ⟨?_, ih ((isSome_results_of_answers first.1).trans hTable)⟩
      cases r with
      | final r =>
          cases r with
          | record result keep => exact (recorded_of_answers hTable first.1).1
          | notify => exact trivial
      | _ => exact trivial

/-- What was executed is what was called. -/
theorem executed_of_replies (h : (bustling ends allows).Replies s log t) :
    t.executed = s.executed ++ log.filterMap Exchange.call? := by
  induction h with
  | stay => exact (List.append_nil _).symm
  | move first _ ih => rw [ih, first.executed_eq]
  | @answer r a _ _ _ log first _ ih =>
      by_cases hCall : ∃ task id, r = .call task id
      · obtain ⟨task, id, rfl⟩ := hCall
        have hNote := first.1
        obtain rfl := hNote
        rw [ih, executed_note, List.append_assoc]
        rfl
      · have hSame := executed_of_answers first.1 fun task id hSame => hCall ⟨task, id, hSame⟩
        have hNone : Exchange.call? ⟨r, a⟩ = none := by
          cases r <;> first | rfl | exact absurd ⟨_, _, rfl⟩ hCall
        rw [ih, hSame, List.filterMap_cons_none hNone]

/-- What is stored of a task whose results are the newest of its entry. -/
theorem result?_of_record {result : TaskResult} {keep : Nat} {store : Store} {name : String} {id : TaskId}
    (hStore : s.store.recordResult result keep = .ok store)
    (hWrites : result.entryName = name → result.taskId = id ∧ keep ≠ 0)
    (hNewest : ∀ i, s.store.HasResult name i → i ≤ id) :
    (∀ i, store.HasResult name i → i ≤ id) ∧ store.result? ⟨name, id⟩ =
      if result.entryName = name then some (.ofResult result) else s.store.result? ⟨name, id⟩ := by
  have hRecords := Store.records_of_recordResult hStore
  by_cases hName : result.entryName = name
  · subst hName
    obtain ⟨rfl, hKeep⟩ := hWrites rfl
    have hAll (i : TaskId) (hResult : store.HasResult result.entryName i) : i ≤ result.taskId := by
      obtain ⟨row, hRow⟩ := Option.isSome_iff_exists.mp hResult
      rcases hRecords.source _ _ hRow with ⟨hKey, -⟩ | ⟨-, hOld⟩
      · exact Int64.le_of_eq (ResultKey.mk.inj hKey).2
      · exact hNewest i (Option.isSome_of_mem hOld)
    obtain ⟨top, hLe, hTop⟩ := hRecords.kept hKeep result.taskId (.inl rfl)
    obtain rfl : top = result.taskId := Int64.le_antisymm (hAll top hTop) hLe
    refine ⟨hAll, ?_⟩
    obtain ⟨row, hRow⟩ := Option.isSome_iff_exists.mp hTop
    rcases hRecords.source _ _ hRow with ⟨-, rfl⟩ | ⟨hOther, -⟩
    · rw [if_pos rfl, hRow]
    · exact absurd rfl hOther
  · have hSame (i : TaskId) : store.result? ⟨name, i⟩ = s.store.result? ⟨name, i⟩ :=
      hRecords.other ⟨name, i⟩ fun hEq => hName hEq.symm
    refine ⟨fun i hResult => hNewest i ?_, ?_⟩
    · rwa [Store.HasResult, hSame] at hResult
    · rw [if_neg hName, hSame]

/-- The latest of what is written for a task is stored, if there is nothing newer. -/
theorem result?_of_replies {name : String} {id : TaskId} (hJobs : s.jobs = [])
    (hTable : s.store.results.isSome = true) (hKept : ¬ allows (.delete name))
    (hSpawn : ∀ x ∈ log, ∀ job, x.1 ≠ .spawn job)
    (hWrites : ∀ x ∈ log, ∀ result keep, x.1 = .final (.record result keep) → result.entryName = name →
      result.taskId = id ∧ keep ≠ 0)
    (hNewest : ∀ i, s.store.HasResult name i → i ≤ id) (h : (bustling ends allows).Replies s log t) :
    t.store.result? ⟨name, id⟩ =
      ((log.filterMap (Exchange.write? ⟨name, id⟩)).getLast?.map .ofResult).or
        (s.store.result? ⟨name, id⟩) := by
  induction h with
  | stay => rfl
  | @move s t u log first _ ih =>
      have hMoved : t.jobs = [] ∧ ∀ i, t.store.result? ⟨name, i⟩ = s.store.result? ⟨name, i⟩ := by
        cases first with
        | work hBusy | finish hBusy => simp [hJobs] at hBusy
        | age hAges =>
            obtain ⟨clock, -, rfl⟩ := hAges
            exact ⟨hJobs, fun _ => rfl⟩
        | stop => exact ⟨hJobs, fun _ => rfl⟩
        | deed hAllowed hStore =>
            exact ⟨hJobs, fun i => Deed.result?_of_kept hStore fun hSame => hKept (hSame ▸ hAllowed)⟩
      rw [ih hMoved.1 (first.isSome_results.trans hTable) hSpawn hWrites fun i hResult => hNewest i ?_, hMoved.2]
      rwa [Store.HasResult, hMoved.2] at hResult
  | @answer r a s t u log first _ ih =>
      rw [List.forall_mem_cons] at hSpawn hWrites
      have hSameJobs : t.jobs = [] := (jobs_of_answers first.1 hSpawn.1).trans hJobs
      have hNext := ih hSameJobs ((isSome_results_of_answers first.1).trans hTable) hSpawn.2 hWrites.2
      by_cases hRecord : ∃ result keep, r = .final (.record result keep)
      · obtain ⟨result, keep, rfl⟩ := hRecord
        obtain ⟨-, store, hStore, rfl⟩ := recorded_of_answers hTable first.1
        have hWritten := hWrites.1 result keep rfl
        obtain ⟨hStill, hFound⟩ := result?_of_record hStore hWritten hNewest
        rw [hNext hStill]
        change store.result? _ = _ at hFound
        change Option.or _ (store.result? _) = _
        rw [hFound]
        by_cases hName : result.entryName = name
        · have hWrite : Exchange.write? ⟨name, id⟩ ⟨.final (.record result keep), a⟩ = some result :=
            if_pos (by rw [hName, (hWritten hName).1])
          rw [if_pos hName, List.filterMap_cons_some hWrite, List.getLast?_cons]
          cases (log.filterMap (Exchange.write? ⟨name, id⟩)).getLast? <;> rfl
        · have hWrite : Exchange.write? ⟨name, id⟩ ⟨.final (.record result keep), a⟩ = none :=
            if_neg fun hKey => hName (ResultKey.mk.inj hKey).1
          rw [if_neg hName, List.filterMap_cons_none hWrite]
      · have hResult (i : TaskId) : t.store.result? ⟨name, i⟩ = s.store.result? ⟨name, i⟩ := by
          by_cases hFinal : ∃ r', r = .final r'
          · obtain ⟨r', rfl⟩ := hFinal
            cases r' with
            | record result keep => exact absurd ⟨result, keep, rfl⟩ hRecord
            | notify =>
                have hNote := first.1
                obtain rfl := hNote
                rfl
          · exact Store.result?_congr (results_of_answers first.1 (not_exists.mp hFinal)) _
        have hWrite : Exchange.write? ⟨name, id⟩ ⟨r, a⟩ = none := by
          cases r with
          | final r' =>
              cases r' with
              | record => exact absurd ⟨_, _, rfl⟩ hRecord
              | notify => rfl
          | _ => rfl
        rw [hNext fun i hOld => hNewest i ?_, hResult, List.filterMap_cons_none hWrite]
        rwa [Store.HasResult, hResult] at hOld

end Scene

namespace Life

variable (setup : LoopSetup) (l : Life)

/-- What is written of the result in the end. -/
def last : TaskResult :=
  if (l.job setup).isUndelivered l.delivery then { l.closing setup with status := .notificationFailed }
  else l.closing setup

/-- A life as it has to be, in a pass from one scene to another: who it is about, what was written and
reported of it, and what is stored in the end. -/
structure Unfolds (log : List (Exchange Request.Answer)) (allows : Deed → Prop) (s t : Scene) : Prop where
  isOf : l.task.taskId = some l.id ∧ l.entry.name = l.task.entryName
  /-- First the task is in progress, then it has succeeded or failed, and a success that was reported in
  vain is said to be one. There are no other writes. -/
  writes : log.filterMap (Exchange.write? l.key) =
    [l.opening, l.closing setup] ++
      if (l.job setup).isUndelivered l.delivery then
        [{ l.closing setup with status := .notificationFailed }]
      else []
  isInProgress : l.opening.status = .inProgress
  /-- It fails exactly if the action is unknown, reports an error or breaks off. -/
  fails_iff : (l.closing setup).status = .failure ↔
    l.outcome = .unknown ∨ (∃ chain, l.outcome = .failed chain) ∨ ∃ message, l.outcome = .panicked message
  succeeds_iff : (l.closing setup).status = .success ↔ ∃ detail, l.outcome = .returned detail
  isUndelivered_iff : (l.job setup).isUndelivered l.delivery = true ↔
    (∃ url, l.receiver setup = some url) ∧ (∃ e, l.delivery = .error e) ∧
      ∃ detail, l.outcome = .returned detail
  /-- What is reported is whether it has succeeded. -/
  reported : (l.payload setup).status = (l.closing setup).status
  detail : IsLongestBeginning setup.settings.maxDetailLen l.text (l.closing setup).detail
  /-- Unless something newer is stored, or the entry may be deleted, the last of the writes is there. -/
  stored : ¬ allows (.delete l.entry.name) → (∀ id, s.store.HasResult l.entry.name id → id ≤ l.id) →
    t.store.result? l.key = some (.ofResult (l.last setup))

/-! ### Lives in a transcript -/

section Log

variable {setup} {lives : List Life} {log : List (Exchange Request.Answer)}
  (hLives : log.filter Exchange.isAboutTask = lives.flatMap (·.exchanges setup))
include hLives

theorem filterMap_log {β : Type} {f : Exchange Request.Answer → Option β}
    (hOther : ∀ {x}, Exchange.isAboutTask x = false → f x = none) :
    log.filterMap f = lives.flatMap fun l => (l.exchanges setup).filterMap f := by
  have hSame : (log.filter Exchange.isAboutTask).filterMap f = log.filterMap f := by
    rw [List.filterMap_filter]
    refine List.filterMap_congr fun x _ => ?_
    cases hAbout : Exchange.isAboutTask x with
    | true => rfl
    | false => exact (hOther hAbout).symm
  rw [← hSame, hLives, List.filterMap_flatMap]

theorem exists_of_mem_log {x : Exchange Request.Answer} (hx : x ∈ log) (hAbout : x.isAboutTask = true) :
    ∃ l ∈ lives, x ∈ l.exchanges setup := by
  have hFiltered : x ∈ log.filter Exchange.isAboutTask := List.mem_filter.mpr ⟨hx, hAbout⟩
  rwa [hLives, List.mem_flatMap] at hFiltered

theorem mem_log {l : Life} (hl : l ∈ lives) {x : Exchange Request.Answer} (hx : x ∈ l.exchanges setup) :
    x ∈ log := by
  have hFlat : x ∈ lives.flatMap (·.exchanges setup) := List.mem_flatMap.mpr ⟨l, hl, hx⟩
  rw [← hLives] at hFlat
  exact List.mem_of_mem_filter hFlat

theorem not_spawn {x : Exchange Request.Answer} (hx : x ∈ log) (job : Finalisation) : x.1 ≠ .spawn job := by
  obtain ⟨r, a⟩ := x
  rintro rfl
  obtain ⟨_, -, hIn⟩ := exists_of_mem_log hLives hx rfl
  rcases mem_exchanges hIn with hSame | hSame | ⟨_, _, hSame⟩ | ⟨_, hSame, -⟩ <;> cases hSame

/-- Whatever is written belongs to a life. -/
theorem exists_of_record {x : Exchange Request.Answer} (hx : x ∈ log) {result : TaskResult} {keep : Nat}
    (hRecord : x.1 = .final (.record result keep)) : keep = setup.settings.maxTaskResults ∧
      ∃ l ∈ lives, result.entryName = l.entry.name ∧ result.taskId = l.id := by
  obtain ⟨r, a⟩ := x
  obtain rfl : r = _ := hRecord
  obtain ⟨l, hl, hIn⟩ := exists_of_mem_log hLives hx rfl
  rcases mem_exchanges hIn with hSame | hSame | ⟨_, _, hSame⟩ | ⟨_, hSame, hOf, hId⟩
  · cases hSame
  · cases hSame
  · cases hSame
  · cases hSame
    exact ⟨rfl, l, hl, hOf, hId⟩

end Log

end Life

namespace Scene

variable {ends : String → Payload → Except Error Unit → Prop} {allows : Deed → Prop} {s t : Scene}
  {log : List (Exchange Request.Answer)} {setup : LoopSetup}

/-- Replies in which actions succeed but no report is delivered. -/
def replyUnheard : (r : Request) → Scene → r.Answer × Scene
  | .final (.notify url payload), s => (.error (.callback "nobody there"), s.note (.notified url payload))
  | r, s => reply (fun _ => .returned none) r s

theorem answers_replyUnheard (r : Request) (s : Scene) :
    ∃ t, quiet.Drifts s t ∧ Answers False r t (replyUnheard r s).1 (replyUnheard r s).2 := by
  have hOther := answers_reply (fun _ => .returned none) r s
  cases r with
  | final r =>
      cases r with
      | notify => exact ⟨s, .refl, rfl⟩
      | record => exact hOther
  | _ => exact hOther

/-- Someone is to be told of an entry. -/
def doorstep : Scene where
  store :=
    let bell : Draft := ⟨"bell", "ring", none, some 1, none, false, none, some "http://door", none⟩
    (Store.empty.insertEntry (bell.entryFrom 1 none "first")).toOption.getD .empty
  clock := 1

def audible : LoopSetup where
  hasNotifier := true

def rung : Except Failure Unit × Scene :=
  (ExceptT.run (Pass.pass audible)).run replyUnheard doorstep

theorem rung_executes : rung.1 = .ok () ∧ rung.2.executed = [⟨1, 10, "ring", "bell", some 1⟩] ∧
    (rung.2.store.result? ⟨"bell", 1⟩).map ResultRow.status = some "notification_failed" := by
  -- merge sort does not compute well, putting tasks in one by one does
  unfold rung Pass.pass Pass.passOver Pass.announced
  rw [TaskQueue.ofList_eq]
  decide +kernel

end Scene

end TickScheduler
