import TickScheduler.Proofs.Failures.Fates
/-!
Failures stay with their entry. Two runs of passes at the same ticks, in which the tasks of one entry end
differently and their reports fare differently, run the same tasks and leave the same entries, the same
upcoming tasks and the same results of every other entry.
-/
namespace TickScheduler

/-- A pass that is made: at which tick, and whether on its own or in the course of a run. -/
structure Turn where
  clock : Tick
  alone : Bool := true

def Turn.pass (setup : LoopSetup) (turn : Turn) : Engine Unit :=
  if turn.alone then Pass.runOnce setup else Pass.pass setup

theorem Turn.masks_pass {setup : LoopSetup} (hLimit : setup.settings.maxConsecutiveFailures = none)
    (turn : Turn) (name : String) :
    Engine.Masks name setup.callback.resultBaseUrl Eq (turn.pass setup) (turn.pass setup) := by
  unfold pass
  split
  · exact Pass.masks_runOnce hLimit
  · exact Pass.masks_pass hLimit

theorem Turn.keeps_pass {setup : LoopSetup} {φ : Course} (turn : Turn) :
    Course.Keeps setup False (turn.pass setup) (fun _ _ => True) φ := by
  unfold pass
  split
  · exact Course.keeps_runOnce
  · exact Program.Obeys.mono (fun _ _ _ _ _ => trivial) Course.keeps_pass

namespace FinalRequest

variable {name n : String} {t u : Table ResultRow ResultRow.key}

/-- What a request makes of the results of an entry is a matter of these alone. -/
theorem resultsOf_write (r : FinalRequest) (h : Store.resultsOf t n = Store.resultsOf u n) :
    Store.resultsOf (write t r) n = Store.resultsOf (write u r) n := by
  cases r with
  | record result keep => rw [write, write, Store.resultsOf_recorded, Store.resultsOf_recorded, h]
  | notify => exact h

theorem resultsOf_write_of_own {r : FinalRequest} (hOther : n ≠ name) (hOwn : ¬ r.isOfOther name = true) :
    Store.resultsOf (write t r) n = Store.resultsOf t n := by
  cases r with
  | record result keep =>
      obtain rfl : result.entryName = name := by simpa [isOfOther] using hOwn
      rw [write, Store.resultsOf_recorded, if_neg]
      exact fun hSame => hOther hSame.symm
  | notify => rfl

/-- The results of an entry are a matter of what is written of it. -/
theorem resultsOf_foldl_write (hOther : n ≠ name) (rs : List FinalRequest)
    (h : Store.resultsOf t n = Store.resultsOf u n) :
    Store.resultsOf (rs.foldl write t) n =
      Store.resultsOf ((rs.filter (·.isOfOther name)).foldl write u) n := by
  induction rs generalizing t u with
  | nil => exact h
  | cons r rest ih =>
      rw [List.foldl_cons, List.filter_cons]
      split
      · exact ih (resultsOf_write r h)
      · rename_i hOwn
        exact ih ((resultsOf_write_of_own hOther hOwn).trans h)

end FinalRequest

namespace Fated

/-- The clock is set to a tick, and nothing else is touched. -/
def setClock (s : Fated) (clock : Tick) : Fated :=
  { s with scene := { s.scene with clock } }

/-- Passes are made one after the other, whether or not the one before has failed. They end like this, and
this is said in them. -/
inductive Passes (setup : LoopSetup) (f : Fate) : Fated → List Turn → List (Except Failure Unit) →
    List (Exchange Request.Answer) → Fated → Prop where
  | none (s : Fated) : Passes setup f s [] [] [] s
  | pass {s t u : Fated} {turn : Turn} {turns : List Turn} {ended : Except Failure Unit}
      {ends : List (Except Failure Unit)} {log more : List (Exchange Request.Answer)}
      (hSpeaks : (ExceptT.run (turn.pass setup)).Speaks log (.done ended))
      (hReplies : f.conduct.Replies (s.setClock turn.clock) log t) (rest : Passes setup f t turns ends more u) :
      Passes setup f s (turn :: turns) (ended :: ends) (log ++ more) u

variable {setup : LoopSetup} {f g : Fate} {name : String} {s t u v : Fated} {turns : List Turn}
  {ends ends' : List (Except Failure Unit)} {log other : List (Exchange Request.Answer)}

theorem Alike.setClock (h : Alike s u) (clock : Tick) : Alike (s.setClock clock) (u.setClock clock) :=
  ⟨h.entries_eq, h.tables_eq, rfl, h.monitor_eq, h.executed_eq, h.looks_eq⟩

namespace Passes

theorem isSome_results (hPasses : Passes setup f s turns ends log t) :
    t.scene.store.results.isSome = s.scene.store.results.isSome := by
  induction hPasses with
  | none => rfl
  | pass _ hReplies _ ih =>
      have hFirst := isSome_results_of_replies hReplies
      exact ih.trans hFirst

/-- Passes stay in step under two fates that differ in nothing but what becomes of one entry's tasks. -/
theorem inStep (hLimit : setup.settings.maxConsecutiveFailures = Option.none)
    (hAgree : f.AgreeBut name setup.callback.resultBaseUrl g) (hPasses : Passes setup f s turns ends log t)
    (hOther : Passes setup g u turns ends' other v) (h : Alike s u) :
    ends' = ends ∧ Alike t v ∧
      (s.scene.store.results.isSome = true → f.writesOfOthers name log = g.writesOfOthers name other) := by
  induction hPasses generalizing u ends' other with
  | none =>
      cases hOther
      exact ⟨rfl, h, fun _ => rfl⟩
  | @pass _ _ _ turn _ _ _ _ _ hSpeaks hReplies _ ih =>
      cases hOther with
      | pass hOtherSpeaks hOtherReplies hRest =>
          obtain ⟨rfl, hNext, hFirst⟩ := inStep_of_masks (turn.masks_pass hLimit name).ends_eq hAgree
            hSpeaks hOtherSpeaks hReplies hOtherReplies (h.setClock turn.clock)
          obtain ⟨rfl, hEnd, hWrites⟩ := ih hRest hNext
          refine ⟨rfl, hEnd, fun hTable => ?_⟩
          rw [writes_append, writes_append, hFirst hTable, hWrites ((isSome_results_of_replies hReplies).trans hTable)]

/-- What is stored and reported after passes is what was asked for in them. -/
theorem accounts (hPasses : Passes setup f s turns ends log t)
    (hOrderly : s.scene.Orderly setup.settings.maxTaskResults) (hTable : s.scene.store.results.isSome = true) :
    Scene.Accounts f.delivers s.scene (log.flatMap (Exchange.closings f.delivers)) t.scene ∧
      t.scene.Orderly setup.settings.maxTaskResults ∧ t.scene.store.results.isSome = true := by
  induction hPasses with
  | none => exact ⟨.of_same rfl rfl rfl, hOrderly, hTable⟩
  | @pass s _ _ turn _ _ _ _ _ hSpeaks hReplies _ ih =>
      -- setting the clock neither stores nor reports anything
      have hSet : Scene.Accounts f.delivers s.scene [] (s.setClock turn.clock).scene := .of_same rfl rfl rfl
      have hStill : (s.setClock turn.clock).scene.Orderly setup.settings.maxTaskResults :=
        ⟨hOrderly.past, hOrderly.apart⟩
      obtain ⟨hFirst, hNext, hTables⟩ := Scene.accounts_of_replies hStill hTable (fun _ => turn.keeps_pass) hSpeaks
        (Fate.replies_scene hReplies)
      obtain ⟨hRest, hEnd⟩ := ih hNext hTables
      rw [List.flatMap_append]
      exact ⟨(hSet.trans hFirst).trans hRest, hEnd⟩

section Flushed

variable (hPasses : Passes setup f s turns ends log t) (hDrift : f.conduct.Drifts t u)
  (hStart : s.scene.jobs = []) (hEnd : u.scene.jobs = [])
include hPasses hDrift hStart hEnd

/-- When the background has come to its end, what is stored is what was asked for. -/
theorem results_eq (hTable : s.scene.store.results.isSome = true) :
    u.scene.store.results = s.scene.store.results.map fun table =>
      (log.flatMap (Exchange.closings f.delivers)).foldl FinalRequest.write table := by
  obtain ⟨hAccounts, hOrderly, hTables⟩ := hPasses.accounts (Scene.orderly_of_idle hStart) hTable
  have hNothing (φ : Course) : Program.Obeys (Course.discipline setup False) (fun _ _ => True)
      (.done () : Program Request Request.Answer Unit) φ := trivial
  obtain ⟨hRest, -⟩ := Scene.accounts_of_replies hOrderly hTables hNothing (.stay _)
    (Fate.replies_scene (.of_drifts hDrift (.stay u)))
  have hResults := (hAccounts.trans hRest).results
  rw [Scene.pending, Scene.pending, hStart, hEnd, List.flatMap_nil, List.flatMap_nil, List.append_nil] at hResults
  rw [List.nil_append] at hResults
  exact Option.map_id_apply.symm.trans hResults

/-- Of another entry it is what was asked of others. -/
theorem result?_eq {key : ResultKey} (hKey : key.entryName ≠ name) :
    u.scene.store.result? key = s.scene.store.results.bind fun table =>
      ((f.writesOfOthers name log).foldl FinalRequest.write table).find? key := by
  cases hTable : s.scene.store.results with
  | none =>
      have hTables := (Alike.of_drifts hDrift).tables_eq.trans hPasses.isSome_results
      rw [Store.result?, results_eq_none hTables hTable]
      rfl
  | some table =>
      have hSome : s.scene.store.results.isSome = true := by rw [hTable]; rfl
      rw [Store.result?, results_eq hPasses hDrift hStart hEnd hSome, hTable]
      exact Store.find?_congr_of_resultsOf (FinalRequest.resultsOf_foldl_write hKey _ rfl)

end Flushed

end Passes

/-- Passes are made, and after them the background comes to its end. -/
def Runs (setup : LoopSetup) (f : Fate) (s : Fated) (turns : List Turn) (ends : List (Except Failure Unit))
    (t : Fated) : Prop :=
  ∃ log u, Passes setup f s turns ends log u ∧ f.conduct.Drifts u t ∧ t.scene.jobs = []

/-- Runs at the same ticks, given the same but for what becomes of the tasks of one entry and of their reports,
end alike, run the same tasks, and leave the same entries, upcoming tasks and results of every other entry. -/
theorem failures_confined (hLimit : setup.settings.maxConsecutiveFailures = none)
    (hAgree : f.AgreeBut name setup.callback.resultBaseUrl g) (hStart : s.scene.jobs = [])
    (hRun : Runs setup f s turns ends t) (hOther : Runs setup g s turns ends' u) :
    ends' = ends ∧ u.scene.executed = t.scene.executed ∧ u.scene.store.entries = t.scene.store.entries ∧
      u.scene.monitor.upcoming = t.scene.monitor.upcoming ∧
      ∀ key, key.entryName ≠ name → u.scene.store.result? key = t.scene.store.result? key := by
  obtain ⟨log, t', hPasses, hDrift, hEnd⟩ := hRun
  obtain ⟨other, u', hOtherPasses, hOtherDrift, hOtherEnd⟩ := hOther
  obtain ⟨hEnds, hPassed, hWrites⟩ := hPasses.inStep hLimit hAgree hOtherPasses (.refl s)
  have hAlike : Alike t u := (Alike.of_drifts hDrift).symm.trans (hPassed.trans (.of_drifts hOtherDrift))
  obtain ⟨failures, hMonitor⟩ := hAlike.monitor_eq
  refine ⟨hEnds, hAlike.executed_eq, hAlike.entries_eq, by rw [hMonitor], fun key hKey => ?_⟩
  rw [hPasses.result?_eq hDrift hStart hEnd hKey, hOtherPasses.result?_eq hOtherDrift hStart hOtherEnd hKey]
  cases hTable : s.scene.store.results with
  | none => rfl
  | some table => rw [hWrites (by rw [hTable]; rfl)]

end Fated

/-! ### A choir of two -/

namespace Fate

/-- Answers a request as the fate will have it. -/
def reply (f : Fate) : (r : Request) → Fated → r.Answer × Fated
  | .timestamp, s => (f.stamp s.looks, { s with looks := s.looks + 1 })
  | .call task _, s => (f.outcome s.looks task, { s with scene := s.scene.note (.called task) })
  | .final (.notify url payload), s =>
      (f.delivers url payload, { s with scene := s.scene.note (.notified url payload) })
  | r, s =>
      let (a, scene) := Scene.reply (fun _ => .unknown) r s.scene
      (a, { s with scene })

theorem answers_reply (f : Fate) {r : Request} (hNoDrain : r ≠ .drain) (s : Fated) :
    f.conduct.answers r s (f.reply r s).1 (f.reply r s).2 := by
  have hScene := Scene.answers_reply_at_once (fun _ => .unknown) hNoDrain s.scene
  cases r with
  | timestamp => exact ⟨⟨rfl, trivial⟩, rfl, rfl⟩
  | call => exact ⟨⟨rfl, trivial⟩, rfl, rfl⟩
  | final r =>
      cases r with
      | notify => exact ⟨⟨rfl, rfl⟩, trivial, rfl⟩
      | record => exact ⟨⟨hScene, trivial⟩, trivial, rfl⟩
  | _ => exact ⟨⟨hScene, trivial⟩, trivial, rfl⟩

end Fate

namespace Fated

/-- What a single pass comes to if every request is answered at once. -/
def sung (f : Fate) : Except Failure Unit × Fated :=
  (ExceptT.run (Pass.runOnce Scene.attended)).run f.reply (setClock ⟨Scene.duet, 0⟩ 1)

theorem runs_sung (f : Fate) (hJobs : (sung f).2.scene.jobs = []) :
    Runs Scene.attended f ⟨Scene.duet, 0⟩ [{ clock := 1 }] [(sung f).1] (sung f).2 := by
  have hAsks : (ExceptT.run (Pass.runOnce Scene.attended)).Asks fun r => r ≠ .drain := Pass.asks_runOnce
  have hReplies := Program.replies_said_of_asks (fun _ s hNoDrain => f.answers_reply hNoDrain s) hAsks
    (setClock ⟨Scene.duet, 0⟩ 1)
  refine ⟨_, _, .pass ?_ hReplies (.none _), .refl, hJobs⟩
  exact Program.speaks_said _ _

/-- The action of alto breaks off, and both are heard of. -/
def hoarse : Fate where
  stamp looks := ⟨looks, 0, .inl (by decide)⟩
  outcome _ τ := if τ.entryName == "alto" then .panicked none else .returned none
  delivers _ _ := .ok ()

/-- Both actions succeed, but nobody hears of alto. -/
def unheard : Fate where
  stamp looks := ⟨looks, 0, .inl (by decide)⟩
  outcome _ _ := .returned none
  delivers _ payload :=
    if payload.entryUrl == Payload.trimBase Scene.attended.callback.resultBaseUrl ++ "/schedule/" ++ "alto" then
      .error (.callback "nobody there")
    else .ok ()

theorem hoarse_agrees_unheard : hoarse.AgreeBut "alto" Scene.attended.callback.resultBaseUrl unheard where
  stamp_eq := rfl
  outcome_eq _ _ hOther := (if_neg fun hSame => hOther (beq_iff_eq.mp hSame)).symm
  delivers_eq _ _ hOther := if_neg fun hSame => hOther ((String.append_right_inj _).mp (beq_iff_eq.mp hSame))

theorem sung_leaves : (∀ f ∈ [hoarse, unheard], (sung f).2.scene.jobs.isEmpty = true) ∧
    ((sung hoarse).2.scene.store.result? ⟨"alto", 1⟩).map ResultRow.status = some "failure" ∧
    ((sung unheard).2.scene.store.result? ⟨"alto", 1⟩).map ResultRow.status = some "notification_failed" ∧
    ((sung unheard).2.scene.store.result? ⟨"bass", 1⟩).map ResultRow.status = some "success" ∧
    (sung hoarse).2.scene.store.resultNumbers.numbers = [(⟨"bass", 1⟩, 3), (⟨"alto", 1⟩, 1)] ∧
    (sung unheard).2.scene.store.resultNumbers.numbers = [(⟨"bass", 1⟩, 4), (⟨"alto", 1⟩, 1)] := by
  -- merge sort does not compute well, putting tasks in one by one does
  unfold sung Pass.runOnce Pass.pass Pass.passOver Pass.announced
  rw [TaskQueue.ofList_eq]
  decide +kernel

theorem runs_hoarse : Runs Scene.attended hoarse ⟨Scene.duet, 0⟩ [{ clock := 1 }] [(sung hoarse).1] (sung hoarse).2 :=
  runs_sung hoarse (List.isEmpty_iff.mp (sung_leaves.1 _ (by simp)))

theorem runs_unheard :
    Runs Scene.attended unheard ⟨Scene.duet, 0⟩ [{ clock := 1 }] [(sung unheard).1] (sung unheard).2 :=
  runs_sung unheard (List.isEmpty_iff.mp (sung_leaves.1 _ (by simp)))

/-- The number of a row is taken when it comes into being, and writing again over an older row takes one too. So
bass is numbered by what becomes of alto. -/
theorem numbered_by_failures : ∃ ends ends' t u,
    Runs Scene.attended hoarse ⟨Scene.duet, 0⟩ [{ clock := 1 }] ends t ∧
      Runs Scene.attended unheard ⟨Scene.duet, 0⟩ [{ clock := 1 }] ends' u ∧
      hoarse.AgreeBut "alto" Scene.attended.callback.resultBaseUrl unheard ∧
      t.scene.store.resultNumbers.find? ⟨"bass", 1⟩ = some 3 ∧
      u.scene.store.resultNumbers.find? ⟨"bass", 1⟩ = some 4 := by
  obtain ⟨-, -, -, -, hNumbers, hOtherNumbers⟩ := sung_leaves
  refine ⟨_, _, _, _, runs_hoarse, runs_unheard, hoarse_agrees_unheard, ?_, ?_⟩
  · rw [Numbering.find?, hNumbers]
    rfl
  · rw [Numbering.find?, hOtherNumbers]
    rfl

/-- What becomes of alto differs, but bass succeeds all the same. -/
theorem failures_confined_to_alto : ∃ ends ends' t u,
    Runs Scene.attended hoarse ⟨Scene.duet, 0⟩ [{ clock := 1 }] ends t ∧
      Runs Scene.attended unheard ⟨Scene.duet, 0⟩ [{ clock := 1 }] ends' u ∧ ends' = ends ∧
      u.scene.executed = t.scene.executed ∧ u.scene.store.entries = t.scene.store.entries ∧
      u.scene.monitor.upcoming = t.scene.monitor.upcoming ∧
      (t.scene.store.result? ⟨"bass", 1⟩).map ResultRow.status = some "success" ∧
      (t.scene.store.result? ⟨"alto", 1⟩).map ResultRow.status = some "failure" ∧
      (u.scene.store.result? ⟨"alto", 1⟩).map ResultRow.status = some "notification_failed" := by
  obtain ⟨-, hAlto, hOtherAlto, hBass, -, -⟩ := sung_leaves
  obtain ⟨hEnds, hExecuted, hEntries, hUpcoming, hResults⟩ :=
    failures_confined rfl hoarse_agrees_unheard rfl runs_hoarse runs_unheard
  refine ⟨_, _, _, _, runs_hoarse, runs_unheard, hEnds, hExecuted, hEntries, hUpcoming, ?_, hAlto, hOtherAlto⟩
  rw [← hResults ⟨"bass", 1⟩ (by simp), hBass]

end Fated

end TickScheduler
