import TickScheduler.Proofs.Failures.Masking
import TickScheduler.Proofs.Results.Background
/-!
Fates: all that a run is given from outside. If two fates differ only in how the tasks of one entry end and in
what becomes of their reports, then passes of the loop go the same way under both, and write the same about
every other entry.
-/
namespace TickScheduler

structure Fate where
  /-- The time of day, by how often it was asked for before. -/
  stamp : Nat → Timestamp
  /-- How an action ends, by how often the time of day was asked for before. -/
  outcome : Nat → Task → Outcome
  delivers : String → Payload → Except Error Unit

/-- A scene, and how often the time of day was asked for. -/
structure Fated where
  scene : Scene
  looks : Nat := 0

namespace Fate

/-- The fates differ at most in how the tasks of an entry end, and in whether their reports are delivered if
these are made under this address. -/
structure AgreeBut (name base : String) (f g : Fate) : Prop where
  stamp_eq : g.stamp = f.stamp
  outcome_eq : ∀ looks τ, τ.entryName ≠ name → g.outcome looks τ = f.outcome looks τ
  delivers_eq : ∀ url result, result.entryName ≠ name →
    g.delivers url (.ofResult result base) = f.delivers url (.ofResult result base)

/-- Which answers are as the fate will have them. -/
def Gives (f : Fate) (looks : Nat) : (r : Request) → r.Answer → Prop
  | .timestamp, a => a = f.stamp looks
  | .call τ _, a => a = f.outcome looks τ
  | _, _ => True

def looksAfter (looks : Nat) : Request → Nat
  | .timestamp => looks + 1
  | _ => looks

/-- Nobody but the loop and its background does anything: what happens of itself leaves entries, clock and
monitor as they are. -/
def conduct (f : Fate) : Conduct Request Request.Answer Fated where
  answers r s a t := (Scene.predictable f.delivers).answers r s.scene a t.scene ∧ f.Gives s.looks r a ∧
    t.looks = looksAfter s.looks r
  moves s t := (Scene.predictable f.delivers).moves s.scene t.scene ∧
    t.scene.store.entries = s.scene.store.entries ∧ t.scene.clock = s.scene.clock ∧
      t.scene.monitor = s.scene.monitor ∧ t.looks = s.looks

/-- What the scene comes to is one of the things that predictable surroundings can come to. -/
theorem replies_scene {f : Fate} {s t : Fated} {log : List (Exchange Request.Answer)}
    (h : f.conduct.Replies s log t) : (Scene.predictable f.delivers).Replies s.scene log t.scene := by
  induction h with
  | stay => exact .stay _
  | move first _ ih => exact .move first.1 ih
  | answer first _ ih => exact .answer first.1 ih

end Fate

namespace Scene

variable {s t : Scene} {r : Request} {a : r.Answer}

/-- If reading cannot fail, the answer is what was read. -/
theorem Reads.answer_eq {Result : Type} {actual answer : Except Error Result} (h : Reads False actual answer) :
    answer = actual :=
  h.resolve_right And.left

/-- Without a table no result is recorded. -/
theorem refused_of_answers {result : TaskResult} {keep : Nat} {a : Except Error Unit}
    (hTable : s.store.results = none) (h : AnswersFinal False (.record result keep) s a t) :
    a = .error (.database (.noTable Store.resultTableName)) := by
  have hAttempt : s.store.recordResult result keep = .error (.database (.noTable Store.resultTableName)) := by
    simp [Store.recordResult, Store.resultTable, hTable, bind, Except.bind]
  rcases h with ⟨store, hStore, -, -⟩ | ⟨e, rfl, -, hError | hFalse⟩
  · cases hStore.symm.trans hAttempt
  · cases hError.symm.trans hAttempt
    rfl
  · exact hFalse.elim

end Scene

namespace Fated

/-- The same to the loop, wherever results and reports are and however many tasks have failed in a row. -/
structure Alike (s t : Fated) : Prop where
  entries_eq : t.scene.store.entries = s.scene.store.entries
  tables_eq : t.scene.store.results.isSome = s.scene.store.results.isSome
  clock_eq : t.scene.clock = s.scene.clock
  monitor_eq : ∃ failures, t.scene.monitor = { s.scene.monitor with failures }
  executed_eq : t.scene.executed = s.scene.executed
  looks_eq : t.looks = s.looks

variable {s t u v : Fated} {f g : Fate} {name base : String} {r : Request} {a : r.Answer}
  {log : List (Exchange Request.Answer)}

theorem results_eq_none (hTables : t.scene.store.results.isSome = s.scene.store.results.isSome)
    (hNone : s.scene.store.results = none) : t.scene.store.results = none := by
  rw [hNone] at hTables
  exact Option.isNone_iff_eq_none.mp (Option.isSome_eq_false_iff.mp hTables)

namespace Alike

theorem refl (s : Fated) : Alike s s :=
  ⟨rfl, rfl, rfl, ⟨_, rfl⟩, rfl, rfl⟩

theorem symm (h : Alike s t) : Alike t s where
  entries_eq := h.entries_eq.symm
  tables_eq := h.tables_eq.symm
  clock_eq := h.clock_eq.symm
  monitor_eq := by
    obtain ⟨failures, hMonitor⟩ := h.monitor_eq
    exact ⟨s.scene.monitor.failures, by rw [hMonitor]⟩
  executed_eq := h.executed_eq.symm
  looks_eq := h.looks_eq.symm

theorem trans (left : Alike s t) (right : Alike t u) : Alike s u where
  entries_eq := right.entries_eq.trans left.entries_eq
  tables_eq := right.tables_eq.trans left.tables_eq
  clock_eq := right.clock_eq.trans left.clock_eq
  monitor_eq := by
    obtain ⟨_, hLeft⟩ := left.monitor_eq
    obtain ⟨failures, hRight⟩ := right.monitor_eq
    exact ⟨failures, by rw [hRight, hLeft]⟩
  executed_eq := right.executed_eq.trans left.executed_eq
  looks_eq := right.looks_eq.trans left.looks_eq

/-- The background does nothing that the loop can see. -/
theorem of_drifts (h : f.conduct.Drifts s t) : Alike s t := by
  induction h with
  | refl => exact refl s
  | tail _ last ih =>
      obtain ⟨hBustles, hEntries, hClock, hMonitor, hLooks⟩ := last
      refine ih.trans ⟨hEntries, Scene.Bustles.isSome_results hBustles, hClock, ⟨_, hMonitor⟩, ?_, hLooks⟩
      exact Scene.Bustles.executed_eq hBustles

/-- What is about results and reports, and the counting of failures. -/
theorem of_silent (hSilent : (∃ r', r = .final r') ∨ (∃ job, r = .spawn job) ∨ ∃ failed, r = .countOutcome failed)
    (h : f.conduct.answers r s a t) : Alike s t := by
  obtain ⟨⟨hAnswer, -⟩, -, hLooks⟩ := h
  have hSave : ∀ e, r ≠ .saveCursor e := by
    rintro e rfl
    simp at hSilent
  have hCall : ∀ τ id, r ≠ .call τ id := by
    rintro τ id rfl
    simp at hSilent
  refine ⟨Scene.entries_of_answers hAnswer hSave, Scene.isSome_results_of_answers hAnswer,
    Scene.clock_of_answers hAnswer, ?_, Scene.executed_of_answers hAnswer hCall, ?_⟩
  · rw [Scene.monitor_of_answers hAnswer]
    obtain ⟨r', rfl⟩ | ⟨job, rfl⟩ | ⟨failed, rfl⟩ := hSilent
    · exact ⟨_, rfl⟩
    · exact ⟨_, rfl⟩
    · exact ⟨_, rfl⟩
  · rw [hLooks]
    obtain ⟨r', rfl⟩ | ⟨job, rfl⟩ | ⟨failed, rfl⟩ := hSilent <;> rfl

/-- What a request makes of the monitor does not depend on the failures that are counted there. -/
theorem onMonitor_eq (r : Request) (m : Monitor) (failures : Nat) :
    ∃ count, r.onMonitor { m with failures } = { r.onMonitor m with failures := count } := by
  cases r with
  | beginPass =>
      refine ⟨failures, ?_⟩
      simp only [Request.onMonitor, Monitor.beginPass]
      split <;> rfl
  | countOutcome failed => exact ⟨_, rfl⟩
  | _ => exact ⟨failures, rfl⟩

/-- The same request is made of both, and both have the same entries after it. -/
theorem of_answers {b : r.Answer} (hEntries : v.scene.store.entries = t.scene.store.entries)
    (hLeft : f.conduct.answers r s a t) (hRight : g.conduct.answers r u b v) (h : Alike s u) : Alike t v := by
  obtain ⟨⟨hAnswer, -⟩, -, hLooks⟩ := hLeft
  obtain ⟨⟨hOther, -⟩, -, hOtherLooks⟩ := hRight
  refine ⟨hEntries, ?_, ?_, ?_, ?_, ?_⟩
  · rw [Scene.isSome_results_of_answers hAnswer, Scene.isSome_results_of_answers hOther, h.tables_eq]
  · rw [Scene.clock_of_answers hAnswer, Scene.clock_of_answers hOther, h.clock_eq]
  · obtain ⟨failures, hMonitor⟩ := h.monitor_eq
    rw [Scene.monitor_of_answers hAnswer, Scene.monitor_of_answers hOther, hMonitor]
    exact onMonitor_eq r _ failures
  · by_cases hCall : ∃ τ id, r = .call τ id
    · obtain ⟨τ, id, rfl⟩ := hCall
      obtain hAnswer : t.scene = s.scene.note (.called τ) := hAnswer
      obtain hOther : v.scene = u.scene.note (.called τ) := hOther
      rw [hAnswer, hOther, Scene.executed_note, Scene.executed_note, h.executed_eq]
    · have hOthers (τ : Task) (id : TaskId) : r ≠ .call τ id := fun hSame => hCall ⟨τ, id, hSame⟩
      rw [Scene.executed_of_answers hAnswer hOthers, Scene.executed_of_answers hOther hOthers, h.executed_eq]
  · rw [hLooks, hOtherLooks, h.looks_eq]

/-- A cursor is saved in both, or in none. -/
theorem of_saveCursor {e : Entry} {a b : Except Error Unit}
    (hLeft : Scene.Writes False s.scene (s.scene.store.saveCursor e) a t.scene)
    (hRight : Scene.Writes False u.scene (u.scene.store.saveCursor e) b v.scene)
    (hEntries : u.scene.store.entries = s.scene.store.entries) :
    a = b ∧ v.scene.store.entries = t.scene.store.entries := by
  have hAttempt : u.scene.store.saveCursor e =
      (s.scene.store.saveCursor e).map (·.withResultsOf u.scene.store) := by
    rw [← Store.saveCursor_withResultsOf, ← Store.eq_withResultsOf hEntries]
  rcases hLeft with ⟨store, hStore, rfl, hAfter⟩ | ⟨fault, rfl, hAfter, hError | hFalse⟩
  · rw [hStore] at hAttempt
    rcases hRight with ⟨other, hOther, rfl, hThen⟩ | ⟨_, _, _, hError | hFalse⟩
    · obtain rfl : store.withResultsOf u.scene.store = other := Except.ok.inj (hAttempt.symm.trans hOther)
      rw [hAfter, hThen]
      exact ⟨rfl, rfl⟩
    · cases hAttempt.symm.trans hError
    · exact hFalse.elim
  · rw [hError] at hAttempt
    rcases hRight with ⟨other, hOther, _, _⟩ | ⟨_, rfl, hThen, hOtherError | hFalse⟩
    · cases hAttempt.symm.trans hOther
    · cases hAttempt.symm.trans hOtherError
      rw [hAfter, hThen]
      exact ⟨rfl, hEntries⟩
    · exact hFalse.elim
  · exact hFalse.elim

/-- A result is recorded in both, or in none. -/
theorem of_record {result : TaskResult} {keep : Nat} {a b : Except Error Unit}
    (hLeft : Scene.AnswersFinal False (.record result keep) s.scene a t.scene)
    (hRight : Scene.AnswersFinal False (.record result keep) u.scene b v.scene) (h : Alike s u) : a = b := by
  cases hTable : s.scene.store.results with
  | some table =>
      have hSome : s.scene.store.results.isSome = true := by rw [hTable]; rfl
      rw [(Scene.recorded_of_answers hSome hLeft).1, (Scene.recorded_of_answers (h.tables_eq.trans hSome) hRight).1]
  | none =>
      rw [Scene.refused_of_answers hTable hLeft,
        Scene.refused_of_answers (results_eq_none h.tables_eq hTable) hRight]

/-- A plain request is answered the same in both. -/
theorem of_plain {b : r.Answer} (hAgree : f.AgreeBut name base g) (hPlain : r.IsPlain name)
    (hLeft : f.conduct.answers r s a t) (hRight : g.conduct.answers r u b v) (h : Alike s u) :
    a = b ∧ Alike t v := by
  have hAnswer := hLeft.1.1
  have hOther := hRight.1.1
  by_cases hSaves : ∃ e, r = .saveCursor e
  · obtain ⟨e, rfl⟩ := hSaves
    obtain ⟨hAnswers, hEntries⟩ := of_saveCursor hAnswer hOther h.entries_eq
    exact ⟨hAnswers, .of_answers hEntries hLeft hRight h⟩
  · have hSave := not_exists.mp hSaves
    refine ⟨?_, .of_answers ?_ hLeft hRight h⟩
    · cases r with
      | now => exact hAnswer.1.trans (h.clock_eq.symm.trans hOther.1.symm)
      | timestamp =>
          have hTime : a = f.stamp s.looks := hLeft.2.1
          have hOtherTime : b = g.stamp u.looks := hRight.2.1
          rw [hTime, hOtherTime, hAgree.stamp_eq, h.looks_eq]
      | activeEntries =>
          rw [hAnswer.1.answer_eq, hOther.1.answer_eq, Store.activeEntries_congr h.entries_eq]
      | entry name =>
          rw [hAnswer.1.answer_eq, hOther.1.answer_eq, Store.getEntry_congr h.entries_eq]
      | saveCursor e => exact absurd rfl (hSave e)
      | call τ id =>
          have hOutcome : a = f.outcome s.looks τ := hLeft.2.1
          have hOtherOutcome : b = g.outcome u.looks τ := hRight.2.1
          rw [hOutcome, hOtherOutcome, hAgree.outcome_eq _ τ hPlain, h.looks_eq]
      | stopRequested =>
          obtain ⟨failures, hMonitor⟩ := h.monitor_eq
          refine hAnswer.1.trans (.trans ?_ hOther.1.symm)
          rw [hMonitor]
      | final | spawn | countOutcome | lastTaskId | sleep | drain => exact hPlain.elim
      | _ => rfl
    · rw [Scene.entries_of_answers hAnswer hSave, Scene.entries_of_answers hOther hSave, h.entries_eq]

end Alike

/-- The first exchange takes place in a scene that is still the same to the loop. -/
theorem exists_first {x : Exchange Request.Answer}
    (h : f.conduct.Replies s (x :: log) t) : ∃ v w, Alike s v ∧ f.conduct.answers x.1 v x.2 w ∧
      f.conduct.Replies w log t ∧ w.scene.store.results.isSome = s.scene.store.results.isSome := by
  obtain ⟨v, w, hDrift, hAnswer, hRest⟩ := h.exists_first
  have hAlike := Alike.of_drifts hDrift
  exact ⟨v, w, hAlike, hAnswer, hRest, (Scene.isSome_results_of_answers hAnswer.1.1).trans hAlike.tables_eq⟩

theorem isSome_results_of_replies (h : f.conduct.Replies s log t) :
    t.scene.store.results.isSome = s.scene.store.results.isSome := by
  refine h.keeps (P := fun u => u.scene.store.results.isSome = s.scene.store.results.isSome) ?_ ?_ rfl
  · rintro u v ⟨hMove, -⟩
    exact hMove.isSome_results.trans
  · rintro x - u v ⟨⟨hAnswer, -⟩, -⟩
    exact (Scene.isSome_results_of_answers hAnswer).trans

theorem alike_of_replies_nil (h : f.conduct.Replies s [] t) : Alike s t :=
  .of_drifts (h.keeps (P := f.conduct.Drifts s) (fun _ _ hMove hDrift => hDrift.tail hMove)
    (List.forall_mem_nil _) .refl)

end Fated

/-! ### What is written of other entries -/

/-- A result of another entry is written. -/
def FinalRequest.isOfOther (name : String) : FinalRequest → Bool
  | record result _ => result.entryName != name
  | notify _ _ => false

/-- What is written of other entries, at once or later. -/
def Fate.writesOfOthers (f : Fate) (name : String) (log : List (Exchange Request.Answer)) : List FinalRequest :=
  (log.flatMap (Exchange.closings f.delivers)).filter (·.isOfOther name)

namespace Finalisation

variable {job other : Finalisation} {name base : String} {delivers : String → Payload → Except Error Unit}

theorem asks_own (h : job.result.entryName = name) :
    job.program.Asks fun r => ¬ r.isOfOther name = true := by
  have hOwn {result : TaskResult} (hResult : result.entryName = job.result.entryName) (keep : Nat) :
      ¬ (FinalRequest.record result keep).isOfOther name = true := by
    simp [FinalRequest.isOfOther, hResult, h]
  refine ⟨hOwn rfl _, fun stored => ?_⟩
  cases stored with
  | error e => exact trivial
  | ok =>
      dsimp only
      cases job.receiver with
      | none => exact trivial
      | some url =>
          refine ⟨Bool.false_ne_true, fun delivered => ?_⟩
          cases delivered with
          | ok => exact trivial
          | error e =>
              dsimp only
              split
              · exact ⟨hOwn rfl job.keep, fun _ => trivial⟩
              · exact trivial

/-- Whether a report is delivered matters to what is asked for only if it is this one's. -/
theorem asked_congr {delivers' : String → Payload → Except Error Unit}
    (h : ∀ url, delivers' url (.ofResult job.result job.baseUrl) = delivers url (.ofResult job.result job.baseUrl)) :
    job.program.asked (FinalRequest.foretold delivers') = job.program.asked (FinalRequest.foretold delivers) := by
  obtain ⟨result, receiver, baseUrl, keep⟩ := job
  cases receiver with
  | none => rfl
  | some url =>
      unfold program
      simp only [Program.asked, FinalRequest.foretold, h url]
      cases delivers url (.ofResult result baseUrl) with
      | ok => rfl
      | error e =>
          dsimp only
          split <;> rfl

/-- Two finalisations that are the same, or of the entry, write the same of others. -/
theorem Masks.same_writes {f g : Fate} (hAgree : f.AgreeBut name base g) (h : job.Masks name base other) :
    (job.program.asked (FinalRequest.foretold f.delivers)).filter (·.isOfOther name) =
      (other.program.asked (FinalRequest.foretold g.delivers)).filter (·.isOfOther name) := by
  rcases h with ⟨rfl, hName, rfl⟩ | ⟨hOwn, hOther⟩
  · rw [asked_congr fun url => hAgree.delivers_eq url _ hName]
  · rw [List.filter_eq_nil_iff.mpr (asks_own hOwn).of_asked, List.filter_eq_nil_iff.mpr (asks_own hOther).of_asked]

end Finalisation

namespace Fated

variable {s t u v : Fated} {f g : Fate} {name base : String} {log other : List (Exchange Request.Answer)}

/-- A finalisation that is made at once ends well if there is a table of results, and the loop sees nothing
else of it. -/
theorem ends_finalise {job : Finalisation} {ended : Except Error Unit}
    (hSpeaks : (job.program.embed .final fun _ => id : Program Request Request.Answer _).Speaks log (.done ended))
    (hReplies : f.conduct.Replies s log t) :
    Alike s t ∧ (ended = if s.scene.store.results.isSome then .ok ()
      else .error (.database (.noTable Store.resultTableName))) ∧
      (s.scene.store.results.isSome = true →
        log.flatMap (Exchange.closings f.delivers) = job.program.asked (FinalRequest.foretold f.delivers)) := by
  have hFinals : Program.Asks (fun r => ∃ r', r = .final r')
      (job.program.embed .final fun _ => id : Program Request Request.Answer _) :=
    .embed (.of_forall fun r => ⟨r, rfl⟩)
  refine ⟨?_, ?_⟩
  · refine hReplies.keeps (P := Alike s) (fun _ _ hMove h => h.trans (.of_drifts (.single hMove))) ?_ (.refl s)
    exact fun x hx _ _ hAnswer h => h.trans (.of_silent (.inl (hFinals.of_speaks hSpeaks x hx)) hAnswer)
  · cases hTable : s.scene.store.results with
    | some table =>
        have hSome : s.scene.store.results.isSome = true := by rw [hTable]; rfl
        have hForetold := Scene.foretold_of_replies hSome (Fate.replies_scene hReplies)
        obtain ⟨rfl, -, hClosings⟩ := Job.speaks_embed hSpeaks hForetold
        exact ⟨job.comesTo_program, fun _ => hClosings⟩
    | none =>
        -- the first write is refused, and nothing else is asked for
        refine ⟨?_, fun hSome => absurd hSome (by simp)⟩
        obtain ⟨a, rest, rfl, hRest⟩ := Program.speaks_ask_iff.mp hSpeaks
        obtain ⟨v, w, hSame, hAnswer, -, -⟩ := exists_first hReplies
        obtain rfl : a = _ := Scene.refused_of_answers (results_eq_none hSame.tables_eq hTable) hAnswer.1.1
        obtain ⟨-, hDone⟩ := Program.speaks_done_iff.mp hRest
        cases hDone
        rfl

variable {Result Other : Type} {R : Result → Other → Prop} {p : Program Request Request.Answer Result}
  {q : Program Request Request.Answer Other}

theorem writes_append (f : Fate) (name : String) (log other : List (Exchange Request.Answer)) :
    f.writesOfOthers name (log ++ other) = f.writesOfOthers name log ++ f.writesOfOthers name other := by
  rw [Fate.writesOfOthers, List.flatMap_append, List.filter_append]
  rfl

theorem writes_cons (f : Fate) (name : String) (x : Exchange Request.Answer) (log : List (Exchange Request.Answer)) :
    f.writesOfOthers name (x :: log) =
      (Exchange.closings f.delivers x).filter (·.isOfOther name) ++ f.writesOfOthers name log := by
  rw [Fate.writesOfOthers, List.flatMap_cons, List.filter_append]
  rfl

/-- Begun in scenes that are the same to the loop, the programs come to such results and to such scenes again,
and write the same of other entries if there is a table of results. -/
def InStep (f g : Fate) (name : String) (R : Result → Other → Prop) (p : Program Request Request.Answer Result)
    (q : Program Request Request.Answer Other) : Prop :=
  ∀ {log other s t u v x y}, p.Speaks log (.done x) → q.Speaks other (.done y) → f.conduct.Replies s log t →
    g.conduct.Replies u other v → Alike s u → R x y ∧ Alike t v ∧
      (s.scene.store.results.isSome = true → f.writesOfOthers name log = g.writesOfOthers name other)

theorem inStep_done {x : Result} {y : Other} (hEnd : R x y) : InStep f g name R (.done x) (.done y) := by
  intro log other s t u v _ _ hSpeaks hOther hReplies hOtherReplies h
  obtain ⟨rfl, hDone⟩ := Program.speaks_done_iff.mp hSpeaks
  obtain ⟨rfl, hOtherDone⟩ := Program.speaks_done_iff.mp hOther
  cases hDone
  cases hOtherDone
  have hAlike := (alike_of_replies_nil hReplies).symm.trans (h.trans (alike_of_replies_nil hOtherReplies))
  exact ⟨hEnd, hAlike, fun _ => rfl⟩

/-- One request of each. -/
theorem inStep_ask {r r' : Request} {next : r.Answer → Program Request Request.Answer Result}
    {next' : r'.Answer → Program Request Request.Answer Other}
    (hStep : ∀ {s t u v a b}, f.conduct.answers r s a t → g.conduct.answers r' u b v → Alike s u →
      Alike t v ∧ (Exchange.closings f.delivers ⟨r, a⟩).filter (·.isOfOther name) =
        (Exchange.closings g.delivers ⟨r', b⟩).filter (·.isOfOther name) ∧ InStep f g name R (next a) (next' b)) :
    InStep f g name R (.ask r next) (.ask r' next') := by
  intro log other s t u v x y hSpeaks hOther hReplies hOtherReplies h
  obtain ⟨a, log, rfl, hNext⟩ := Program.speaks_ask_iff.mp hSpeaks
  obtain ⟨b, other, rfl, hOtherNext⟩ := Program.speaks_ask_iff.mp hOther
  obtain ⟨_, _, hLeft, hAnswer, hRest, hTables⟩ := exists_first hReplies
  obtain ⟨_, _, hRight, hOtherAnswer, hOtherRest, -⟩ := exists_first hOtherReplies
  obtain ⟨hAfter, hSame, hGoOn⟩ := hStep hAnswer hOtherAnswer (hLeft.symm.trans (h.trans hRight))
  obtain ⟨hEnd, hAlike, hWrites⟩ := hGoOn hNext hOtherNext hRest hOtherRest hAfter
  refine ⟨hEnd, hAlike, fun hTable => ?_⟩
  rw [writes_cons, writes_cons, hSame, hWrites (hTables.trans hTable)]

/-- A finalisation of each, made at once. -/
theorem inStep_finalise {job job' : Finalisation} {rest : Except Error Unit → Program Request Request.Answer Result}
    {rest' : Except Error Unit → Program Request Request.Answer Other} (hAgree : f.AgreeBut name base g)
    (hJobs : job.Masks name base job') (hGoOn : ∀ ended, InStep f g name R (rest ended) (rest' ended)) :
    InStep f g name R ((job.program.embed .final fun _ => id).bind rest)
      ((job'.program.embed .final fun _ => id).bind rest') := by
  intro log other s t u v x y hSpeaks hOther hReplies hOtherReplies h
  obtain ⟨ended, first, log, rfl, hFirst, hNext⟩ := Program.speaks_bind_iff.mp hSpeaks
  obtain ⟨otherEnded, otherFirst, other, rfl, hOtherFirst, hOtherNext⟩ := Program.speaks_bind_iff.mp hOther
  obtain ⟨_, hBegun, hRest⟩ := Conduct.replies_append_iff.mp hReplies
  obtain ⟨_, hOtherBegun, hOtherRest⟩ := Conduct.replies_append_iff.mp hOtherReplies
  obtain ⟨hLeft, hEnded, hClosings⟩ := ends_finalise hFirst hBegun
  obtain ⟨hRight, hOtherEnded, hOtherClosings⟩ := ends_finalise hOtherFirst hOtherBegun
  obtain rfl : ended = otherEnded := by rw [hEnded, hOtherEnded, h.tables_eq]
  obtain ⟨hEnd, hAlike, hWrites⟩ :=
    hGoOn ended hNext hOtherNext hRest hOtherRest (hLeft.symm.trans (h.trans hRight))
  refine ⟨hEnd, hAlike, fun hTable => ?_⟩
  have hSame : f.writesOfOthers name first = g.writesOfOthers name otherFirst := by
    unfold Fate.writesOfOthers
    rw [hClosings hTable, hOtherClosings (h.tables_eq.trans hTable), hJobs.same_writes hAgree]
  rw [writes_append, writes_append, hSame, hWrites (hLeft.tables_eq.trans hTable)]

/-- Programs that go on alike whatever becomes of the tasks of one entry stay in step under two fates that
differ in nothing else. -/
theorem inStep_of_masks (hMasks : p.Masks name base R q) (hAgree : f.AgreeBut name base g) :
    InStep f g name R p q := by
  -- what may differ is answered as it is, and leaves the scenes the same to the loop
  induction hMasks with
  | done hEnd => exact inStep_done hEnd
  | @ask r _ _ hPlain _ ih =>
      refine inStep_ask fun hAnswer hOther h => ?_
      obtain ⟨rfl, hAfter⟩ := Alike.of_plain hAgree hPlain hAnswer hOther h
      refine ⟨hAfter, ?_, ih _ (Scene.sensible_of_answers hAnswer.1.1)⟩
      cases r <;> first | rfl | exact hPlain.elim
  | record _ ih =>
      refine inStep_ask fun hAnswer hOther h => ?_
      obtain rfl := Alike.of_record hAnswer.1.1 hOther.1.1 h
      have hLeft := Alike.of_silent (.inl ⟨_, rfl⟩) hAnswer
      exact ⟨hLeft.symm.trans (h.trans (.of_silent (.inl ⟨_, rfl⟩) hOther)), rfl, ih _⟩
  | call _ _ ih =>
      refine inStep_ask fun hAnswer hOther h => ⟨.of_answers ?_ hAnswer hOther h, rfl, ih _ _⟩
      rw [Scene.entries_of_answers hAnswer.1.1 (by simp), Scene.entries_of_answers hOther.1.1 (by simp),
        h.entries_eq]
  | count _ ih =>
      refine inStep_ask fun hAnswer hOther h => ?_
      have hLeft := Alike.of_silent (.inr (.inr ⟨_, rfl⟩)) hAnswer
      exact ⟨hLeft.symm.trans (h.trans (.of_silent (.inr (.inr ⟨_, rfl⟩)) hOther)), rfl, ih _ _⟩
  | spawn hJobs _ ih =>
      refine inStep_ask fun hAnswer hOther h => ?_
      have hLeft := Alike.of_silent (.inr (.inl ⟨_, rfl⟩)) hAnswer
      exact ⟨hLeft.symm.trans (h.trans (.of_silent (.inr (.inl ⟨_, rfl⟩)) hOther)), hJobs.same_writes hAgree, ih⟩
  | finalise hJobs _ ih => exact inStep_finalise hAgree hJobs ih

end Fated

end TickScheduler
