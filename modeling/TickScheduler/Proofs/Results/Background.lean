import TickScheduler.Proofs.Engine.Inlining
import TickScheduler.Proofs.Engine.Rehearsal
import TickScheduler.Proofs.Results.Accounts
/-!
Finalisations in the background change nothing but the timing. A run with finalisations in the background has
a counterpart that makes them at once and is given the same from outside; and all such counterparts come to
the same results and to the same reports, in whatever order these were made.
-/
namespace TickScheduler

variable {delivers : String → Payload → Except Error Unit}

/-- Whether an exchange is neither about results and reports nor about the background. -/
def Exchange.isGiven : Exchange Request.Answer → Bool
  | ⟨.final _, _⟩ | ⟨.spawn _, _⟩ => false
  | _ => true

/-- What a run is given from outside: all answers but those about results and reports. -/
def givens (log : List (Exchange Request.Answer)) : List (Exchange Request.Answer) :=
  log.filter Exchange.isGiven

/-- No result is refused, and reports end as it is known. -/
def Exchange.Foretold (delivers : String → Payload → Except Error Unit) : Exchange Request.Answer → Prop
  | ⟨.final r, a⟩ => a = r.foretold delivers
  | _ => True

/-- A finalisation ends well, whether or not its report is delivered. -/
theorem Finalisation.comesTo_program (job : Finalisation) :
    job.program.comesTo (FinalRequest.foretold delivers) = .ok () := by
  obtain ⟨result, receiver, baseUrl, keep⟩ := job
  cases receiver with
  | none => rfl
  | some url =>
      unfold program
      simp only [Program.comesTo, FinalRequest.foretold]
      cases delivers url (.ofResult result baseUrl) with
      | ok => rfl
      | error e =>
          dsimp only
          split <;> rfl

namespace Job

variable {log : List (Exchange Request.Answer)} {job : Job} {ended : Except Error Unit}

/-- A job that is done at once asks for what it would ask for in the background. -/
theorem speaks_embed (h : (job.embed .final fun _ => id).Speaks log (.done ended))
    (hForetold : ∀ x ∈ log, Exchange.Foretold delivers x) :
    ended = job.comesTo (FinalRequest.foretold delivers) ∧ givens log = [] ∧
      log.flatMap (Exchange.closings delivers) = job.asked (FinalRequest.foretold delivers) := by
  induction job generalizing log with
  | done result =>
      obtain ⟨rfl, hDone⟩ := Program.speaks_done_iff.mp h
      cases hDone
      exact ⟨rfl, rfl, rfl⟩
  | ask r next ih =>
      obtain ⟨a, log, rfl, hNext⟩ := Program.speaks_ask_iff.mp h
      rw [List.forall_mem_cons] at hForetold
      obtain ⟨rfl, hRest⟩ := hForetold
      obtain ⟨hEnded, hGivens, hClosings⟩ := ih _ hNext hRest
      refine ⟨hEnded, hGivens, ?_⟩
      rw [List.flatMap_cons, hClosings]
      rfl

end Job

namespace Program.Inlines

variable {Result : Type} {p q : Program Request Request.Answer Result}
  {log other : List (Exchange Request.Answer)} {x y : Result}

/-- Given the same from outside, both come to the same, and ask the same about results. -/
theorem same_closings (h : Inlines p q) (hSpeaks : p.Speaks log (.done x)) (hOther : q.Speaks other (.done y))
    (hForetold : ∀ x ∈ log, Exchange.Foretold delivers x)
    (hOtherForetold : ∀ x ∈ other, Exchange.Foretold delivers x) (hGivens : givens other = givens log) :
    x = y ∧ log.flatMap (Exchange.closings delivers) = other.flatMap (Exchange.closings delivers) := by
  induction h generalizing log other with
  | done result =>
      obtain ⟨rfl, hDone⟩ := speaks_done_iff.mp hSpeaks
      obtain ⟨rfl, hOtherDone⟩ := speaks_done_iff.mp hOther
      cases hDone
      cases hOtherDone
      exact ⟨rfl, rfl⟩
  | @ask r next next' hNoSpawn _ ih =>
      obtain ⟨a, log, rfl, hNext⟩ := speaks_ask_iff.mp hSpeaks
      obtain ⟨b, other, rfl, hOtherNext⟩ := speaks_ask_iff.mp hOther
      rw [List.forall_mem_cons] at hForetold hOtherForetold
      obtain ⟨rfl, hRest⟩ : a = b ∧ givens other = givens log := by
        cases r with
        | final r => exact ⟨hForetold.1.trans hOtherForetold.1.symm, hGivens⟩
        | spawn job => exact absurd rfl (hNoSpawn job)
        | _ =>
            obtain ⟨hHead, hTail⟩ := List.cons.inj hGivens
            cases hHead
            exact ⟨rfl, hTail⟩
      obtain ⟨hSame, hClosings⟩ := ih a hNext hOtherNext hForetold.2 hOtherForetold.2 hRest
      exact ⟨hSame, by rw [List.flatMap_cons, List.flatMap_cons, hClosings]⟩
  | @spawn job next rest _ ih =>
      obtain ⟨⟨⟩, log, rfl, hNext⟩ := speaks_ask_iff.mp hSpeaks
      obtain ⟨ended, first, last, rfl, hFirst, hLast⟩ := speaks_bind_iff.mp hOther
      rw [List.forall_mem_cons] at hForetold
      rw [List.forall_mem_append] at hOtherForetold
      obtain ⟨rfl, hNone, hAsked⟩ := Job.speaks_embed hFirst hOtherForetold.1
      rw [Finalisation.comesTo_program] at hLast
      have hRest : givens last = givens log := by
        rwa [givens, List.filter_append, ← givens, hNone] at hGivens
      obtain ⟨hSame, hClosings⟩ := ih hNext hLast hForetold.2 hOtherForetold.2 hRest
      refine ⟨hSame, ?_⟩
      rw [List.flatMap_cons, List.flatMap_append, hClosings, hAsked]
      rfl

end Program.Inlines

namespace Scene

/-- The same entries, clock and monitor without anything in the background, wherever results and reports
are. -/
structure Mirrors (s t : Scene) : Prop where
  entries_eq : t.store.entries = s.store.entries
  clock_eq : t.clock = s.clock
  monitor_eq : t.monitor = s.monitor
  jobs_eq : t.jobs = []
  tables : s.store.results.isSome = true ∧ t.store.results.isSome = true

variable {s t u v : Scene}

/-- A request of a finalisation is answered as it is foretold. -/
theorem exists_answersFinal (delivers : String → Payload → Except Error Unit)
    (hTable : s.store.results.isSome = true) (r : FinalRequest) :
    ∃ t, (predictable delivers).answers (.final r) s (r.foretold delivers) t := by
  cases r with
  | record result keep =>
      obtain ⟨store, hStore, -⟩ := Store.exists_recordResult hTable result keep
      exact ⟨_, .inl ⟨store, hStore, rfl, rfl⟩, trivial⟩
  | notify url payload => exact ⟨_, rfl, rfl⟩

namespace Mirrors

/-- The finalisations of both scenes do not matter. -/
theorem of_finals {r : FinalRequest} {a : r.Answer} (hAnswer : AnswersFinal False r u a v) (h : s.Mirrors u) :
    s.Mirrors v := by
  have hEntries := (entries_of_answersFinal hAnswer).1
  have hTable := (isSome_results_of_answersFinal hAnswer).trans h.tables.2
  obtain ⟨_, _, rfl⟩ := frame_of_answersFinal hAnswer
  exact ⟨hEntries.trans h.entries_eq, h.clock_eq, h.monitor_eq, h.jobs_eq, h.tables.1, hTable⟩

/-- A change of entries can be made in both, or in none. -/
theorem writes (attempt : Store → Except Error Store) {answer : Except Error Unit}
    (hApart : ∀ store other : Store,
      attempt (store.withResultsOf other) = (attempt store).map (·.withResultsOf other))
    (hResults : ∀ store, attempt s.store = .ok store → store.results = s.store.results)
    (hWrites : Writes False s (attempt s.store) answer t) (h : s.Mirrors u) :
    ∃ v, Writes False u (attempt u.store) answer v ∧ t.Mirrors v := by
  have hAttempt : attempt u.store = (attempt s.store).map (·.withResultsOf u.store) := by
    rw [← hApart, ← Store.eq_withResultsOf h.entries_eq]
  rcases hWrites with ⟨store, hStore, rfl, rfl⟩ | ⟨e, rfl, rfl, hError | hFalse⟩
  · rw [hStore] at hAttempt
    refine ⟨{ u with store := store.withResultsOf u.store }, .inl ⟨_, hAttempt, rfl, rfl⟩, ?_⟩
    exact ⟨rfl, h.clock_eq, h.monitor_eq, h.jobs_eq, (hResults store hStore).symm ▸ h.tables.1, h.tables.2⟩
  · rw [hError] at hAttempt
    exact ⟨u, .inr ⟨e, rfl, rfl, .inl hAttempt⟩, h⟩
  · exact hFalse.elim

/-- No answer but those about results depends on more than what is mirrored. -/
theorem answers {r : Request} {a : r.Answer} (hSpawn : ∀ job, r ≠ .spawn job)
    (hCount : ∀ name, r ≠ .lastTaskId name) (hAnswer : (predictable delivers).answers r s a t)
    (h : s.Mirrors u) :
    ∃ v, (predictable delivers).answers r u a v ∧ t.Mirrors v := by
  obtain ⟨hAnswer, hEnds⟩ := hAnswer
  cases r with
  | lastTaskId name => exact absurd rfl (hCount name)
  | spawn job => exact absurd rfl (hSpawn job)
  | now =>
      obtain ⟨rfl, rfl⟩ := hAnswer
      exact ⟨u, ⟨⟨h.clock_eq.symm, rfl⟩, trivial⟩, h⟩
  | activeEntries =>
      obtain ⟨hRead, rfl⟩ := hAnswer
      rw [← Store.activeEntries_congr h.entries_eq] at hRead
      exact ⟨u, ⟨⟨hRead, rfl⟩, trivial⟩, h⟩
  | entry name =>
      obtain ⟨hRead, rfl⟩ := hAnswer
      rw [← Store.getEntry_congr h.entries_eq] at hRead
      exact ⟨u, ⟨⟨hRead, rfl⟩, trivial⟩, h⟩
  | saveCursor e =>
      obtain ⟨v, hWrites, hMirrors⟩ := h.writes (·.saveCursor e)
        (fun store other => store.saveCursor_withResultsOf other e)
        (fun store hStore => (Store.rewrites_of_saveCursor hStore).results_eq) hAnswer
      exact ⟨v, ⟨hWrites, trivial⟩, hMirrors⟩
  | final r =>
      obtain rfl := foretold_of_answersFinal h.tables.1 hAnswer hEnds
      obtain ⟨v, hOther⟩ := exists_answersFinal delivers h.tables.2 r
      have hSame := h.of_finals hOther.1
      have hEntries := (entries_of_answersFinal hAnswer).1
      have hTable := (isSome_results_of_answersFinal hAnswer).trans h.tables.1
      obtain ⟨_, _, rfl⟩ := frame_of_answersFinal hAnswer
      exact ⟨v, hOther, hSame.entries_eq.trans hEntries.symm, hSame.clock_eq, hSame.monitor_eq, hSame.jobs_eq,
        hTable, hSame.tables.2⟩
  | call task id =>
      obtain rfl := hAnswer
      refine ⟨u.note (.called task), ⟨rfl, trivial⟩, ?_⟩
      exact ⟨h.entries_eq, h.clock_eq, h.monitor_eq, h.jobs_eq, h.tables⟩
  | timestamp | pause | sleep | removeHealthFile | touchHealthFile =>
      obtain rfl := hAnswer
      exact ⟨u, ⟨rfl, trivial⟩, h⟩
  | drain =>
      obtain ⟨-, rfl⟩ := hAnswer
      exact ⟨u, ⟨⟨h.jobs_eq, rfl⟩, trivial⟩, h⟩
  | stopRequested =>
      obtain ⟨rfl, rfl⟩ := hAnswer
      exact ⟨u, ⟨⟨by rw [h.monitor_eq], rfl⟩, trivial⟩, h⟩
  | countOutcome failed =>
      obtain ⟨rfl, rfl⟩ := hAnswer
      refine ⟨{ u with monitor := u.monitor.countOutcome failed }, ⟨⟨rfl, ?_⟩, trivial⟩, ?_⟩
      · rw [h.monitor_eq]
      · exact ⟨h.entries_eq, h.clock_eq, by rw [h.monitor_eq], h.jobs_eq, h.tables⟩
  | beginPass | setIdle | publish | stop =>
      obtain rfl := hAnswer
      exact ⟨_, ⟨rfl, trivial⟩, h.entries_eq, h.clock_eq, by rw [h.monitor_eq], h.jobs_eq, h.tables⟩

/-- What happens of itself can happen in both, but for what the background does. -/
theorem moves (hMove : (predictable delivers).moves s t) (h : s.Mirrors u) :
    ∃ v, (predictable delivers).Drifts u v ∧ t.Mirrors v := by
  have hTable := (Bustles.isSome_results hMove).trans h.tables.1
  cases hMove with
  | work _ hAnswer =>
      have hEntries := (entries_of_answersFinal hAnswer).1
      obtain ⟨_, _, rfl⟩ := frame_of_answersFinal hAnswer
      refine ⟨u, .refl, ?_⟩
      exact ⟨h.entries_eq.trans hEntries.symm, h.clock_eq, h.monitor_eq, h.jobs_eq, hTable, h.tables.2⟩
  | finish => exact ⟨u, .refl, h.entries_eq, h.clock_eq, h.monitor_eq, h.jobs_eq, h.tables⟩
  | age hAges =>
      obtain ⟨clock, hClock, rfl⟩ := hAges
      refine ⟨{ u with clock }, .single (.age ⟨clock, h.clock_eq ▸ hClock, rfl⟩), ?_⟩
      exact ⟨h.entries_eq, rfl, h.monitor_eq, h.jobs_eq, h.tables⟩
  | stop =>
      refine ⟨{ u with monitor := u.monitor.stop }, .single .stop, ?_⟩
      exact ⟨h.entries_eq, h.clock_eq, by rw [h.monitor_eq], h.jobs_eq, h.tables⟩
  | @deed deed store hAllowed hStore =>
      have hOther := deed.apply_withResultsOf hAllowed s.store u.store
      rw [hStore, ← Store.eq_withResultsOf h.entries_eq] at hOther
      refine ⟨{ u with store := store.withResultsOf u.store }, .single (.deed hAllowed hOther), ?_⟩
      exact ⟨rfl, h.clock_eq, h.monitor_eq, h.jobs_eq, hTable, h.tables.2⟩

/-- A finalisation can be made at once. -/
theorem exists_embed (job : Job) (h : s.Mirrors u) : ∃ log v,
    (job.embed .final fun _ => id : Program Request Request.Answer _).Speaks log
      (.done (job.comesTo (FinalRequest.foretold delivers))) ∧
      (predictable delivers).Replies u log v ∧ givens log = [] ∧ s.Mirrors v := by
  induction job generalizing u with
  | done result => exact ⟨[], u, .stay _, .stay _, rfl, h⟩
  | ask r next ih =>
      obtain ⟨m, hAnswer⟩ := exists_answersFinal delivers h.tables.2 r
      obtain ⟨log, v, hSpeaks, hReplies, hGivens, hMirrors⟩ :=
        ih (r.foretold delivers) (h.of_finals hAnswer.1)
      exact ⟨_, v, .ask hSpeaks, .answer hAnswer hReplies, hGivens, hMirrors⟩

end Mirrors

variable {Result : Type} {p q : Program Request Request.Answer Result} {log : List (Exchange Request.Answer)}
  {x : Result}

/-- A run with finalisations in the background has a counterpart that makes them at once, if it does not
ask for ids of results. -/
theorem Mirrors.exists_inlined (hInlines : p.Inlines q) (hSpeaks : p.Speaks log (.done x))
    (hCount : ∀ x ∈ log, ∀ name, x.1 ≠ .lastTaskId name) (hReplies : (predictable delivers).Replies s log t)
    (h : s.Mirrors u) :
    ∃ other v, q.Speaks other (.done x) ∧ (predictable delivers).Replies u other v ∧
      givens other = givens log ∧ t.Mirrors v := by
  induction hReplies generalizing p q u with
  | stay =>
      cases hSpeaks
      cases hInlines
      exact ⟨[], u, .stay _, .stay _, rfl, h⟩
  | move first _ ih =>
      obtain ⟨m, hDrift, hMirrors⟩ := h.moves first
      obtain ⟨other, v, hOther, hRest, hGivens, hEnd⟩ := ih hInlines hSpeaks hCount hMirrors
      exact ⟨other, v, hOther, hRest.of_drifts hDrift, hGivens, hEnd⟩
  | @answer r a s t _ log first _ ih =>
      rw [List.forall_mem_cons] at hCount
      cases hSpeaks with
      | ask hNext =>
          cases hInlines with
          | ask hSpawn hRest =>
              obtain ⟨m, hAnswer, hMirrors⟩ := h.answers hSpawn hCount.1 first
              obtain ⟨other, v, hOther, hReplies, hGivens, hEnd⟩ := ih (hRest a) hNext hCount.2 hMirrors
              refine ⟨⟨r, a⟩ :: other, v, .ask hOther, .answer hAnswer hReplies, ?_, hEnd⟩
              rw [givens, List.filter_cons, ← givens, hGivens, givens, ← List.filter_cons]
              rfl
          | @spawn job _ rest hRest =>
              obtain rfl : t = { s with jobs := s.jobs ++ [job.program] } := first.1
              have hSame : Mirrors { s with jobs := s.jobs ++ [job.program] } u :=
                ⟨h.entries_eq, h.clock_eq, h.monitor_eq, h.jobs_eq, h.tables⟩
              obtain ⟨begun, m, hBegun, hFirst, hNone, hMirrors⟩ := hSame.exists_embed job.program
              rw [Finalisation.comesTo_program] at hBegun
              obtain ⟨other, v, hOther, hLast, hGivens, hEnd⟩ := ih hRest hNext hCount.2 hMirrors
              refine ⟨begun ++ other, v, hBegun.bind hOther, hFirst.trans hLast, ?_, hEnd⟩
              rw [givens, List.filter_append, ← givens, ← givens, hNone, hGivens]
              rfl

theorem foretold_of_replies (hTable : s.store.results.isSome = true)
    (h : (predictable delivers).Replies s log t) : ∀ x ∈ log, Exchange.Foretold delivers x := by
  induction h with
  | stay => exact List.forall_mem_nil _
  | move first _ ih => exact ih ((Bustles.isSome_results first).trans hTable)
  | @answer r a _ _ _ _ first _ ih =>
      refine List.forall_mem_cons.mpr ⟨?_, ih ((isSome_results_of_answers first.1).trans hTable)⟩
      cases r with
      | final r => exact foretold_of_answersFinal hTable first.1 first.2
      | _ => exact trivial

/-- As long as nothing is asked about results, nothing comes into the background, and results and reports
stay as they are. -/
theorem rests_of_replies (hJobs : s.jobs = [])
    (hQuiet : ∀ x ∈ log, x.1.LeavesResults)
    (h : (predictable delivers).Replies s log t) :
    t.jobs = [] ∧ t.store.results = s.store.results ∧ t.notified = s.notified := by
  refine h.keeps (P := fun v => v.jobs = [] ∧ v.store.results = s.store.results ∧ v.notified = s.notified)
    ?_ ?_ ⟨hJobs, rfl, rfl⟩
  · rintro v w hMove ⟨hNone, hResults, hNotified⟩
    cases hMove with
    | work hBusy | finish hBusy => simp [hNone] at hBusy
    | age hAges =>
        obtain ⟨_, -, rfl⟩ := hAges
        exact ⟨hNone, hResults, hNotified⟩
    | stop => exact ⟨hNone, hResults, hNotified⟩
    | deed hAllowed hStore => exact ⟨hNone, (Deed.results_eq hStore hAllowed).trans hResults, hNotified⟩
  · rintro x hx v w hAnswer ⟨hNone, hResults, hNotified⟩
    obtain ⟨hFinal, hSpawn⟩ := hQuiet x hx
    exact ⟨(jobs_of_answers hAnswer.1 hSpawn).trans hNone,
      (results_of_answers hAnswer.1 hFinal).trans hResults,
      (notified_of_answers hAnswer.1 hFinal).trans hNotified⟩

end Scene

namespace Duty

/-- A scheduler at work that waits for its background in the end. -/
def flushed (setup : LoopSetup) (duty : Duty) : Program Request Request.Answer Unit :=
  (duty.program setup).bind fun _ => .ask .drain .done

variable {setup : LoopSetup} {duty : Duty} {log : List (Exchange Request.Answer)}

/-- The preparation, and what comes after it. -/
theorem speaks_flushed_iff : (duty.flushed setup).Speaks log (.done ()) ↔ ∃ prepared first rest,
    log = first ++ rest ∧ (duty.preparation setup).Speaks first (.done prepared) ∧
      ((duty.work setup prepared).bind fun _ => .ask .drain .done).Speaks rest (.done ()) := by
  rw [flushed, program_eq, Program.bind_assoc]
  exact Program.speaks_bind_iff

theorem inlines_flushed (setup : LoopSetup) (duty : Duty) :
    (duty.flushed (setup.inBackground true)).Inlines (duty.flushed (setup.inBackground false)) := by
  have hPrepares : (duty.preparation (setup.inBackground true)).Inlines
      (duty.preparation (setup.inBackground false)) := by
    cases duty <;> exact .refl (asks_preparation _ |>.mono fun _ h => h.2)
  rw [flushed, flushed, program_eq, program_eq]
  exact (hPrepares.bind (inlines_work setup duty)).bind fun _ => .ask (by simp) fun _ => .done _

end Duty

namespace Scene

variable {s t u : Scene} {log other : List (Exchange Request.Answer)} {setup : LoopSetup} {duty : Duty}

/-- Nothing is in the background any more when it was waited for. -/
theorem jobs_of_drained {p : Program Request Request.Answer Unit}
    (hSpeaks : (p.bind fun _ => .ask .drain .done).Speaks log (.done ()))
    (hReplies : (predictable delivers).Replies s log t) : t.jobs = [] := by
  obtain ⟨_, first, last, rfl, -, hLast⟩ := Program.speaks_bind_iff.mp hSpeaks
  obtain ⟨_, _, rfl, hDone⟩ := Program.speaks_ask_iff.mp hLast
  obtain ⟨rfl, -⟩ := Program.speaks_done_iff.mp hDone
  obtain ⟨_, -, hDrain⟩ := Conduct.replies_append_iff.mp hReplies
  obtain ⟨_, m, -, ⟨⟨hEmpty, rfl⟩, -⟩, hRest⟩ := hDrain.exists_first
  exact (rests_of_replies hEmpty (List.forall_mem_nil _) hRest).1

/-- What is stored and reported in the end is what was asked for. -/
theorem accounts_of_flushed (hJobs : s.jobs = []) (hTable : s.store.results.isSome = true)
    (hSpeaks : (duty.flushed setup).Speaks log (.done ()))
    (hReplies : (predictable delivers).Replies s log t) :
    t.store.results = s.store.results.map (fun table =>
        (log.flatMap (Exchange.closings delivers)).foldl FinalRequest.write table) ∧
      t.notified.Perm
        (s.notified ++ (log.flatMap (Exchange.closings delivers)).filterMap FinalRequest.report?) := by
  obtain ⟨prepared, first, rest, rfl, hFirst, hRest⟩ := Duty.speaks_flushed_iff.mp hSpeaks
  obtain ⟨m, hBefore, hAfter⟩ := Conduct.replies_append_iff.mp hReplies
  have hQuiet := duty.asks_preparation.of_speaks hFirst
  have hNone : first.flatMap (Exchange.closings delivers) = [] :=
    List.flatMap_eq_nil_iff.mpr fun x hx => Exchange.closings_of_other (hQuiet x hx).1 (hQuiet x hx).2
  obtain ⟨hPrepared, hSameResults, hSameReports⟩ := rests_of_replies hJobs hQuiet hBefore
  have hObeys (φ : Course) : Program.Obeys (Course.discipline setup False) (fun _ _ => True)
      ((duty.work setup prepared).bind fun _ => .ask .drain .done) φ :=
    (duty.obeys_work prepared φ).bind fun _ _ _ => ⟨trivial, fun _ _ => trivial⟩
  obtain ⟨⟨hResults, hNotified⟩, -⟩ :=
    accounts_of_replies (orderly_of_idle hPrepared) (hSameResults ▸ hTable) hObeys hRest hAfter
  have hStart : m.pending delivers = [] := by rw [pending, hPrepared, List.flatMap_nil]
  have hEnd : t.pending delivers = [] := by rw [pending, jobs_of_drained hRest hAfter, List.flatMap_nil]
  rw [hStart, hEnd, List.nil_append] at hResults hNotified
  rw [List.flatMap_append, hNone, List.nil_append]
  refine ⟨?_, by rwa [List.filterMap_nil, List.append_nil, hSameReports] at hNotified⟩
  rw [← hSameResults, ← hResults]
  exact (Option.map_id_apply).symm

/-- A run with finalisations in the background has a counterpart that makes them at once and is given the
same from outside. -/
theorem exists_without_background (hJobs : s.jobs = []) (hTable : s.store.results.isSome = true)
    (hSpeaks : (duty.flushed (setup.inBackground true)).Speaks log (.done ()))
    (hReplies : (predictable delivers).Replies s log t) :
    ∃ other u, (duty.flushed (setup.inBackground false)).Speaks other (.done ()) ∧
      (predictable delivers).Replies s other u ∧ givens other = givens log := by
  obtain ⟨prepared, first, rest, rfl, hFirst, hRest⟩ := Duty.speaks_flushed_iff.mp hSpeaks
  obtain ⟨m, hBefore, hAfter⟩ := Conduct.replies_append_iff.mp hReplies
  obtain ⟨hPrepared, hSameResults, -⟩ :=
    rests_of_replies hJobs (duty.asks_preparation.of_speaks hFirst) hBefore
  have hObeys : Program.Obeys (Course.discipline (setup.inBackground true) False) (fun _ _ => True)
      ((duty.work (setup.inBackground true) prepared).bind fun _ => .ask .drain .done) { time := 0 } :=
    (duty.obeys_work prepared _).bind fun _ _ _ => ⟨trivial, fun _ _ => trivial⟩
  have hCount : ∀ x ∈ rest, ∀ name, x.1 ≠ .lastTaskId name := by
    intro x hx name hRestores
    obtain ⟨ψ, hPermits⟩ := hObeys.permits_of_speaks hRest (sensible_of_replies hAfter) x hx
    rw [hRestores] at hPermits
    exact hPermits.1
  have hMirrors : m.Mirrors m := ⟨rfl, rfl, rfl, hPrepared, hSameResults ▸ hTable, hSameResults ▸ hTable⟩
  have hInlines := (Duty.inlines_work setup duty prepared).bind fun _ =>
    Program.Inlines.ask (r := .drain) (by simp) fun _ => .done ()
  obtain ⟨other, u, hOther, hAnswers, hGivens, -⟩ := hMirrors.exists_inlined hInlines hRest hCount hAfter
  refine ⟨first ++ other, u, Duty.speaks_flushed_iff.mpr ⟨prepared, first, other, rfl, ?_, hOther⟩,
    hBefore.trans hAnswers, ?_⟩
  · cases duty <;> exact hFirst
  · rw [givens, givens, List.filter_append, List.filter_append, ← givens, ← givens, hGivens]
    rfl

/-- A run with finalisations in the background has a counterpart that makes them at once and is given the
same from outside; and whichever counterpart that is, it comes to the same results, and to the same
reports in some order. -/
theorem same_without_background (hJobs : s.jobs = []) (hTable : s.store.results.isSome = true)
    (hSpeaks : (duty.flushed (setup.inBackground true)).Speaks log (.done ()))
    (hReplies : (predictable delivers).Replies s log t) :
    (∃ other u, (duty.flushed (setup.inBackground false)).Speaks other (.done ()) ∧
        (predictable delivers).Replies s other u ∧ givens other = givens log) ∧
      ∀ other u, (duty.flushed (setup.inBackground false)).Speaks other (.done ()) →
        (predictable delivers).Replies s other u → givens other = givens log →
          u.store.results = t.store.results ∧ u.notified.Perm t.notified := by
  refine ⟨exists_without_background hJobs hTable hSpeaks hReplies, fun other u hOther hAnswers hGivens => ?_⟩
  obtain ⟨-, hSame⟩ := (Duty.inlines_flushed setup duty).same_closings hSpeaks hOther
    (foretold_of_replies hTable hReplies) (foretold_of_replies hTable hAnswers) hGivens
  obtain ⟨hResults, hNotified⟩ := accounts_of_flushed hJobs hTable hSpeaks hReplies
  obtain ⟨hOtherResults, hOtherNotified⟩ := accounts_of_flushed hJobs hTable hOther hAnswers
  rw [← hSame] at hOtherResults hOtherNotified
  exact ⟨hOtherResults.trans hResults.symm, hOtherNotified.trans hNotified.symm⟩

/-! ### Two entries at the same tick -/

/-- An entry that runs once, at the first tick, and is reported. -/
def voice (name : String) (priority : Int32) : Entry :=
  Draft.entryFrom ⟨name, "sing", some priority, some 1, none, false, none, some "http://hall", none⟩ 1 none
    "first"

def duet : Scene where
  store := ([voice "alto" 1, voice "bass" 2].foldlM Store.insertEntry .empty).toOption.getD .empty
  clock := 1

/-- Someone is there to be told. -/
def attended : LoopSetup where
  hasNotifier := true

/-- Every report is delivered. -/
abbrev attentive : Conduct Request Request.Answer Scene :=
  predictable fun _ _ => .ok ()

theorem attentive_attends : Attends attentive where
  work {_ _ _ r _} hJobs := by
    refine .work hJobs (answers_replyFinal _ _) ?_
    cases r with
    | record => exact trivial
    | notify => exact rfl
  finish hJobs := .finish hJobs

theorem answers_attentive (outcome : Task → Outcome) (r : Request) (s : Scene) :
    ∃ t, attentive.Drifts s t ∧ attentive.answers r t (reply outcome r s).1 (reply outcome r s).2 := by
  obtain ⟨t, hDrift, hAnswer⟩ := attentive_attends.answers_reply outcome r s
  refine ⟨t, hDrift, hAnswer, ?_⟩
  cases r with
  | final r =>
      cases r with
      | record => exact trivial
      | notify => exact rfl
  | _ => exact trivial

/-- A pass over both entries. -/
def sung (background : Bool) : Scene :=
  (((Duty.passes 1).flushed (attended.inBackground background)).run (reply fun _ => .returned none) duet).2

/-- What is said in that pass. -/
def singing (background : Bool) : List (Exchange Request.Answer) :=
  ((Duty.passes 1).flushed (attended.inBackground background)).said (reply fun _ => .returned none) duet

theorem sung_leaves : givens (singing false) = givens (singing true) ∧
    (∀ background, (sung background).store.resultNumbers.numbers =
      [(⟨"bass", 1⟩, if background then 2 else 3), (⟨"alto", 1⟩, 1)]) ∧
    (∀ name ∈ ["alto", "bass"], ((sung true).store.result? ⟨name, 1⟩).map ResultRow.status = some "success") ∧
    (sung true).notified.length = 2 := by
  -- merge sort does not compute well, putting tasks in one by one does
  unfold sung singing Duty.flushed Duty.program Duty.series
  unfold Pass.runOnce Pass.pass Pass.passOver Pass.announced
  rw [TaskQueue.ofList_eq]
  decide +kernel

theorem singing_possible (background : Bool) :
    ((Duty.passes 1).flushed (attended.inBackground background)).Speaks (singing background) (.done ()) ∧
      attentive.Replies duet (singing background) (sung background) :=
  ⟨Program.speaks_said _ _, Program.replies_said (answers_attentive _) _ _⟩

/-- Rows are numbered as they come into being, and another row may have come first. So the numbers of the
rows, which are no part of the results, tell a run with finalisations in the background from one without. -/
theorem numbered_otherwise : ∃ (log other : List (Exchange Request.Answer)) (t u : Scene),
    ((Duty.passes 1).flushed (attended.inBackground true)).Speaks log (.done ()) ∧
      attentive.Replies duet log t ∧
      ((Duty.passes 1).flushed (attended.inBackground false)).Speaks other (.done ()) ∧
      attentive.Replies duet other u ∧ givens other = givens log ∧
      t.store.resultNumbers.find? ⟨"bass", 1⟩ = some 2 ∧
      u.store.resultNumbers.find? ⟨"bass", 1⟩ = some 3 := by
  obtain ⟨hGivens, hNumbers, -, -⟩ := sung_leaves
  refine ⟨_, _, _, _, (singing_possible true).1, (singing_possible true).2, (singing_possible false).1,
    (singing_possible false).2, hGivens, ?_, ?_⟩
  · rw [Numbering.find?, hNumbers]
    rfl
  · rw [Numbering.find?, hNumbers]
    rfl

/-- Both voices succeed and are reported in the background, and would be without. -/
theorem same_without_background_of_duet : ∃ (log other : List (Exchange Request.Answer)) (t u : Scene),
    ((Duty.passes 1).flushed (attended.inBackground true)).Speaks log (.done ()) ∧
      attentive.Replies duet log t ∧
      ((Duty.passes 1).flushed (attended.inBackground false)).Speaks other (.done ()) ∧
      attentive.Replies duet other u ∧ givens other = givens log ∧
      u.store.results = t.store.results ∧ u.notified.Perm t.notified ∧
      (∀ name ∈ ["alto", "bass"], (u.store.result? ⟨name, 1⟩).map ResultRow.status = some "success") ∧
      u.notified.length = 2 := by
  obtain ⟨-, -, hResults, hReports⟩ := sung_leaves
  obtain ⟨hSpeaks, hReplies⟩ := singing_possible true
  obtain ⟨⟨other, u, hOther, hAnswers, hGivens⟩, hSame⟩ :=
    same_without_background rfl (by decide +kernel) hSpeaks hReplies
  obtain ⟨hTable, hNotified⟩ := hSame other u hOther hAnswers hGivens
  refine ⟨_, other, _, u, hSpeaks, hReplies, hOther, hAnswers, hGivens, hTable, hNotified, ?_, ?_⟩
  · intro name hName
    rw [Store.result?_congr hTable, hResults name hName]
  · rw [hNotified.length_eq, hReports]

end Scene

end TickScheduler
