import TickScheduler.Proofs.Results.Pending
/-!
What becomes of results and reports, whether they are made at once or later. If it is known how every report
ends, then it is known from the moment a finalisation is begun what it will ask for. What is stored and
reported, together with what is pending, is at any time what the loop has asked for until then.
-/
namespace TickScheduler

variable {delivers : String → Payload → Except Error Unit}

namespace FinalRequest

/-- The answers if no result is refused and it is known how each report ends. -/
def foretold (delivers : String → Payload → Except Error Unit) : (r : FinalRequest) → r.Answer
  | record _ _ => .ok ()
  | notify url payload => delivers url payload

def report? : FinalRequest → Option (String × Payload)
  | record _ _ => none
  | notify url payload => some (url, payload)

end FinalRequest

/-- What is asked about results in an exchange, and in the background because of it. -/
def Exchange.closings (delivers : String → Payload → Except Error Unit) :
    Exchange Request.Answer → List FinalRequest
  | ⟨.final r, _⟩ => [r]
  | ⟨.spawn job, _⟩ => job.program.asked (FinalRequest.foretold delivers)
  | _ => []

theorem Exchange.closings_of_other {r : Request} {a : r.Answer} (hFinal : ∀ r', r ≠ .final r')
    (hSpawn : ∀ job, r ≠ .spawn job) : closings delivers ⟨r, a⟩ = [] := by
  cases r with
  | final r' => exact absurd rfl (hFinal r')
  | spawn job => exact absurd rfl (hSpawn job)
  | _ => rfl

namespace Scene

/-- Surroundings in which it is known how every report ends, and no entry is deleted. -/
def predictable (delivers : String → Payload → Except Error Unit) : Conduct Request Request.Answer Scene :=
  bustling (fun url payload a => a = delivers url payload) fun deed => ∀ name, deed ≠ .delete name

/-- The reports that were made, in order. -/
def notified (s : Scene) : List (String × Payload) :=
  s.journal.filterMap fun
    | .notified url payload => some (url, payload)
    | _ => none

/-- What the background will ask for, one job after the other. -/
def pending (delivers : String → Payload → Except Error Unit) (s : Scene) : List FinalRequest :=
  s.jobs.flatMap (Program.asked (FinalRequest.foretold delivers))

/-- What is stored, reported or pending in the end is what was in the beginning, and what was asked for
since then. -/
structure Accounts (delivers : String → Payload → Except Error Unit) (s : Scene) (rs : List FinalRequest)
    (t : Scene) : Prop where
  results : t.store.results.map (fun table => (t.pending delivers).foldl FinalRequest.write table) =
    s.store.results.map fun table => (s.pending delivers ++ rs).foldl FinalRequest.write table
  notified : (t.notified ++ (t.pending delivers).filterMap FinalRequest.report?).Perm
    (s.notified ++ (s.pending delivers ++ rs).filterMap FinalRequest.report?)

variable {s t u : Scene} {rs more : List FinalRequest} {r : FinalRequest}

theorem notified_note (s : Scene) (event : Event) : (s.note event).notified = s.notified ++
    match event with
    | .notified url payload => [(url, payload)]
    | _ => [] := by
  unfold notified note
  rw [List.filterMap_append]
  cases event <;> rfl

/-- What a request of a finalisation does. -/
theorem written_of_answersFinal {a : r.Answer} (hTable : s.store.results.isSome = true)
    (h : AnswersFinal False r s a t) :
    t.store.results = s.store.results.map (FinalRequest.write · r) ∧
      t.notified = s.notified ++ r.report?.toList ∧ t.jobs = s.jobs := by
  cases r with
  | record result keep =>
      obtain ⟨-, store, hStore, rfl⟩ := recorded_of_answers hTable h
      obtain ⟨table, hBefore, hAfter⟩ := Store.results_of_recordResult hStore
      refine ⟨?_, ?_, rfl⟩
      · change store.results = _
        rw [hAfter, hBefore]
        rfl
      · rw [record, notified_note]
        rfl
  | notify url payload =>
      obtain rfl := h
      refine ⟨?_, ?_, rfl⟩
      · change s.store.results = s.store.results.map id
        rw [Option.map_id_apply]
      · rw [notified_note]
        rfl

/-- A report ends as it is known, and no result is refused. -/
theorem foretold_of_answersFinal {a : r.Answer} (hTable : s.store.results.isSome = true)
    (hAnswer : AnswersFinal False r s a t)
    (hEnds : r.Ends (fun url payload a => a = delivers url payload) a) : a = r.foretold delivers := by
  cases r with
  | record result keep => exact (recorded_of_answers hTable hAnswer).1
  | notify => exact hEnds

theorem notified_of_answers {r : Request} {a : r.Answer} (h : Answers False r s a t)
    (hFinal : ∀ r', r ≠ .final r') : t.notified = s.notified := by
  by_cases hPassive : r.IsPassive
  · obtain ⟨monitor, rfl⟩ := passive_answer hPassive h
    rfl
  · cases r with
    | saveCursor e => rcases Writes.cases h with ⟨store, -, -, rfl⟩ | ⟨_, -, rfl⟩ <;> rfl
    | final r' => exact absurd rfl (hFinal r')
    | call task id =>
        obtain rfl : t = s.note (.called task) := h
        rw [notified_note, List.append_nil]
    | spawn =>
        obtain rfl := h
        rfl
    | _ => exact (hPassive trivial).elim

namespace Accounts

theorem trans (left : Accounts delivers s rs t) (right : Accounts delivers t more u) :
    Accounts delivers s (rs ++ more) u where
  results := by
    have hLeft := congrArg (Option.map fun table => more.foldl FinalRequest.write table) left.results
    rw [Option.map_map, Option.map_map] at hLeft
    rw [right.results]
    simpa only [Function.comp_def, List.foldl_append] using hLeft
  notified := by
    refine right.notified.trans ?_
    rw [List.filterMap_append, ← List.append_assoc, ← List.append_assoc, List.filterMap_append,
      ← List.append_assoc]
    exact left.notified.append_right _

/-- A step that neither stores nor reports anything. -/
theorem of_same (hResults : t.store.results = s.store.results) (hNotified : t.notified = s.notified)
    (hPending : t.pending delivers = s.pending delivers) : Accounts delivers s [] t where
  results := by rw [hResults, hPending, List.append_nil]
  notified := by rw [hNotified, hPending, List.append_nil]

/-- What is asked at once may as well be asked after all that is pending. -/
theorem of_final {a : r.Answer} (hTable : s.store.results.isSome = true)
    (hAnswer : AnswersFinal False r s a t) (hApart : ∀ other ∈ s.pending delivers, r.Commutes other) :
    Accounts delivers s [r] t := by
  obtain ⟨hResults, hNotified, hJobs⟩ := written_of_answersFinal hTable hAnswer
  have hPending : t.pending delivers = s.pending delivers := by
    rw [pending, hJobs, pending]
  constructor
  · rw [hResults, hPending, Option.map_map]
    simp only [Function.comp_def, List.foldl_append, List.foldl_cons, List.foldl_nil,
      FinalRequest.foldl_write_comm hApart]
  · rw [hNotified, hPending, List.filterMap_append, List.append_assoc]
    exact List.perm_append_comm.append_left _

/-- What is put into the background is asked for later. -/
theorem of_spawn {job : Finalisation} :
    Accounts delivers s (job.program.asked (FinalRequest.foretold delivers))
      { s with jobs := s.jobs ++ [job.program] } := by
  have hPending : pending delivers { s with jobs := s.jobs ++ [job.program] } =
      s.pending delivers ++ job.program.asked (FinalRequest.foretold delivers) := by
    rw [pending, List.flatMap_append, List.flatMap_singleton, pending]
  constructor
  · rw [hPending]
  · rw [hPending]
    exact .refl _

/-- What the background does was pending before. -/
theorem of_work {before after : List Job} {next : r.Answer → Job} {a : r.Answer}
    (hTable : s.store.results.isSome = true) (hJobs : s.jobs = before ++ .ask r next :: after)
    (hAnswer : AnswersFinal False r s a t) (hForetold : a = r.foretold delivers)
    (hApart : ∀ job ∈ before, ∀ other ∈ job.asked (FinalRequest.foretold delivers), r.Commutes other) :
    Accounts delivers s [] { t with jobs := before ++ next a :: after } := by
  obtain ⟨hResults, hNotified, -⟩ := written_of_answersFinal hTable hAnswer
  let first : List FinalRequest := before.flatMap (Program.asked (FinalRequest.foretold delivers))
  let rest : List FinalRequest := (next a).asked (FinalRequest.foretold delivers) ++
    after.flatMap (Program.asked (FinalRequest.foretold delivers))
  have hBefore : s.pending delivers = first ++ r :: rest := by
    subst hForetold
    rw [pending, hJobs, List.flatMap_append, List.flatMap_cons]
    rfl
  have hAfter : pending delivers { t with jobs := before ++ next a :: after } = first ++ rest := by
    rw [pending, List.flatMap_append, List.flatMap_cons]
  have hFirst : ∀ other ∈ first, r.Commutes other := fun other hOther => by
    obtain ⟨job, hJob, hAsked⟩ := List.mem_flatMap.mp hOther
    exact hApart job hJob other hAsked
  constructor
  · rw [hAfter, hBefore, List.append_nil]
    change t.store.results.map _ = _
    rw [hResults, Option.map_map]
    simp only [Function.comp_def, List.foldl_append, List.foldl_cons, FinalRequest.foldl_write_comm hFirst]
  · rw [hAfter, hBefore, List.append_nil]
    change (t.notified ++ _).Perm _
    rw [hNotified, List.append_assoc]
    have hReport : r.report?.toList ++ (first ++ rest).filterMap FinalRequest.report? =
        (r :: (first ++ rest)).filterMap FinalRequest.report? := by
      cases r <;> rfl
    rw [hReport]
    exact (List.perm_middle.symm.filterMap _).append_left _

/-- Whatever happens in between makes no difference. -/
theorem of_bustles (hTable : s.store.results.isSome = true) {keep : Nat} (hOrderly : s.Orderly keep)
    (h : (predictable delivers).moves s t) : Accounts delivers s [] t := by
  cases h with
  | @work u before after r next a hJobs hAnswer hEnds =>
      have hForetold := foretold_of_answersFinal hTable hAnswer hEnds
      refine of_work hTable hJobs hAnswer hForetold fun job hJob other hOther => ?_
      have hApart := hOrderly.apart
      rw [hJobs, List.pairwise_append] at hApart
      obtain ⟨P, hAsks, hOwn⟩ := hApart.2.2 job hJob _ List.mem_cons_self
      exact ((hAsks.of_asked other hOther).commutes hOwn.1).symm
  | @finish before after result hJobs =>
      refine of_same rfl rfl ?_
      rw [pending, pending, hJobs, List.flatMap_append, List.flatMap_append, List.flatMap_cons]
      rfl
  | age h =>
      obtain ⟨clock, -, rfl⟩ := h
      exact of_same rfl rfl rfl
  | stop => exact of_same rfl rfl rfl
  | deed hAllowed hStore => exact of_same (Deed.results_eq hStore hAllowed) rfl rfl

end Accounts

/-- As no entry is deleted, the background stays orderly. -/
def keptOrderly (delivers : String → Payload → Except Error Unit) (setup : LoopSetup) :
    LoopInvariant setup (settled (predictable delivers)) :=
  orderly setup fun name hKept => hKept name rfl

/-- A request of the loop is about a task that nothing pending is about. -/
theorem commutes_of_permits {setup : LoopSetup} {φ : Course} {restoring : Prop}
    (hPermits : φ.Permits setup restoring (.final r)) (hTracks : (keptOrderly delivers setup).Tracks φ s) :
    ∀ other ∈ s.pending delivers, r.Commutes other := by
  obtain ⟨τ, id, hId, hCase⟩ := hPermits
  have hAbout : r.IsAbout setup.settings.maxTaskResults fun name i => name = τ.entryName ∧ i = id := by
    rcases hCase with ⟨-, started, rfl⟩ | ⟨-, hCloses⟩
    · exact ⟨⟨rfl, rfl⟩, rfl⟩
    · exact FinalRequest.isAbout_of_closes ⟨rfl, rfl⟩ hCloses
  obtain ⟨headway, hCurrent⟩ : ∃ headway, φ.current = some (τ, headway) :=
    hCase.elim (fun h => ⟨_, h.1⟩) fun h => ⟨_, h.1⟩
  have hKnows : KnowsPending setup.settings.maxTaskResults (.ready τ) s := by
    have hNote := hTracks.1.2 (Course.noteOf (τ, headway)) (Course.mem_notes.mpr (by simp [hCurrent]))
    cases headway <;> exact hNote
  obtain ⟨own, hOwn, hClears, -⟩ := hKnows
  obtain rfl : id = own := Option.some.inj (hId.symm.trans hOwn)
  intro other hOther
  obtain ⟨job, hJob, hAsked⟩ := List.mem_flatMap.mp hOther
  refine (((hClears job hJob).of_asked other hAsked).commutes (hAbout.mono ?_)).symm
  rintro _ _ ⟨rfl, rfl⟩ hBelow
  exact Int64.lt_irrefl (hBelow rfl)

theorem Accounts.of_answers {setup : LoopSetup} {φ : Course} {restoring : Prop} {r : Request} {a : r.Answer}
    (hPermits : φ.Permits setup restoring r) (hTracks : (keptOrderly delivers setup).Tracks φ s)
    (hTable : s.store.results.isSome = true) (hAnswer : Answers False r s a t) :
    Accounts delivers s (Exchange.closings delivers ⟨r, a⟩) t := by
  by_cases hFinal : ∃ r', r = .final r'
  · obtain ⟨r', rfl⟩ := hFinal
    exact of_final hTable hAnswer (commutes_of_permits hPermits hTracks)
  · by_cases hSpawn : ∃ job, r = .spawn job
    · obtain ⟨job, rfl⟩ := hSpawn
      obtain rfl : t = { s with jobs := s.jobs ++ [job.program] } := hAnswer
      exact of_spawn
    · rw [Exchange.closings_of_other (not_exists.mp hFinal) (not_exists.mp hSpawn)]
      refine of_same (results_of_answers hAnswer (not_exists.mp hFinal))
        (notified_of_answers hAnswer (not_exists.mp hFinal)) ?_
      rw [pending, jobs_of_answers hAnswer (not_exists.mp hSpawn), pending]

theorem orderly_of_idle {keep : Nat} (hJobs : s.jobs = []) : s.Orderly keep := by
  constructor <;> rw [hJobs]
  · exact List.forall_mem_nil _
  · exact .nil

/-- At any time, what is stored and reported together with what is pending is what was asked for. -/
theorem accounts_of_replies {setup : LoopSetup} {Result : Type} {p q : Program Request Request.Answer Result}
    {post : Result → Course → Prop} {log : List (Exchange Request.Answer)}
    (hOrderly : s.Orderly setup.settings.maxTaskResults) (hTable : s.store.results.isSome = true)
    (hObeys : ∀ φ, p.Obeys (Course.discipline setup False) post φ) (hSpeaks : p.Speaks log q)
    (hReplies : (predictable delivers).Replies s log t) :
    Accounts delivers s (log.flatMap (Exchange.closings delivers)) t ∧
      t.Orderly setup.settings.maxTaskResults ∧ t.store.results.isSome = true := by
  have hStart : (keptOrderly delivers setup).Tracks { time := 0 } s :=
    ⟨LoopInvariant.knows_nil hOrderly, .nil⟩
  let inv (log : List (Exchange Request.Answer)) (φ : Course) (u : Scene) : Prop :=
    (keptOrderly delivers setup).Tracks φ u ∧ u.store.results.isSome = true ∧
      Accounts delivers s (log.flatMap (Exchange.closings delivers)) u
  have hCome : ∃ ψ, inv ([] ++ log) ψ t ∧ q.Obeys (Course.discipline setup False) post ψ := by
    refine (hObeys { time := 0 }).of_replies inv ?_ ?_ hSpeaks hReplies ⟨hStart, hTable, .of_same rfl rfl rfl⟩
    · rintro log φ u v hMove ⟨hTracks, hTable, hAccounts⟩
      have hSame := hAccounts.trans (.of_bustles hTable hTracks.1.1 hMove)
      rw [List.append_nil] at hSame
      exact ⟨⟨hTracks.1.moved hMove, hTracks.2⟩, hMove.isSome_results.trans hTable, hSame⟩
    · rintro log φ r u a v hPermits hAnswer ⟨hTracks, hTable, hAccounts⟩
      have hSettled : (settled (predictable delivers)).answers r u a v :=
        ⟨hAnswer, fun name hRestores => by subst hRestores; exact hPermits.1⟩
      obtain ⟨hSense, hNext⟩ := LoopInvariant.tracks_after hPermits hSettled hTracks
      refine ⟨hSense, hNext, (isSome_results_of_answers hAnswer.1).trans hTable, ?_⟩
      rw [List.flatMap_append, List.flatMap_singleton]
      exact hAccounts.trans (.of_answers hPermits hTracks hTable hAnswer.1)
  obtain ⟨_, ⟨hTracks, hTables, hAccounts⟩, -⟩ := hCome
  exact ⟨hAccounts, hTracks.1.1, hTables⟩

end Scene

end TickScheduler
