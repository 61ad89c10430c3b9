import TickScheduler.Proofs.Engine.LoopInvariant
import TickScheduler.Proofs.Results.Bustle
import TickScheduler.Proofs.Results.Recording
/-!
What is pending in the background. As long as no entry is deleted, the finalisations there are of different
tasks, and of none that the loop is at work on or will take. This follows from the counters of the entries,
whatever is stored of earlier tasks.
-/
namespace TickScheduler.Scene

/-- The entry is there, and its counter is past an id. -/
def HasPassed (s : Scene) (name : String) (id : TaskId) : Prop :=
  (s.store.row? name).isSome = true ∧ s.store.CountsPast name id

/-- Whatever is pending of an entry has a lower id. -/
def Clears (keep : Nat) (name : String) (id : TaskId) (s : Scene) : Prop :=
  ∀ job ∈ s.jobs, job.Asks (FinalRequest.IsAbout keep fun other i => other = name → i < id)

/-- What is pending is of ids that the counters are past, and no two jobs are of one task. -/
structure Orderly (keep : Nat) (s : Scene) : Prop where
  past : ∀ job ∈ s.jobs, job.Asks (FinalRequest.IsAbout keep s.HasPassed)
  apart : s.jobs.Pairwise fun job other => ∃ P, job.Asks (FinalRequest.IsAbout keep P) ∧
    other.Asks (FinalRequest.IsAbout keep fun name id => ¬ P name id)

/-- What the loop knows of an entry that it is at work on: nothing pending is of the task that it has taken
of it, or will take. Ids are never restored meanwhile. -/
def KnowsPending (keep : Nat) : Note → Scene → Prop
  | .held e, s => (s.store.row? e.name).isSome = true ∧ s.Clears keep e.name e.nextTaskId
  | .counted _ _, _ => False
  | .ready τ, s | .opened τ, s | .called τ, s =>
      ∃ id, τ.taskId = some id ∧ s.Clears keep τ.entryName id ∧ s.HasPassed τ.entryName id

/-- A step after which nothing more is pending, and an entry is there with its counter. -/
structure Dwindles (name : String) (s t : Scene) : Prop where
  jobs : ∀ job ∈ t.jobs, ∃ old ∈ s.jobs, ∀ allowed, old.Asks allowed → job.Asks allowed
  passed : ∀ id, s.HasPassed name id → t.HasPassed name id
  stays : (s.store.row? name).isSome = true → (t.store.row? name).isSome = true

variable {s t : Scene} {keep : Nat} {name : String} {id : TaskId}

namespace Dwindles

theorem of_entries (hEntries : t.store.entries = s.store.entries) (hJobs : t.jobs = s.jobs) :
    Dwindles name s t where
  jobs job hJob := ⟨job, hJobs ▸ hJob, fun _ => id⟩
  passed id h := by
    rwa [HasPassed, Store.CountsPast, Store.row?_congr hEntries]
  stays h := by
    rwa [Store.row?_congr hEntries]

theorem clears (h : Dwindles name s t) {other : String} (hClears : s.Clears keep other id) :
    t.Clears keep other id := fun job hJob => by
  obtain ⟨old, hOld, hAsks⟩ := h.jobs job hJob
  exact hAsks _ (hClears old hOld)

theorem knows (note : Note) (h : Dwindles note.name s t) (hKnows : KnowsPending keep note s) :
    KnowsPending keep note t := by
  cases note with
  | held e => exact ⟨h.stays hKnows.1, h.clears hKnows.2⟩
  | counted => exact hKnows
  | ready τ | opened τ | called τ =>
      obtain ⟨id, hId, hClears, hPassed⟩ := hKnows
      exact ⟨id, hId, h.clears hClears, h.passed id hPassed⟩

/-- The order of jobs has to be looked at apart. -/
theorem orderly (h : ∀ name, Dwindles name s t)
    (hApart : t.jobs.Pairwise fun job other => ∃ P, job.Asks (FinalRequest.IsAbout keep P) ∧
      other.Asks (FinalRequest.IsAbout keep fun name id => ¬ P name id))
    (hOrderly : s.Orderly keep) : t.Orderly keep where
  past job hJob := by
    obtain ⟨old, hOld, hAsks⟩ := (h "").jobs job hJob
    exact (hAsks _ (hOrderly.past old hOld)).mono fun r hAbout => hAbout.mono fun name => (h name).passed
  apart := hApart

end Dwindles

/-- Nothing but the background touches what is pending. -/
theorem dwindles_of_bustles {ends : String → Payload → Except Error Unit → Prop} {allows : Deed → Prop}
    (hKept : ∀ name, ¬ allows (.delete name)) (h : Bustles ends allows s t) : Dwindles name s t := by
  cases h with
  | @work u before after r next a hJobs hAnswer hEnds =>
      have hSame : Dwindles name s { u with jobs := s.jobs } :=
        .of_entries (entries_of_answersFinal hAnswer).1 rfl
      refine { hSame with jobs := fun job hJob => ?_ }
      rw [hJobs]
      simp only [List.mem_append, List.mem_cons] at hJob ⊢
      rcases hJob with hJob | rfl | hJob
      · exact ⟨job, .inl hJob, fun _ => id⟩
      · exact ⟨.ask r next, .inr (.inl rfl), fun _ hAsks => hAsks.2 a⟩
      · exact ⟨job, .inr (.inr hJob), fun _ => id⟩
  | @finish before after result hJobs =>
      have hSame : Dwindles name s s := .of_entries rfl rfl
      refine { hSame with jobs := fun job hJob => ⟨job, ?_, fun _ => id⟩ }
      rw [hJobs]
      simp only [List.mem_append, List.mem_cons] at hJob ⊢
      exact hJob.imp_right .inr
  | age h =>
      obtain ⟨clock, -, rfl⟩ := h
      exact .of_entries rfl rfl
  | stop => exact .of_entries rfl rfl
  | @deed deed store hAllowed hStore =>
      have hStays (hRow : (s.store.row? name).isSome = true) : (store.row? name).isSome = true :=
        deed.isSome_row? hStore (fun hSame => hKept name (hSame ▸ hAllowed)) hRow
      refine ⟨fun job hJob => ⟨job, hJob, fun _ => id⟩, fun id ⟨hRow, hPast⟩ => ⟨hStays hRow, ?_⟩, hStays⟩
      refine hPast.mono fun now hNow => ?_
      rcases Deed.nextTaskId_of_apply hStore hNow with ⟨old, hOld, hSame⟩ | ⟨_, -, -, hNone, -⟩
      · exact ⟨old, hOld, Int64.le_of_eq hSame.symm⟩
      · rw [hNone] at hRow
        cases hRow

theorem Orderly.of_bustles {ends : String → Payload → Except Error Unit → Prop} {allows : Deed → Prop}
    (hKept : ∀ name, ¬ allows (.delete name)) (h : Bustles ends allows s t) (hOrderly : s.Orderly keep) :
    t.Orderly keep := by
  refine Dwindles.orderly (fun name => dwindles_of_bustles hKept h) ?_ hOrderly
  have hApart := hOrderly.apart
  cases h with
  | work hJobs =>
      -- one of the jobs has less to ask for, and is apart from the others all the more
      rw [hJobs, List.pairwise_append, List.pairwise_cons] at hApart
      obtain ⟨hBefore, ⟨hNext, hAfter⟩, hBoth⟩ := hApart
      refine List.pairwise_append.mpr ⟨hBefore, .cons (fun other hOther => ?_) hAfter, fun job hJob => ?_⟩
      · obtain ⟨P, hAsks, hOthers⟩ := hNext other hOther
        exact ⟨P, hAsks.2 _, hOthers⟩
      · refine List.forall_mem_cons.mpr ⟨?_, fun other hOther => hBoth job hJob other (.tail _ hOther)⟩
        obtain ⟨P, hAsks, hOthers⟩ := hBoth job hJob _ List.mem_cons_self
        exact ⟨P, hAsks, hOthers.2 _⟩
  | finish hJobs =>
      rw [hJobs] at hApart
      exact hApart.sublist (List.sublist_cons_self _ _ |>.append_left _)
  | age h =>
      obtain ⟨clock, -, rfl⟩ := h
      exact hApart
  | stop | deed => exact hApart

/-- Most requests of the loop leave entries and background alone. -/
theorem dwindles_of_answers {r : Request} {a : r.Answer} (h : Answers False r s a t)
    (hSave : ∀ e, r ≠ .saveCursor e) (hSpawn : ∀ job, r ≠ .spawn job) : Dwindles name s t :=
  .of_entries (entries_of_answers h hSave) (jobs_of_answers h hSpawn)

theorem Orderly.of_answers {r : Request} {a : r.Answer} (h : Answers False r s a t)
    (hSave : ∀ e, r ≠ .saveCursor e) (hSpawn : ∀ job, r ≠ .spawn job) (hOrderly : s.Orderly keep) :
    t.Orderly keep :=
  Dwindles.orderly (fun _ => dwindles_of_answers h hSave hSpawn)
    (jobs_of_answers h hSpawn ▸ hOrderly.apart) hOrderly

/-- A cursor is saved whose id nothing pending has reached. -/
theorem Orderly.of_save {f : Entry} {a : Except Error Unit} (hAnswer : Answers False (.saveCursor f) s a t)
    (hClears : s.Clears keep f.name f.nextTaskId) (hOrderly : s.Orderly keep) :
    t.Orderly keep ∧ t.jobs = s.jobs ∧ (∀ name, name ≠ f.name → Dwindles name s t) ∧
      ((s.store.row? f.name).isSome = true → (t.store.row? f.name).isSome = true) ∧
      (a = .ok () → ∀ id, id < f.nextTaskId → t.store.CountsPast f.name id) := by
  have hJobs := jobs_of_answers hAnswer (by simp)
  rcases Writes.cases hAnswer with ⟨store, hStore, -, rfl⟩ | ⟨e, rfl, rfl⟩
  · have hRewrites := Store.rewrites_of_saveCursor hStore
    have hStays (name : String) : (store.row? name).isSome = (s.store.row? name).isSome :=
      hRewrites.isSome_row? name
    have hPast (id : TaskId) (hId : id < f.nextTaskId) : store.CountsPast f.name id := by
      intro now hNow
      obtain ⟨old, -, rfl⟩ := Option.map_eq_some_iff.mp (hRewrites.same.symm.trans hNow)
      exact Std.lt_of_lt_of_le hId (old.le_nextTaskId_withCursor f)
    refine ⟨⟨fun job hJob => ?_, hOrderly.apart⟩, rfl, fun name hName => ?_, fun hRow => ?_, fun _ => hPast⟩
    · refine ((hOrderly.past job hJob).and (hClears job hJob)).mono fun r hBoth => ?_
      refine (hBoth.1.and hBoth.2).mono fun name id ⟨⟨hRow, hBefore⟩, hBelow⟩ => ?_
      refine ⟨(hStays name).trans hRow, ?_⟩
      by_cases hName : name = f.name
      · subst hName
        exact hPast id (hBelow rfl)
      · exact fun now hNow => hBefore now (hRewrites.other hName ▸ hNow)
    · refine ⟨fun job hJob => ⟨job, hJob, fun _ => id⟩, fun id ⟨hRow, hBefore⟩ => ?_, (hStays name).trans⟩
      exact ⟨(hStays name).trans hRow, fun now hNow => hBefore now (hRewrites.other hName ▸ hNow)⟩
    · exact (hStays f.name).trans hRow
  · refine ⟨hOrderly, rfl, fun _ _ => .of_entries rfl rfl, id, ?_⟩
    rintro ⟨⟩

/-- Surroundings in which ids are not restored. -/
def settled (c : Conduct Request Request.Answer Scene) : Conduct Request Request.Answer Scene where
  answers r s a t := c.answers r s a t ∧ ∀ name, r ≠ .lastTaskId name
  moves := c.moves

variable {ends : String → Payload → Except Error Unit → Prop} {allows : Deed → Prop}

/-- Nothing pending is of a task that the loop has taken or will take. -/
def orderly (setup : LoopSetup) (hKept : ∀ name, ¬ allows (.delete name)) :
    LoopInvariant setup (settled (bustling ends allows)) where
  inv := Orderly setup.settings.maxTaskResults
  holds := KnowsPending setup.settings.maxTaskResults
  moved hMove h := ⟨h.of_bustles hKept hMove, fun _ hNote => (dwindles_of_bustles hKept hMove).knows _ hNote⟩
  passive := by
    intro r s a t hPassive hAnswer h
    have hSave : ∀ e, r ≠ .saveCursor e := by
      rintro e rfl
      exact hPassive
    have hSpawn : ∀ job, r ≠ .spawn job := by
      rintro job rfl
      exact hPassive
    exact ⟨h.of_answers hAnswer.1.1 hSave hSpawn,
      fun note => (dwindles_of_answers hAnswer.1.1 hSave hSpawn).knows note⟩
  snapshot := by
    intro s entries t hAnswer h
    obtain ⟨rfl, hNodup, hRows⟩ := snapshot_answer hAnswer.1.1
    refine ⟨hNodup, fun e hEntry => ?_⟩
    obtain ⟨row, hRow, -, rfl⟩ := hRows e hEntry
    refine ⟨Option.isSome_of_mem hRow, fun job hJob => (h.past job hJob).mono fun r hAbout => ?_⟩
    exact hAbout.mono fun name id hPassed hName => hPassed.2 row (hName ▸ hRow)
  found hAnswer := entry_answer hAnswer.1.1
  counted hAnswer := absurd rfl (hAnswer.2 _)
  restored _ _ _ hCounted := hCounted.elim
  saved := by
    intro e now task f s a t hConsume hAnswer h ⟨hRow, hClears⟩
    have hConsumes := Entry.consumes_of_consume hConsume
    have hName := hConsumes.moves.name_eq
    have hRaised : s.Clears setup.settings.maxTaskResults f.name f.nextTaskId := fun job hJob => by
      refine (hClears job hJob).mono fun r hAbout => hAbout.mono fun name id hBelow hSame => ?_
      exact Std.lt_of_lt_of_le (hBelow (hSame.trans hName)) hConsumes.le_nextTaskId
    obtain ⟨hOrderly, hJobs, hOther, hStays, hPast⟩ := h.of_save hAnswer.1.1 hRaised
    rw [hName] at hOther hStays hPast
    refine ⟨hOrderly, fun hOk τ hTask => ?_, fun note hNote => (hOther note.name hNote).knows note⟩
    have hTakes := hConsumes.takes τ hTask
    refine ⟨e.nextTaskId, hTakes.taskId_eq, fun job hJob => ?_, ?_⟩
    · rw [hTakes.entryName_eq]
      exact hClears job (hJobs ▸ hJob)
    · rw [hTakes.entryName_eq]
      exact ⟨hStays hRow, hPast hOk _ hTakes.nextTaskId_lt⟩
  opened := by
    intro τ id started s a t hId hAnswer h hReady
    have hSame {name : String} : Dwindles name s t := dwindles_of_answers hAnswer.1.1 (by simp) (by simp)
    exact ⟨h.of_answers hAnswer.1.1 (by simp) (by simp), fun _ => hSame.knows (.opened τ) hReady,
      fun note _ => hSame.knows note⟩
  called := by
    intro τ id s a t _ hAnswer h hOpened
    have hSame {name : String} : Dwindles name s t := dwindles_of_answers hAnswer.1.1 (by simp) (by simp)
    exact ⟨h.of_answers hAnswer.1.1 (by simp) (by simp), hSame.knows (.called τ) hOpened,
      fun note _ => hSame.knows note⟩
  finalised := by
    intro τ id r s a t _ _ hAnswer h _
    exact ⟨h.of_answers hAnswer.1.1 (by simp) (by simp),
      fun note => (dwindles_of_answers hAnswer.1.1 (by simp) (by simp)).knows note⟩
  spawned := by
    intro τ id s a t job hId hAsks hAnswer h hCalled
    obtain ⟨own, hOwn, hClears, hPassed⟩ := hCalled
    obtain rfl : id = own := Option.some.inj (hId.symm.trans hOwn)
    obtain rfl : t = { s with jobs := s.jobs ++ [job.program] } := hAnswer.1.1
    have hAbout {P : String → TaskId → Prop} (hIs : P τ.entryName id) :
        job.program.Asks (FinalRequest.IsAbout setup.settings.maxTaskResults P) :=
      hAsks.mono fun r hCloses => FinalRequest.isAbout_of_closes hIs hCloses
    refine ⟨⟨?_, ?_⟩, fun note hOther hNote => ?_⟩
    · exact List.forall_mem_append.mpr ⟨h.past, List.forall_mem_singleton.mpr (hAbout hPassed)⟩
    · refine List.pairwise_append.mpr ⟨h.apart, List.pairwise_singleton _ _, fun old hOld _ hNew => ?_⟩
      obtain rfl := List.mem_singleton.mp hNew
      exact ⟨_, hClears old hOld, hAbout fun hBelow => Int64.lt_irrefl (hBelow rfl)⟩
    · have hStill {bound : TaskId} (hBefore : s.Clears setup.settings.maxTaskResults note.name bound) :
          Clears setup.settings.maxTaskResults note.name bound { s with jobs := s.jobs ++ [job.program] } :=
        List.forall_mem_append.mpr ⟨hBefore,
          List.forall_mem_singleton.mpr (hAbout fun hSame => absurd hSame.symm hOther)⟩
      cases note with
      | held e => exact ⟨hNote.1, hStill hNote.2⟩
      | counted => exact hNote
      | ready σ | opened σ | called σ =>
          obtain ⟨i, hi, hBefore, hPast⟩ := hNote
          exact ⟨i, hi, hStill hBefore, hPast⟩

end TickScheduler.Scene
