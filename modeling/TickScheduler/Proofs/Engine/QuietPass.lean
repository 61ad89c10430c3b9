import TickScheduler.Proofs.Engine.DueTasks
import TickScheduler.Proofs.Engine.Replies
/-!
A pass that nobody disturbs. It settles the rows and runs what is due of them; only the results depend
on more than on the rows and the clock.
-/
namespace TickScheduler.Scene

/-- What of a scene matters to a pass that nobody disturbs. -/
structure Shows (rows : Rows) (clock : Tick) (executed : List Task) (s : Scene) : Prop where
  row?_eq : ∀ name, s.store.row? name = rows name
  entries : s.store.entries.isSome = true
  results : s.store.results.isSome = true
  clock_eq : s.clock = clock
  executed_eq : s.executed = executed

variable {s t : Scene} {rows : Rows} {clock : Tick} {executed : List Task}

theorem results_of_answersFinal {faulty : Prop} {r : FinalRequest} {a : r.Answer}
    (hAnswer : AnswersFinal faulty r s a t) (h : s.store.results.isSome = true) :
    t.store.results.isSome = true := by
  cases r with
  | record result keep =>
      rcases record_cases hAnswer with ⟨store, hStore, -, rfl⟩ | ⟨e, -, rfl⟩
      · obtain ⟨other, hOther, hSome⟩ := Store.exists_recordResult h result keep
        obtain rfl := Except.ok.inj (hStore.symm.trans hOther)
        exact hSome
      · exact h
  | notify url payload =>
      subst hAnswer
      exact h

/-- The active entries of a store are a snapshot of its rows. -/
theorem lists_of_activeEntries {store : Store} {entries : List Entry} (h : store.activeEntries = .ok entries) :
    Lists store.row? entries := by
  obtain ⟨hNodup, hMem⟩ := Store.mem_activeEntries h
  refine ⟨hNodup, fun e => (hMem e).trans ⟨?_, ?_⟩⟩
  · rintro ⟨row, hRow, hActive, hRead⟩
    exact ⟨row, hRow, hActive, (EntryRow.read_eq_ok_iff.mp hRead).2⟩
  · rintro ⟨row, hRow, hActive, rfl⟩
    exact ⟨row, hRow, hActive, Store.read_of_activeEntries h hRow hActive⟩

namespace Shows

theorem self (h : s.store.entries.isSome = true ∧ s.store.results.isSome = true) :
    s.Shows s.store.row? s.clock s.executed :=
  ⟨fun _ => rfl, h.1, h.2, rfl, rfl⟩

theorem name_eq (h : s.Shows rows clock executed) (name : String) (row : EntryRow)
    (hRow : rows name = some row) : row.name = name :=
  Store.name_of_row? ((h.row?_eq name).trans hRow)

/-- The active rows can be listed. -/
theorem exists_lists (h : s.Shows rows clock executed)
    (hReadable : ∀ name row, rows name = some row → row.activeFlag = 1 → row.IsReadable) :
    ∃ entries, s.store.activeEntries = .ok entries ∧ Lists rows entries := by
  obtain ⟨entries, hEntries⟩ := Store.exists_activeEntries h.entries fun name row hRow hActive =>
    hReadable name row ((h.row?_eq name).symm.trans hRow) hActive
  exact ⟨entries, hEntries, funext h.row?_eq ▸ lists_of_activeEntries hEntries⟩

theorem of_answersFinal {r : FinalRequest} {a : r.Answer} (hAnswer : AnswersFinal False r s a t)
    (h : s.Shows rows clock executed) : t.Shows rows clock executed := by
  obtain ⟨hEntries, hExecuted⟩ := entries_of_answersFinal hAnswer
  have hResults := results_of_answersFinal hAnswer h.results
  have hClock : t.clock = s.clock := by
    obtain ⟨_, _, rfl⟩ := frame_of_answersFinal hAnswer
    rfl
  exact {
    row?_eq := fun name => (Store.row?_congr hEntries name).trans (h.row?_eq name)
    entries := hEntries ▸ h.entries
    results := hResults
    clock_eq := hClock.trans h.clock_eq
    executed_eq := hExecuted.trans h.executed_eq }

theorem moved (hMove : Works False s t) (h : s.Shows rows clock executed) :
    t.Shows rows clock executed := by
  cases hMove with
  | step hJobs hAnswer => exact { h.of_answersFinal hAnswer with }
  | finish hJobs => exact { h with }

theorem passive {r : Request} {a : r.Answer} (h : s.Shows rows clock executed)
    (hAnswer : Answers False r s a t) (hPassive : r.IsPassive) : t.Shows rows clock executed := by
  obtain ⟨monitor, rfl⟩ := passive_answer hPassive hAnswer
  exact { h with }

end Shows

/-- Storing a result succeeds. -/
theorem Shows.recorded {result : TaskResult} {keep : Nat} {a : Except Error Unit}
    (h : s.Shows rows clock executed) (hAnswer : Answers False (.final (.record result keep)) s a t) :
    a = .ok () ∧ t.Shows rows clock executed := by
  refine ⟨?_, h.of_answersFinal (r := .record result keep) hAnswer⟩
  rcases hAnswer with ⟨-, -, hOk, -⟩ | ⟨fault, -, -, hFault | hFalse⟩
  · exact hOk
  · obtain ⟨store, hStore, -⟩ := Store.exists_recordResult h.results result keep
    rw [hStore] at hFault
    cases hFault
  · exact hFalse.elim

/-! ### Walking through a part of the loop -/

/-- Whether an entry was read from the stored version. -/
def OnVersion (e : Entry) (s : Scene) : Prop :=
  ∀ row, s.store.row? e.name = some row → row.modifiedAt = e.modifiedAt

/-- Surroundings that do nothing of themselves but finish what is in the background. Strict ones may
refuse to save a cursor over another version. -/
structure Quietens (strict : Prop) (c : Conduct Request Request.Answer Scene) : Prop where
  answers : ∀ {r s a t}, (strict → ∀ e, r = .saveCursor e → OnVersion e s) → c.answers r s a t →
    Answers False r s a t
  moves : ∀ {s t}, c.moves s t → Works False s t

theorem Quietens.keeps {strict : Prop} {c : Conduct Request Request.Answer Scene}
    (quietens : Quietens strict c) (s t : Scene) (hMove : c.moves s t) (h : s.Shows rows clock executed) :
    t.Shows rows clock executed :=
  h.moved (quietens.moves hMove)

theorem quiet_quietens : Quietens False quiet where
  answers _ h := h
  moves h := h

variable {setup : LoopSetup} {strict : Prop} {c : Conduct Request Request.Answer Scene} {α β : Type}

/-- Left to itself, a part of the loop does not fail, and this is what it comes to. -/
def Ends (c : Conduct Request Request.Answer Scene) (part : Engine α) (post : α → Scene → Prop)
    (s : Scene) : Prop :=
  Program.Upholds c (fun _ => True) (fun result t => ∃ x, result = .ok x ∧ post x t) (ExceptT.run part) s

theorem Ends.bind {part : Engine α} {f : α → Engine β} {post : α → Scene → Prop}
    {last : β → Scene → Prop} (h : Ends c part post s) (hNext : ∀ x t, post x t → Ends c (f x) last t) :
    Ends c (part >>= f) last s := by
  refine Program.Upholds.bind h fun result t _ hPost => ?_
  obtain ⟨x, rfl, hx⟩ := hPost
  exact hNext x t hx

variable (quietens : Quietens strict c)

include quietens

theorem ends_pure {x : α} {post : α → Scene → Prop} (h : s.Shows rows clock executed)
    (hPost : ∀ t, t.Shows rows clock executed → post x t) : Ends c (pure x) post s :=
  .done quietens.keeps (fun _ _ => trivial) (fun t hShows => ⟨x, rfl, hPost t hShows⟩) h

theorem ends_ask {r : Request} {f : r.Answer → Engine β} {post : β → Scene → Prop}
    (hSave : strict → ∀ e, r = .saveCursor e → ∀ row, rows e.name = some row →
      row.modifiedAt = e.modifiedAt)
    (h : s.Shows rows clock executed)
    (hNext : ∀ t a u, t.Shows rows clock executed → Answers False r t a u → Ends c (f a) post u) :
    Ends c (Engine.ask r >>= f) post s :=
  .ask quietens.keeps (fun _ _ => trivial) h
    fun t a u hShows hAnswer => hNext t a u hShows <|
      quietens.answers (fun hStrict e hr row hRow =>
        hSave hStrict e hr row ((hShows.row?_eq e.name).symm.trans hRow)) hAnswer

theorem ends_passive {r : Request} {f : r.Answer → Engine β} {post : β → Scene → Prop}
    (hPassive : r.IsPassive) (h : s.Shows rows clock executed)
    (hNext : ∀ a t, t.Shows rows clock executed → Ends c (f a) post t) :
    Ends c (Engine.ask r >>= f) post s :=
  ends_ask quietens (fun _ _ hSave => by subst hSave; exact hPassive.elim) h
    fun _ a u hShows hAnswer => hNext a u (hShows.passive hAnswer hPassive)

theorem ends_last {r : Request} {post : r.Answer → Scene → Prop} (hPassive : r.IsPassive)
    (h : s.Shows rows clock executed) (hPost : ∀ a t, t.Shows rows clock executed → post a t) :
    Ends c (Engine.ask r) post s := by
  rw [← bind_pure (Engine.ask r)]
  exact ends_passive quietens hPassive h fun a t hShows => ends_pure quietens hShows (hPost a)

theorem ends_now {f : Tick → Engine β} {post : β → Scene → Prop} (h : s.Shows rows clock executed)
    (hNext : ∀ t, t.Shows rows clock executed → Ends c (f clock) post t) :
    Ends c (Engine.ask .now >>= f) post s := by
  refine ends_ask quietens (by simp) h fun t now u hShows hAnswer => ?_
  obtain ⟨rfl, rfl⟩ := hAnswer
  rw [hShows.clock_eq]
  exact hNext _ hShows

/-- Saving a cursor succeeds. -/
theorem ends_saveCursor {e : Entry} {f : Unit → Engine β} {post : β → Scene → Prop}
    (hVersion : strict → ∀ row, rows e.name = some row → row.modifiedAt = e.modifiedAt)
    (h : s.Shows rows clock executed)
    (hNext : ∀ t, t.Shows (rows.save e) clock executed → Ends c (f ()) post t) :
    Ends c (Engine.saveCursor e >>= f) post s := by
  unfold Engine.saveCursor
  rw [bind_assoc]
  refine ends_ask quietens (fun hStrict f hf => ?_) h fun t a u hShows hAnswer => ?_
  · obtain rfl := Request.saveCursor.inj hf
    exact hVersion hStrict
  obtain ⟨store, hStore, hSome⟩ := Store.exists_saveCursor hShows.entries e
  rcases hAnswer with ⟨other, hOther, rfl, rfl⟩ | ⟨fault, -, -, hFault | hFalse⟩
  · obtain rfl := Except.ok.inj (hStore.symm.trans hOther)
    have hRewrites := Store.rewrites_of_saveCursor hStore
    refine hNext _ { hShows with row?_eq := fun name => ?_, entries := hSome, results := ?_ }
    · rw [Rows.save, ← hShows.row?_eq]
      exact hRewrites.row?_eq name
    · rw [hRewrites.results_eq]
      exact hShows.results
  · rw [hStore] at hFault
    cases hFault
  · exact hFalse.elim

/-- The end of a finalisation. -/
private theorem upholds_ok (h : s.Shows rows clock executed) :
    Program.Upholds c (fun _ => True) (fun result t => result = .ok () ∧ t.Shows rows clock executed)
      (Program.embed Request.final (fun _ a => a) (.done (.ok ()) : Job)) s :=
  .done quietens.keeps (fun _ _ => trivial) (fun _ hShows => ⟨rfl, hShows⟩) h

/-- A finalisation succeeds, whether or not its report is delivered. -/
theorem upholds_finalisation (job : Finalisation) (h : s.Shows rows clock executed) :
    Program.Upholds c (fun _ => True) (fun result t => result = .ok () ∧ t.Shows rows clock executed)
      (job.program.embed Request.final fun _ a => a) s := by
  refine .ask quietens.keeps (fun _ _ => trivial) h fun t a u hShows hAnswer => ?_
  obtain ⟨rfl, hShows⟩ := hShows.recorded (quietens.answers (by simp) hAnswer)
  cases hReceiver : job.receiver with
  | none => exact upholds_ok quietens hShows
  | some url =>
      refine .ask quietens.keeps (fun _ _ => trivial) hShows fun t a u hShows hAnswer => ?_
      have hDelivered := quietens.answers (r := .final (.notify _ _)) (by simp) hAnswer
      replace hShows := hShows.of_answersFinal (r := .notify _ _) (a := a) hDelivered
      cases a with
      | ok => exact upholds_ok quietens hShows
      | error e =>
          dsimp only
          split
          · refine .ask quietens.keeps (fun _ _ => trivial) hShows fun t a u hShows hAnswer => ?_
            obtain ⟨rfl, hShows⟩ := hShows.recorded (quietens.answers (by simp) hAnswer)
            exact upholds_ok quietens hShows
          · exact upholds_ok quietens hShows

theorem ends_finalise {job : Finalisation} (h : s.Shows rows clock executed) :
    Ends c (Engine.finalise job) (fun _ t => t.Shows rows clock executed) s := by
  refine Program.Upholds.bind (upholds_finalisation quietens job h) fun result t _ hPost => ?_
  obtain ⟨rfl, hShows⟩ := hPost
  exact ends_pure quietens hShows fun _ hShows => hShows

/-! ### The pass -/

/-- Every look at the clock is stored, and what was due is returned, and what is left. -/
theorem ends_collect {entries : List Entry} (hYields : ∀ e ∈ entries, e.Yields clock)
    (hVersions : strict → rows.Match entries) (h : s.Shows rows clock executed) :
    Ends c (Pass.collect entries) (fun (tasks, others) t =>
      tasks = entries.flatMap (fun e => (e.dueTask clock).toList) ∧ others = entries.map (·.settled clock) ∧
        t.Shows ((entries.map (·.settled clock)).foldl Rows.save rows) clock executed) s := by
  induction entries generalizing rows s with
  | nil => exact ends_pure quietens h fun t hShows => ⟨rfl, rfl, hShows⟩
  | cons e rest ih =>
      unfold Pass.collect
      refine ends_now quietens h fun t hShows => ?_
      have hFirst : e.consume clock = .ok (e.dueTask clock, e.settled clock) := hYields e List.mem_cons_self
      rw [hFirst]
      have hMoves := e.moves_settled clock
      refine ends_saveCursor quietens (fun hStrict row hRow => ?_) hShows fun t hShows => ?_
      · rw [hMoves.modifiedAt_eq]
        rw [hMoves.name_eq] at hRow
        exact hVersions hStrict e List.mem_cons_self row hRow
      have hRest := ih (fun other hOther => hYields other (List.mem_cons_of_mem e hOther))
        (fun hStrict => ((hVersions hStrict).save _).tail) hShows
      refine hRest.bind fun outcome t hPost => ?_
      obtain ⟨tasks, others⟩ := outcome
      obtain ⟨rfl, rfl, hShows⟩ := hPost
      exact ends_pure quietens hShows fun t hShows => ⟨rfl, rfl, hShows⟩

/-- A task of an entry that can be read runs. -/
theorem ends_runTask {τ : Task} {id : TaskId} {row : EntryRow} (hId : τ.taskId = some id)
    (hRow : rows τ.entryName = some row) (hRead : row.IsReadable)
    (h : s.Shows rows clock executed) :
    Ends c (Pass.runTask setup τ) (fun status t => status.isSome = true ∧
      t.Shows rows clock (executed ++ [τ])) s := by
  unfold Pass.runTask
  rw [hId]
  refine ends_ask quietens (by simp) h fun t answer u hShows hAnswer => ?_
  obtain ⟨hAnswer | ⟨hFalse, -⟩, rfl⟩ := hAnswer
  · have hFound : u.store.getEntry τ.entryName = .ok row.toEntry :=
      Store.getEntry_eq_ok_iff.mpr ⟨row, (hShows.row?_eq _).trans hRow, hRead⟩
    rw [hFound] at hAnswer
    subst hAnswer
    refine ends_passive quietens trivial hShows fun started t hShows => ?_
    unfold Engine.record
    rw [bind_assoc]
    refine ends_ask quietens (by simp) hShows fun t a u hShows hAnswer => ?_
    obtain ⟨rfl, hShows⟩ := hShows.recorded hAnswer
    refine ends_ask quietens (by simp) hShows fun t outcome u hShows hAnswer => ?_
    obtain rfl : u = t.note (.called τ) := hAnswer
    have hCalled : (t.note (.called τ)).Shows rows clock (executed ++ [τ]) :=
      { hShows with executed_eq := by rw [executed_note, hShows.executed_eq] }
    refine ends_passive quietens trivial hCalled fun finished t hShows => ?_
    refine ends_passive quietens trivial hShows fun _ t hShows => ?_
    dsimp only
    split
    · refine ends_ask quietens (by simp) hShows fun t a u hShows hAnswer => ?_
      obtain rfl := hAnswer
      exact ends_pure quietens (s := { t with jobs := _ }) { hShows with } fun t hShows => ⟨rfl, hShows⟩
    · refine (ends_finalise quietens hShows).bind fun _ t hShows => ?_
      exact ends_pure quietens hShows fun t hShows => ⟨rfl, hShows⟩
  · exact hFalse.elim

/-- Without a limit on failures all tasks run. -/
theorem ends_runTasks {tasks : List Task} (hBreaker : setup.settings.maxConsecutiveFailures = none)
    (hTasks : ∀ τ ∈ tasks, τ.taskId.isSome = true ∧ ∃ row, rows τ.entryName = some row ∧
      row.IsReadable) (h : s.Shows rows clock executed) :
    Ends c (Pass.runTasks setup tasks) (fun _ t => t.Shows rows clock (executed ++ tasks)) s := by
  induction tasks generalizing executed s with
  | nil => exact ends_pure quietens (by rwa [List.append_nil]) fun t hShows => hShows
  | cons τ rest ih =>
      obtain ⟨hSome, row, hRow, hRead⟩ := hTasks τ List.mem_cons_self
      obtain ⟨id, hId⟩ := Option.isSome_iff_exists.mp hSome
      unfold Pass.runTasks
      refine (ends_runTask quietens hId hRow hRead h).bind fun status t hPost => ?_
      obtain ⟨hStatus, hShows⟩ := hPost
      obtain ⟨status, rfl⟩ := Option.isSome_iff_exists.mp hStatus
      refine ends_passive quietens trivial hShows fun failures t hShows => ?_
      rw [hBreaker]
      have hRest := ih (fun other hOther => hTasks other (List.mem_cons_of_mem τ hOther)) hShows
      rwa [List.append_assoc] at hRest

/-- A pass over a snapshot, whatever has become of the rows since. -/
theorem ends_passOver {entries : List Entry} (hBreaker : setup.settings.maxConsecutiveFailures = none)
    (hYields : ∀ e ∈ entries, e.Yields clock)
    (hRows : ∀ e ∈ entries, ∃ row, rows e.name = some row ∧ row.IsReadable)
    (hVersions : strict → rows.Match entries) (h : s.Shows rows clock executed) :
    Ends c (Pass.passOver setup entries) (fun _ t =>
      t.Shows ((entries.map (·.settled clock)).foldl Rows.save rows) clock
        (executed ++ dueTasks entries clock)) s := by
  unfold Pass.passOver
  split
  · refine ends_passive quietens trivial h fun _ t hShows => ?_
    refine ends_last quietens trivial hShows fun _ t hShows => ?_
    simpa [dueTasks, TaskQueue.ofList] using hShows
  · refine ends_passive quietens trivial h fun _ t hShows => ?_
    refine (ends_collect quietens hYields hVersions hShows).bind fun outcome t hPost => ?_
    obtain ⟨tasks, others⟩ := outcome
    obtain ⟨rfl, -, hShows⟩ := hPost
    refine ends_now quietens hShows fun t hShows => ?_
    refine ends_passive quietens trivial hShows fun _ t hShows => ?_
    refine ends_runTasks quietens hBreaker (fun τ hτ => ?_) hShows
    obtain ⟨e, hEntry, hTask⟩ := mem_dueTasks.mp hτ
    rw [((Entry.consumes_of_dueTask hTask).takes τ rfl).taskId_eq, Entry.entryName_of_dueTask hTask]
    exact ⟨rfl, Rows.foldl_save_readable (hRows e hEntry)⟩

theorem ends_activeEntries {f : List Entry → Engine β} {post : β → Scene → Prop}
    (hReadable : ∀ name row, rows name = some row → row.activeFlag = 1 → row.IsReadable)
    (h : s.Shows rows clock executed)
    (hNext : ∀ entries t, Lists rows entries → t.Shows rows clock executed → Ends c (f entries) post t) :
    Ends c (Engine.activeEntries >>= f) post s := by
  unfold Engine.activeEntries
  rw [bind_assoc]
  refine ends_ask quietens (by simp) h fun t answer u hShows hAnswer => ?_
  obtain ⟨rfl | ⟨hFalse, -⟩, rfl⟩ := hAnswer
  · obtain ⟨entries, hEntries, hLists⟩ := hShows.exists_lists hReadable
    rw [hEntries]
    exact hNext entries u hLists hShows
  · exact hFalse.elim

/-- A pass over a snapshot of the rows, until it is idle, even if the rows have changed since. -/
theorem ends_rest {entries : List Entry} (hYields : ∀ e ∈ entries, e.Yields clock)
    (hBreaker : setup.settings.maxConsecutiveFailures = none)
    (hRows : ∀ e ∈ entries, ∃ row, rows e.name = some row ∧ row.IsReadable)
    (hVersions : strict → rows.Match entries) (h : s.Shows rows clock executed) :
    Ends c (Pass.passOver setup entries >>= fun _ => Engine.ask .setIdle) (fun _ t =>
      t.Shows ((entries.map (·.settled clock)).foldl Rows.save rows) clock
        (executed ++ dueTasks entries clock)) s := by
  refine (ends_passOver quietens hBreaker hYields hRows hVersions h).bind fun _ t hShows => ?_
  exact ends_last quietens trivial hShows fun _ t hShows => hShows

/-- A pass runs what is due of the rows, and settles each. -/
theorem ends_runOnce (hBreaker : setup.settings.maxConsecutiveFailures = none)
    (hYields : rows.Yields clock) (h : s.Shows rows clock executed) :
    Ends c (Pass.runOnce setup) (fun _ t => ∃ tasks, RunsDue rows clock tasks ∧
      t.Shows (fun name => (rows name).map (·.settle clock)) clock (executed ++ tasks)) s := by
  unfold Pass.runOnce Pass.pass
  rw [bind_assoc]
  refine ends_activeEntries quietens (fun name row hRow hActive => (hYields name row hRow hActive).1) h
    fun entries t hLists hShows => ?_
  have hRest := ends_rest quietens (fun e hEntry => hLists.yields hYields hEntry) hBreaker
    (fun e hEntry => hLists.readable hYields hEntry) (fun _ => hLists.matching) hShows
  refine Program.Upholds.mono (fun _ h => h) ?_ hRest
  rintro result t ⟨x, rfl, hShows⟩
  rw [hLists.foldl_save h.name_eq] at hShows
  exact ⟨x, rfl, _, hLists.runsDue h.name_eq, hShows⟩

/-- Where every request is answered, a pass can be made. -/
theorem exists_runOnce (hResponsive : c.Responsive)
    (hBreaker : setup.settings.maxConsecutiveFailures = none)
    (hNow : clock < Int64.maxValue) (hOpen : rows.IsOpen) (h : s.Shows rows clock executed) :
    ∃ tasks t, Program.Leads c (ExceptT.run (Pass.runOnce setup)) s (.done (.ok ())) t ∧
      RunsDue rows clock tasks ∧
      t.Shows (fun name => (rows name).map (·.settle clock)) clock (executed ++ tasks) := by
  obtain ⟨result, t, hLeads⟩ := Program.exists_leads_done hResponsive (ExceptT.run (Pass.runOnce setup)) s
  obtain ⟨x, rfl, tasks, hRuns, hShows⟩ :=
    ((ends_runOnce quietens hBreaker (hOpen.yields hNow) h).of_leads hLeads).post_here
  exact ⟨tasks, t, hLeads, hRuns, hShows⟩

/-- A pass over a store of fresh entries: what is due of one of them runs, and its row is settled. -/
theorem exists_first {store : Store} {entries : List Entry} {e : Entry} {τ : Task}
    (hResponsive : c.Responsive) (hBreaker : setup.settings.maxConsecutiveFailures = none) (hNow : clock < Int64.maxValue)
    (hStock : store.Stocks entries) (hEntry : e ∈ entries) (hTask : e.dueTask clock = some τ)
    (h : s.Shows store.row? clock []) :
    ∃ tasks t, Program.Leads c (ExceptT.run (Pass.runOnce setup)) s (.done (.ok ())) t ∧
      t.Shows t.store.row? clock tasks ∧ τ ∈ tasks ∧
      t.store.row? e.name = some (.ofEntry (e.settled clock)) ∧ Rows.Below 3 t.store.row? := by
  have hBelow := below_of_stocks hStock
  have hRow := hStock.row?_eq e hEntry
  obtain ⟨tasks, t, hLeads, hRuns, hShows⟩ :=
    exists_runOnce quietens hResponsive hBreaker hNow (hBelow.mono (by decide)) h
  refine ⟨tasks, t, hLeads, { hShows with row?_eq := fun _ => rfl }, (hRuns.mem_iff τ).mpr ?_, ?_, ?_⟩
  · exact ⟨_, Entry.entryName_of_dueTask hTask ▸ hRow, (EntryRow.due_ofEntry e clock).trans hTask⟩
  · rw [hShows.row?_eq, hRow, Option.map_some, EntryRow.settle_ofEntry]
  · rw [funext hShows.row?_eq]
    exact hBelow.settle hNow (by decide)

/-- A pass that finds in a row the series of an entry that has run. -/
theorem exists_repeat {row : EntryRow} {e : Entry} {τ : Task} (hResponsive : c.Responsive)
    (hBreaker : setup.settings.maxConsecutiveFailures = none) (hNow : clock < Int64.maxValue)
    (hFresh : e.IsFresh) (hTask : e.dueTask clock = some τ) (hτ : τ ∈ executed) (hOpen : rows.IsOpen)
    (hRow : rows e.name = some row) (hFlag : row.activeFlag = 1) (hStop : row.stop = e.stop)
    (hInterval : row.interval = e.interval) (hNext : row.nextTaskTime = e.nextTaskTime)
    (h : s.Shows rows clock executed) :
    ∃ t, Program.Leads c (ExceptT.run (Pass.runOnce setup)) s (.done (.ok ())) t ∧ t.clock = clock ∧
      ¬ t.RunsNoTickTwice := by
  obtain ⟨tasks, t, hLeads, hRuns, hShows⟩ := exists_runOnce quietens hResponsive hBreaker hNow hOpen h
  have hRowId : row.nextTaskId < Int64.maxValue := Int64.lt_iff_toInt_lt.mpr (hOpen _ row hRow).2
  obtain ⟨σ, hDue, hTime⟩ :=
    EntryRow.exists_due hNow hFresh.nextTaskId_lt hRowId hFlag hStop hInterval hNext hTask
  have hName : σ.entryName = e.name := (EntryRow.entryName_of_due hDue).trans (h.name_eq _ row hRow)
  have hσ : σ ∈ tasks := (hRuns.mem_iff σ).mpr ⟨row, hName ▸ hRow, hDue⟩
  refine ⟨t, hLeads, hShows.clock_eq, fun hOnce => ?_⟩
  rw [RunsNoTickTwice, hShows.executed_eq] at hOnce
  have hSame : τ.entryName = σ.entryName := (Entry.entryName_of_dueTask hTask).trans hName.symm
  exact (List.pairwise_append.mp hOnce).2.2 τ hτ σ hσ hSame hTime.symm

end TickScheduler.Scene
