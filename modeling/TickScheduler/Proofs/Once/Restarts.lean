import TickScheduler.Proofs.Engine.QuietPass
import TickScheduler.Proofs.Entry.Series
import TickScheduler.Proofs.Once.Ids
import TickScheduler.Proofs.Once.Ticks
/-!
Schedulers that take over from one another on one store. Each may come to its end at any point, its last
operation of the store done or not, and what it had in the background is lost with it. Clients bring
in new entries and take entries out of the schedule meanwhile.
-/
namespace TickScheduler.Scene

/-- What clients do that never change an entry. -/
inductive Visits : Scene → Scene → Prop where
  | insert {s : Scene} {draft : Draft} {now : Tick} {known : String → Bool} {stamp : String} {e : Entry}
      {store : Store} (hDraft : draft.toEntry now known stamp = .ok e)
      (hStore : s.store.insertEntry e = .ok store) : Visits s { s with store }
  | deactivate {s : Scene} {name stamp : String} {store : Store}
      (hStore : s.store.deactivate name stamp = .ok store) : Visits s { s with store }
  | stop {s : Scene} : Visits s { s with monitor := s.monitor.stop }

/-- Clients come and go, time goes by, and any operation of the store may fail. -/
def unreliable : Conduct Request Request.Answer Scene where
  answers := Answers True
  moves s t := Works True s t ∨ Ages s t ∨ Visits s t

/-- What can come of an empty store under one scheduler after the other. -/
inductive Lifetimes : Scene → Prop where
  | empty (clock : Tick) : Lifetimes { store := .empty, clock }
  /-- No scheduler is there. -/
  | between {s t : Scene} (before : Lifetimes s) (hMove : Ages s t ∨ Visits s t) : Lifetimes t
  /-- A scheduler is started, and has come to `rest` when it is no more. -/
  | life {s t : Scene} {rest : Program Request Request.Answer Unit} (setup : LoopSetup) (duty : Duty)
      (before : Lifetimes s) (hLife : Program.Leads unreliable (duty.program setup) s.renew rest t) :
      Lifetimes t

variable {s t : Scene}

theorem Visits.calm (h : Visits s t) : Calm True s t := by
  cases h with
  | insert hDraft hStore =>
      have hGains := Store.gains_of_insertEntry hStore
      refine ⟨rfl, fun name hStored => ?_, fun name row hRow hFlag => ?_⟩
      · rw [hGains.row?_eq]
        split
        · rfl
        · exact hStored
      · rw [hGains.row?_eq] at hRow
        split at hRow
        · rename_i hName
          exact .inl (hName ▸ hGains.absent)
        · exact .inr ⟨row, hRow, hFlag, rfl, fun _ => rfl⟩
  | deactivate hStore =>
      have hRewrites := Store.rewrites_of_deactivate hStore
      refine ⟨rfl, fun name hStored => by rwa [hRewrites.isSome_row?], fun name row hRow hFlag => ?_⟩
      rcases hRewrites.source hRow with ⟨-, hRow⟩ | ⟨-, old, -, rfl⟩
      · exact .inr ⟨row, hRow, hFlag, rfl, fun _ => rfl⟩
      · cases hFlag
  | stop => exact .of_entries rfl rfl

theorem Visits.steady (h : Visits s t) : Steady s t := by
  cases h with
  | insert hDraft hStore =>
      have hGains := Store.gains_of_insertEntry hStore
      refine ⟨⟨⟨[], by simp⟩, rfl, hGains.results_eq, fun name hStored => ?_⟩, fun name row hRow => ?_⟩
      · rw [hGains.row?_eq]
        split
        · rfl
        · exact hStored
      · rw [hGains.row?_eq] at hRow
        split at hRow
        · rename_i hName
          exact .inl (hName ▸ hGains.absent)
        · exact .inr ⟨row, hRow, Int64.le_refl _⟩
  | deactivate hStore =>
      have hRewrites := Store.rewrites_of_deactivate hStore
      refine ⟨⟨⟨[], by simp⟩, rfl, hRewrites.results_eq, fun name hStored => by
        rwa [hRewrites.isSome_row?]⟩,
        fun name row hRow => ?_⟩
      rcases hRewrites.source hRow with ⟨-, hRow⟩ | ⟨rfl, old, hOld, rfl⟩
      · exact .inr ⟨row, hRow, Int64.le_refl _⟩
      · exact .inr ⟨old, hOld, Int64.le_refl _⟩
  | stop => exact .of_store rfl rfl ⟨[], by simp⟩

theorem Ages.calm {versions : Prop} (h : Ages s t) : Calm versions s t := by
  obtain ⟨clock, -, rfl⟩ := h
  exact .of_entries rfl rfl

theorem Ages.steady (h : Ages s t) : Steady s t := by
  obtain ⟨clock, -, rfl⟩ := h
  exact .of_store rfl rfl ⟨[], by simp⟩

theorem unreliable_calms : Calms True unreliable where
  answers h := h
  moves h := by
    rcases h with hWorks | hAges | hVisits
    · obtain ⟨hEntries, hExecuted⟩ := entries_of_works hWorks
      exact .of_entries hEntries hExecuted
    · exact hAges.calm
    · exact hVisits.calm
  saves := .inl trivial

theorem unreliable_steadies : Steadies unreliable where
  answers h := h
  moves h := h.imp_right fun h => h.elim Ages.steady Visits.steady

/-- To a new scheduler it makes no difference how many results the old one kept. -/
theorem IdsOnce.renew {keep : Nat} (h : s.IdsOnce keep) (other : Nat) : s.renew.IdsOnce other :=
  { h with jobs := fun _ hJob => absurd hJob List.not_mem_nil }

theorem Lifetimes.sound (h : Lifetimes s) : s.TicksOnce ∧ ∀ keep, s.renew.IdsOnce keep := by
  induction h with
  | empty clock =>
      refine ⟨⟨nofun, nofun, .nil⟩, fun keep => ?_⟩
      have hNone (name : String) (id : TaskId) : ¬ Opened (renew { store := .empty, clock }) name id := by
        rintro ⟨result, replaced, hEvent, -⟩
        exact List.not_mem_nil hEvent
      exact {
        stored := fun name id hId => absurd hId (hNone name id)
        below := fun name id hId => absurd hId (hNone name id)
        results := nofun
        capped := fun name => .inl nofun
        opened := nofun
        once := .nil
        fresh := fun _ _ hEvent => absurd hEvent List.not_mem_nil
        jobs := nofun }
  | @between s t _ hMove ih =>
      obtain ⟨hTicks, hIds⟩ := ih
      have hCalm : Calm True s t := hMove.elim Ages.calm Visits.calm
      have hSteady : Steady s t := hMove.elim Ages.steady Visits.steady
      refine ⟨hTicks.of_calm hCalm, fun keep => ?_⟩
      exact ((hIds keep).of_steady { hSteady with jobs_eq := rfl : Steady s.renew t.renew }).1
  | @life s t rest setup duty _ hLife ih =>
      obtain ⟨hTicks, hIds⟩ := ih
      have hRenewed : s.renew.TicksOnce := { hTicks with }
      constructor
      · exact ((LoopInvariant.upholds_duty duty hRenewed
          (L := ticksOnce setup unreliable_calms)).of_leads hLife).inv_here
      · exact (((LoopInvariant.upholds_duty duty (hIds _)
          (L := idsOnce setup unreliable_steadies)).of_leads
          hLife).inv_here : t.IdsOnce _).renew

/-- Whatever happens to the schedulers and to their operations of the store: no tick of an entry runs
twice, no two tasks of an entry that ran had one id, each of them had its result opened, and no result
was ever opened in the place of another one. -/
theorem Lifetimes.at_most_once (h : Lifetimes s) :
    (s.executed.Pairwise fun a b => a.entryName = b.entryName → a.time ≠ b.time ∧ a.taskId ≠ b.taskId) ∧
      (∀ τ ∈ s.executed, ∃ id, τ.taskId = some id ∧ s.Opened τ.entryName id) ∧
      ∀ result replaced, .recorded result replaced ∈ s.journal → result.status = .inProgress →
        replaced = none := by
  obtain ⟨hTicks, hIds⟩ := h.sound
  have hOnce := hIds 0
  refine ⟨?_, hOnce.opened, hOnce.fresh⟩
  exact hTicks.once.imp₂ (fun a b hTime hId hName => ⟨hTime hName, hId hName⟩) hOnce.once

/-- An entry of every tenth tick is brought in; a scheduler is started and makes one pass, and another one
has just been started. -/
theorem Lifetimes.at_most_once_of_beat : ∃ s : Scene, Lifetimes s ∧ s.executed ≠ [] ∧
    (s.executed.Pairwise fun a b => a.entryName = b.entryName → a.time ≠ b.time ∧ a.taskId ≠ b.taskId) ∧
      (∀ τ ∈ s.executed, ∃ id, τ.taskId = some id ∧ s.Opened τ.entryName id) ∧
      ∀ result replaced, .recorded result replaced ∈ s.journal → result.status = .inProgress →
        replaced = none := by
  obtain ⟨beat, store, hBeat, hStore, hStart⟩ : ∃ beat store,
      Draft.toEntry ⟨"job", "beep", none, some 1, none, false, some 10, none, none⟩ 1 (· == "beep") "now" =
          .ok beat ∧
        Store.empty.insertEntry beat = .ok store ∧ beat.start = 1 := ⟨_, _, rfl, rfl, rfl⟩
  have hStock : store.Stocks [beat] := by
    refine Store.stocks_of_drafts (fun e hEntry => ⟨_, _, _, _, List.mem_singleton.mp hEntry ▸ hBeat⟩) ?_
    rw [List.foldlM_cons, hStore]
    rfl
  have hEntry : beat ∈ [beat] := List.mem_cons_self
  have hNow : (1 : Tick) < Int64.maxValue := by decide
  have hBreaker : ({} : LoopSetup).settings.maxConsecutiveFailures = none := rfl
  obtain ⟨τ, hTask⟩ := exists_dueTask (hStock.fresh beat hEntry) (Int64.le_of_eq hStart) hNow
  obtain ⟨tasks, t, hPass, hShown, hτ, -⟩ :=
    exists_first quiet_quietens quiet_responsive hBreaker hNow hStock hEntry hTask
      (.self (s := { store, clock := 1 }) hStock.tables)
  have hWithin : quiet.Within unreliable :=
    ⟨fun h => Answers.mono (fun h : False => h.elim) h, fun h => .inl (h.mono False.elim)⟩
  have hFirst : Lifetimes { store, clock := 1 } :=
    .between (.empty 1) (.inr (.insert (s := { store := .empty, clock := 1 }) hBeat hStore))
  have hSecond : Lifetimes t := .life {} (.passes 1) hFirst ((hPass.mono hWithin).bind _)
  have hThird : Lifetimes t.renew := .life {} (.run 1) hSecond (.stay _ _)
  refine ⟨t.renew, hThird, ?_, hThird.at_most_once⟩
  change t.executed ≠ []
  rw [hShown.executed_eq]
  exact List.ne_nil_of_mem hτ

end TickScheduler.Scene
