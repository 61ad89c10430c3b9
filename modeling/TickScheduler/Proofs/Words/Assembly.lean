import TickScheduler.Proofs.Engine.Parts
import TickScheduler.Proofs.Engine.Rehearsal
import TickScheduler.Proofs.Entry.Consumption
import TickScheduler.Proofs.Words.Spans
/-!
How a pass assembles its tasks, on machine words. Whatever the stored entries say, a look at the clock takes the
due ticks off them and lists the ticks to come without a fault, as long as the clock and the task ids have not
come to their end: what the words give is what the exact arithmetic gives, and every loop over ticks ends.
-/
namespace TickScheduler

namespace Pass

/-- The first half of a pass, in which its tasks are assembled: those to be run, and those announced. -/
def assemble (entries : List Entry) (lookahead : Tick) : Engine (List Task × TaskQueue) := do
  let (tasks, entries) ← collect entries
  let now ← Engine.ask .now
  return (tasks, announced entries now lookahead)

/-- A pass over some entries assembles its tasks, announces what there is to announce and runs the others. -/
theorem passOver_eq_assemble (setup : LoopSetup) (e : Entry) (rest : List Entry) :
    passOver setup (e :: rest) = (do
      Engine.ask .beginPass
      let (tasks, upcoming) ← assemble (e :: rest) setup.settings.lookaheadMultiplier
      Engine.ask (.publish upcoming)
      runTasks setup (TaskQueue.ofList tasks).toList) := by
  simp only [passOver, assemble, bind_assoc, pure_bind]

end Pass

namespace OnWords

open Word (Fault)

/-! ### One entry -/

section Entries

variable {rounds : Nat} {e : Entry} {now horizon : Tick}

/-- The ticks that an entry has yet to run, before `horizon` if that is given. -/
def remainingTimes (e : Entry) (horizon : Option Tick) : Span :=
  if !e.isActive then .empty
  else if e.interval.any (·.toInt < 1) then .empty
  else
    match Entry.bound horizon e.stop with
    | some stop => .range e.nextTaskTime stop (e.interval.getD (Tick.absClamped (stop.subClamped e.nextTaskTime)))
    | none =>
      match e.interval with
      | some interval => .unbounded e.nextTaskTime interval
      | none => .once e.nextTaskTime

/-- Takes the ticks before `horizon` off an entry. -/
def takeUntil (rounds : Nat) (e : Entry) (horizon : Tick) : Except Fault (Span × Entry) := do
  let times := remainingTimes e (some horizon)
  match ← times.last rounds with
  | none => return (times, e)
  | some last =>
    match e.interval with
    | some interval => return (times, { e with nextTaskTime := last.addClamped interval })
    | none => return (times, { e with isActive := false })

/-- What comes after a tick, or after a task id. -/
def succ (tick : Tick) : Except Fault Tick := do
  return Int64.ofInt (← Word.tick.add tick.toInt 1)

def takePending (rounds : Nat) (e : Entry) (now : Tick) : Except Fault (Span × Entry) := do
  takeUntil rounds e (← succ now)

/-- The entry, inactive if no tick of it is left. -/
def retire (e : Entry) : Except Fault Entry := do
  return if ← (remainingTimes e none).contains e.nextTaskTime then e else { e with isActive := false }

def takeTaskId (e : Entry) : Except Fault (TaskId × Entry) := do
  return (e.nextTaskId, { e with nextTaskId := ← succ e.nextTaskId })

/-- How many of the due ticks are reported to be skipped: all but the latest. -/
def skipped (due : Int) : Except Fault Int :=
  if 1 < due then Word.count.sub due 1 else return 0

/-- Takes the ticks that are due at `now` off an entry. The latest of them makes a task with the next id. -/
def consume (rounds : Nat) (e : Entry) (now : Tick) : Except Fault (Option Task × Entry) := do
  let (times, e) ← takePending rounds e now
  let due := (← times.length).getD 0
  let latest ← times.last rounds
  let _ ← skipped due
  let e ← retire e
  match latest with
  | none => return (none, e)
  | some time =>
    let (taskId, e) ← takeTaskId e
    return (some (e.taskAt time (some taskId)), e)

/-- The tasks of an entry before a tick, found by a loop over its ticks. -/
def announced (rounds : Nat) (horizon : Tick) (e : Entry) : Except Fault (List Task) := do
  return (← (remainingTimes e (some horizon)).drain rounds).map fun time => e.taskAt time none

theorem remainingTimes_eq (e : Entry) (horizon : Option Tick) :
    remainingTimes e horizon = (e.remainingTimes horizon).span := by
  unfold remainingTimes Entry.remainingTimes
  split
  · rfl
  split
  · rfl
  cases Entry.bound horizon e.stop with
  | none =>
      cases e.interval with
      | none => exact (TickRange.span_once _).symm
      | some interval => exact (TickRange.span_unbounded _ _).symm
  | some stop =>
      dsimp only
      cases e.interval with
      | none => rw [Option.getD_none, ← TickRange.span_range]
      | some interval => rw [Option.getD_some, ← TickRange.span_range]

theorem takeUntil_eq (hRounds : 0x10000000000000000 < rounds) (e : Entry) (horizon : Tick) :
    takeUntil rounds e horizon = .ok ((e.takeUntil horizon).1.span, (e.takeUntil horizon).2) := by
  have hLast := TickRange.last_span hRounds (e.remainingTimes (some horizon))
  unfold takeUntil Entry.takeUntil
  rw [remainingTimes_eq]
  dsimp only
  rw [hLast]
  cases (e.remainingTimes (some horizon)).last? with
  | none => rfl
  | some last => cases e.interval <;> rfl

theorem retire_eq (e : Entry) : retire e = .ok e.retire := by
  rw [retire, remainingTimes_eq, TickRange.contains_span]
  rfl

/-- There are few enough due ticks for their number to be told. -/
theorem exists_skipped (r : TickRange) : ∃ count, skipped ((r.length?.map Int.ofNat).getD 0) = .ok count := by
  unfold skipped
  split
  · rename_i hSome
    refine ⟨_, Word.result_of_fits ⟨by omega, ?_⟩⟩
    cases hLength : r.length? with
    | none => simp
    | some n =>
        have hFew := TickRange.length?_lt hLength
        simp only [Option.map_some, Option.getD_some, Int.ofNat_eq_natCast]
        omega
  · exact ⟨0, rfl⟩

theorem announced_eq (hRounds : 0x10000000000000000 < rounds) (e : Entry) (horizon : Tick) :
    announced rounds horizon e = .ok (e.announced horizon) := by
  have hEnds := TickRange.drain_span
    (Nat.lt_of_le_of_lt (e.remainingTimes (some horizon)).length_ticks_le hRounds)
  rw [announced, remainingTimes_eq, hEnds]
  rfl

/-- Words and integers come to the same, or both to an overflow. -/
inductive Agrees {α : Type} : Except Fault α → Except Failure α → Prop where
  | done (a : α) : Agrees (.ok a) (.ok a)
  | overflow : Agrees (.error .overflow) (.error .overflow)

theorem Agrees.bind {α β : Type} {x : Except Fault α} {y : Except Failure α} {f : α → Except Fault β}
    {g : α → Except Failure β} (h : Agrees x y) (hNext : ∀ a, Agrees (f a) (g a)) :
    Agrees (x >>= f) (y >>= g) := by
  cases h with
  | done a => exact hNext a
  | overflow => exact .overflow

theorem succ_cases (tick : Tick) : (∃ next, Tick.succ? tick = some next ∧ succ tick = .ok next) ∨
    (Tick.succ? tick = none ∧ succ tick = .error .overflow) := by
  unfold succ Word.add Tick.succ? Tick.ofInt?
  by_cases hFits : -0x8000000000000000 ≤ tick.toInt + 1 ∧ tick.toInt + 1 < 0x8000000000000000
  · rw [Word.result_of_fits (w := .tick) hFits, if_pos hFits]
    exact .inl ⟨_, rfl, rfl⟩
  · rw [Word.result_of_not_fits (w := .tick) hFits, if_neg hFits]
    exact .inr ⟨rfl, rfl⟩

theorem agrees_takeTaskId (e : Entry) : Agrees (takeTaskId e) e.takeTaskId := by
  unfold takeTaskId Entry.takeTaskId
  rcases succ_cases e.nextTaskId with ⟨next, hExact, hWords⟩ | ⟨hExact, hWords⟩
  · rw [hExact, hWords]
    exact .done _
  · rw [hExact, hWords]
    exact .overflow

/-- A look at the clock takes the same off an entry on words as on integers. -/
theorem agrees_consume (hRounds : 0x10000000000000000 < rounds) (e : Entry) (now : Tick) :
    Agrees (consume rounds e now) (e.consume now) := by
  rcases succ_cases now with ⟨horizon, hExact, hWords⟩ | ⟨hExact, hWords⟩
  · obtain ⟨count, hSkipped⟩ := exists_skipped (e.takeUntil horizon).1
    have hConsume : consume rounds e now = (do
        match (e.takeUntil horizon).1.last? with
        | none => return (none, (e.takeUntil horizon).2.retire)
        | some time =>
          let (taskId, f) ← takeTaskId (e.takeUntil horizon).2.retire
          return (some (f.taskAt time (some taskId)), f)) := by
      simp only [consume, takePending, hWords, takeUntil_eq hRounds, TickRange.length_span,
        TickRange.last_span hRounds, hSkipped, retire_eq, bind, Except.bind]
    rw [hConsume, Entry.consume, Entry.takePending, hExact]
    change Agrees _ (match (e.takeUntil horizon).1.last? with | none => _ | some time => _)
    cases (e.takeUntil horizon).1.last? with
    | none => exact .done _
    | some time => exact (agrees_takeTaskId _).bind fun _ => .done _
  · rw [consume, takePending, hWords, Entry.consume, Entry.takePending, hExact]
    exact .overflow

end Entries

/-! ### All entries -/

/-- How an assembly can end without a result: with a fault, or with an error of the store. -/
inductive Mishap where
  | fault (fault : Fault)
  | error (cause : Error)
deriving DecidableEq, Repr

/-- What goes wrong with integers, as it goes wrong with words. -/
def Mishap.ofFailure : Failure → Mishap
  | .error cause => .error cause
  | .overflow => .fault .overflow

/-- A part of the loop on words. -/
abbrev Dialogue (Result : Type) : Type :=
  ExceptT Mishap (Program Request Request.Answer) Result

section Dialogues

variable {α β : Type} {rounds : Nat}

/-- Goes on with a result that was worked out. -/
def ofExcept (result : Except Fault α) : Dialogue α :=
  ExceptT.mk (.done (result.mapError .fault))

/-- The same dialogue, as one on words. -/
def embed (part : Engine α) : Dialogue α :=
  ExceptT.mk (Except.mapError .ofFailure <$> part.run)

/-- Consumes what is due of each entry and stores its cursor, one entry after the other. -/
def collect (rounds : Nat) : List Entry → Dialogue (List Task × List Entry)
  | [] => pure ([], [])
  | e :: rest => do
    let now ← embed (Engine.ask .now)
    let (task, e) ← ofExcept (consume rounds e now)
    embed (Engine.saveCursor e)
    let (tasks, rest) ← collect rounds rest
    return (task.toList ++ tasks, e :: rest)

/-- Assembles the tasks of a pass. Nothing in the window for the announced tasks can go wrong: its sum and its
product stop at the ends of the clock. -/
def assemble (rounds : Nat) (entries : List Entry) (lookahead : Tick) : Dialogue (List Task × TaskQueue) := do
  let (tasks, entries) ← collect rounds entries
  let now ← embed (Engine.ask .now)
  let upcoming ← ofExcept (entries.mapM (announced rounds (Pass.horizon entries now lookahead)))
  return (tasks, .ofList upcoming.flatten)

theorem embed_pure (a : α) : embed (pure a) = pure a := rfl

theorem embed_bind (part : Engine α) (f : α → Engine β) :
    embed (part >>= f) = embed part >>= fun a => embed (f a) := by
  apply ExceptT.ext
  simp only [embed, ExceptT.run_bind, ExceptT.run_mk, map_bind, bind_map_left]
  congr 1
  funext result
  cases result <;> rfl

theorem run_embed {State : Type} (answer : (r : Request) → State → r.Answer × State) (part : Engine α) (s : State) :
    (ExceptT.run (embed part)).run answer s =
      (((ExceptT.run part).run answer s).1.mapError .ofFailure, ((ExceptT.run part).run answer s).2) :=
  Program.run_bind answer part.run (fun result => .done (result.mapError Mishap.ofFailure)) s

theorem said_embed {State : Type} (answer : (r : Request) → State → r.Answer × State) (part : Engine α) (s : State) :
    (ExceptT.run (embed part)).said answer s = (ExceptT.run part).said answer s :=
  (Program.said_bind part.run (fun result => .done (result.mapError Mishap.ofFailure)) s).trans (List.append_nil _)

theorem ofExcept_eq {x : Except Fault α} {y : Except Failure α} (h : Agrees x y) :
    ofExcept x = embed (Engine.ofExcept y) := by
  cases h <;> rfl

theorem mapM_announced (hRounds : 0x10000000000000000 < rounds) (horizon : Tick) (entries : List Entry) :
    entries.mapM (announced rounds horizon) = .ok (entries.map (·.announced horizon)) := by
  induction entries with
  | nil => rfl
  | cons e rest ih =>
      rw [List.mapM_cons, announced_eq hRounds, ih]
      rfl

theorem collect_eq (hRounds : 0x10000000000000000 < rounds) (entries : List Entry) :
    collect rounds entries = embed (Pass.collect entries) := by
  induction entries with
  | nil => rfl
  | cons e rest ih =>
      simp only [collect, Pass.collect, ofExcept_eq (agrees_consume hRounds e _), ih, embed_bind, embed_pure]

/-- On words the same is asked and the same comes of it. -/
theorem assemble_eq (hRounds : 0x10000000000000000 < rounds) (entries : List Entry) (lookahead : Tick) :
    assemble rounds entries lookahead = embed (Pass.assemble entries lookahead) := by
  simp only [assemble, Pass.assemble, collect_eq hRounds, mapM_announced hRounds, embed_bind, embed_pure,
    Pass.announced, List.flatMap_def]
  rfl

/-! ### No fault -/

/-- The clock is never found at its last tick. -/
def clockGoesOn : Discipline Request Request.Answer Unit where
  permits _ _ := True
  sensible
    | .now, tick => tick < Int64.maxValue
    | _, _ => True
  after _ _ _ := ()

theorem obeys_collect {entries : List Entry} (hIds : ∀ e ∈ entries, e.nextTaskId < Int64.maxValue) :
    Program.Obeys clockGoesOn (fun result _ => result ≠ .error .overflow)
      (ExceptT.run (Pass.collect entries)) () := by
  induction entries with
  | nil => exact nofun
  | cons e rest ih =>
      obtain ⟨hId, hRest⟩ := List.forall_mem_cons.mp hIds
      refine ⟨trivial, fun (now : Tick) (hNow : now < Int64.maxValue) => ?_⟩
      obtain ⟨task, f, hConsume⟩ := Entry.exists_consume hNow hId
      change Program.Obeys _ _ (ExceptT.run (Engine.ofExcept (e.consume now) >>= _)) _
      rw [hConsume]
      refine ⟨trivial, fun saved _ => ?_⟩
      cases saved with
      | error cause => exact nofun
      | ok =>
          refine Engine.obeys_bind (ih hRest) (fun _ _ _ => nofun) fun failure _ hFailure => ?_
          exact fun hOverflow => hFailure (congrArg Except.error (Except.error.inj hOverflow))

theorem obeys_assemble {entries : List Entry} (hIds : ∀ e ∈ entries, e.nextTaskId < Int64.maxValue)
    (lookahead : Tick) :
    Program.Obeys clockGoesOn (fun result _ => result ≠ .error .overflow)
      (ExceptT.run (Pass.assemble entries lookahead)) () := by
  refine Engine.obeys_bind (obeys_collect hIds) (fun _ _ _ => ⟨trivial, fun _ _ => nofun⟩) ?_
  exact fun failure _ hFailure hOverflow => hFailure (congrArg Except.error (Except.error.inj hOverflow))

end Dialogues

/-- Whatever the entries say and the store answers, tasks are assembled on words without a fault, and exactly as
on integers, if no look at the clock finds it at its last tick and no entry has come to the last task id. No
loop over ticks takes more rounds than there are ticks on the clock, and one more. -/
theorem assembly_exact {State : Type} {answer : (r : Request) → State → r.Answer × State} {s : State}
    {entries : List Entry} {lookahead : Tick} {rounds : Nat} (hRounds : 0x10000000000000000 < rounds)
    (hIds : ∀ e ∈ entries, e.nextTaskId < Int64.maxValue)
    (hClock : ∀ now : Tick, (⟨.now, now⟩ : Exchange Request.Answer) ∈
      (ExceptT.run (assemble rounds entries lookahead)).said answer s → now < Int64.maxValue) :
    let words := (ExceptT.run (assemble rounds entries lookahead)).run answer s
    let integers := (ExceptT.run (Pass.assemble entries lookahead)).run answer s
    (∀ fault, words.1 ≠ .error (.fault fault)) ∧
      words = (integers.1.mapError .ofFailure, integers.2) := by
  intro words integers
  have hEmbed := assemble_eq hRounds entries lookahead
  have hWords : words = (integers.1.mapError .ofFailure, integers.2) := by
    change (ExceptT.run (assemble rounds entries lookahead)).run answer s = _
    rw [hEmbed]
    exact run_embed answer _ s
  rw [hEmbed, said_embed] at hClock
  have hGoesOn : ∀ x ∈ (ExceptT.run (Pass.assemble entries lookahead)).said answer s,
      clockGoesOn.sensible x.1 x.2 := by
    rintro ⟨r, a⟩ hx
    cases r with
    | now => exact hClock a hx
    | _ => exact trivial
  obtain ⟨-, hResult⟩ := (obeys_assemble hIds lookahead).post_of_speaks (Program.speaks_said _ s) hGoesOn
  refine ⟨fun fault hFault => ?_, hWords⟩
  rw [hWords] at hFault
  cases hOutcome : integers.1 with
  | ok assembled => simp [hOutcome, Except.mapError] at hFault
  | error failure =>
      cases failure with
      | overflow => exact hResult hOutcome
      | error cause => simp [hOutcome, Except.mapError, Mishap.ofFailure] at hFault

/-- At every tick of the clock, from the first one on. -/
def aeon : Entry :=
  Draft.entryFrom ⟨"aeon", "beep", none, some Int64.minValue, none, false, some 1, none, none⟩ Int64.minValue none
    "first"

/-- An entry that no check has seen: its interval is zero, and it stops before it starts. -/
def rubble : Entry :=
  { aeon with name := "rubble", priority := Int32.minValue, interval := some 0, stop := some Int64.minValue }

/-- The clock is one tick before its last. -/
def dusk : Scene where
  store := ([aeon, rubble].foldlM Store.insertEntry .empty).toOption.getD .empty
  clock := 0x7ffffffffffffffe

/-- Of one entry more ticks are due than any other count of ticks can tell, and of the other one there is none. -/
theorem assembly_exact_at_dusk :
    let program := ExceptT.run (assemble 0x10000000000000001 [aeon, rubble] Int64.maxValue)
    (∀ e ∈ [aeon, rubble], e.nextTaskId < Int64.maxValue) ∧
      (∀ now : Tick, (⟨.now, now⟩ : Exchange Request.Answer) ∈ program.said (Scene.reply fun _ => .unknown) dusk →
        now < Int64.maxValue) ∧
      (∀ fault, (program.run (Scene.reply fun _ => .unknown) dusk).1 ≠ .error (.fault fault)) ∧
      (program.run (Scene.reply fun _ => .unknown) dusk).1 =
        .ok ([aeon.taskAt 0x7ffffffffffffffe (some 1)], .empty) := by
  intro program
  have hIds : ∀ e ∈ [aeon, rubble], e.nextTaskId < Int64.maxValue := by decide
  have hClock : ∀ now : Tick, (⟨.now, now⟩ : Exchange Request.Answer) ∈
      program.said (Scene.reply fun _ => .unknown) dusk → now < Int64.maxValue := by
    have hAll : (program.said (Scene.reply fun _ => .unknown) dusk).all (fun
        | ⟨.now, (now : Tick)⟩ => now < Int64.maxValue
        | _ => true) = true := by
      decide +kernel
    exact fun now hNow => of_decide_eq_true (List.all_eq_true.mp hAll _ hNow)
  obtain ⟨hFault, hExact⟩ := assembly_exact (by decide) hIds hClock
  have hAssembled : ((ExceptT.run (Pass.assemble [aeon, rubble] Int64.maxValue)).run
      (Scene.reply fun _ => .unknown) dusk).1 =
        .ok ([aeon.taskAt 0x7ffffffffffffffe (some 1)], .empty) := by
    unfold Pass.assemble Pass.announced
    rw [TaskQueue.ofList_eq]
    decide +kernel
  refine ⟨hIds, hClock, hFault, ?_⟩
  rw [hExact, hAssembled]
  rfl

end OnWords

end TickScheduler
