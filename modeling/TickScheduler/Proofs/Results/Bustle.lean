import TickScheduler.Proofs.Engine.Watch
import TickScheduler.Proofs.Program.Transcripts
/-!
Busy surroundings of the loop in which no operation of the store fails: time goes by, clients and actions
do what they are allowed to do, and reports end as their receivers let them end.
-/
namespace TickScheduler

/-- A report ends in a way that it can end in. -/
def FinalRequest.Ends (ends : String → Payload → Except Error Unit → Prop) :
    (r : FinalRequest) → r.Answer → Prop
  | .record _ _, _ => True
  | .notify url payload, a => ends url payload a

def Request.Ends (ends : String → Payload → Except Error Unit → Prop) : (r : Request) → r.Answer → Prop
  | .final r, a => r.Ends ends a
  | _, _ => True

namespace Scene

/-- Something happens that the loop did not ask for. -/
inductive Bustles (ends : String → Payload → Except Error Unit → Prop) (allows : Deed → Prop) :
    Scene → Scene → Prop where
  | work {s t : Scene} {before after : List Job} {r : FinalRequest} {next : r.Answer → Job} {a : r.Answer}
      (hJobs : s.jobs = before ++ .ask r next :: after) (hAnswer : AnswersFinal False r s a t)
      (hEnds : r.Ends ends a) : Bustles ends allows s { t with jobs := before ++ next a :: after }
  | finish {s : Scene} {before after : List Job} {result : Except Error Unit}
      (hJobs : s.jobs = before ++ .done result :: after) :
      Bustles ends allows s { s with jobs := before ++ after }
  | age {s t : Scene} (h : Ages s t) : Bustles ends allows s t
  | stop {s : Scene} : Bustles ends allows s { s with monitor := s.monitor.stop }
  | deed {s : Scene} {deed : Deed} {store : Store} (hAllowed : allows deed)
      (hStore : deed.apply s.store = .ok store) : Bustles ends allows s { s with store }

def bustling (ends : String → Payload → Except Error Unit → Prop) (allows : Deed → Prop) :
    Conduct Request Request.Answer Scene where
  answers r s a t := Answers False r s a t ∧ r.Ends ends a
  moves := Bustles ends allows

variable {ends : String → Payload → Except Error Unit → Prop} {allows : Deed → Prop} {s t : Scene}
  {log : List (Exchange Request.Answer)}

/-- Quiet surroundings are among the busy ones, if a report may end in any way. -/
theorem quiet_within_bustling : quiet.Within (bustling (fun _ _ _ => True) allows) where
  answers {r s a t} h := ⟨h, by
    cases r with
    | final r => cases r <;> exact trivial
    | _ => exact trivial⟩
  moves {s t} h := by
    cases h with
    | @step _ _ _ r _ a hJobs hAnswer =>
        refine .work hJobs hAnswer ?_
        cases r <;> exact trivial
    | finish hJobs => exact .finish hJobs

/-! ### Nothing fails -/

/-- A result is recorded, if there is a table of results. -/
theorem recorded_of_answers {result : TaskResult} {keep : Nat} {a : Except Error Unit}
    (hTable : s.store.results.isSome = true) (h : AnswersFinal False (.record result keep) s a t) :
    a = .ok () ∧ ∃ store, s.store.recordResult result keep = .ok store ∧ t = s.record store result := by
  obtain ⟨written, hWritten, -⟩ := Store.exists_recordResult hTable result keep
  rcases h with ⟨store, hStore, rfl, rfl⟩ | ⟨e, -, -, hError | hFalse⟩
  · exact ⟨rfl, store, hStore, rfl⟩
  · cases hWritten.symm.trans hError
  · exact hFalse.elim

/-- Nothing brings a table of results into being, or does away with it. -/
theorem isSome_results_of_answersFinal {r : FinalRequest} {a : r.Answer} (h : AnswersFinal False r s a t) :
    t.store.results.isSome = s.store.results.isSome := by
  cases r with
  | record result keep =>
      rcases record_cases h with ⟨store, hStore, -, rfl⟩ | ⟨e, -, rfl⟩
      · obtain ⟨hBefore, hAfter⟩ := Store.tables_of_recordResult hStore
        exact hAfter.trans hBefore.symm
      · rfl
  | notify =>
      obtain rfl := h
      rfl

theorem isSome_results_of_answers {r : Request} {a : r.Answer} (h : Answers False r s a t) :
    t.store.results.isSome = s.store.results.isSome := by
  by_cases hFinal : ∃ r', r = .final r'
  · obtain ⟨r', rfl⟩ := hFinal
    exact isSome_results_of_answersFinal h
  · rw [results_of_answers h (not_exists.mp hFinal)]

theorem Bustles.isSome_results (h : Bustles ends allows s t) :
    t.store.results.isSome = s.store.results.isSome := by
  cases h with
  | work _ hAnswer =>
      have hSame := isSome_results_of_answersFinal hAnswer
      exact hSame
  | finish | stop => rfl
  | age h =>
      obtain ⟨clock, -, rfl⟩ := h
      rfl
  | deed _ hStore => exact Deed.isSome_results hStore

theorem isSome_results_of_replies (h : (bustling ends allows).Replies s log t) :
    t.store.results.isSome = s.store.results.isSome := by
  refine h.keeps (P := fun u => u.store.results.isSome = s.store.results.isSome) ?_ ?_ rfl
  · exact fun u v hMove hSame => hMove.isSome_results.trans hSame
  · exact fun x _ u v hAnswer hSame => (isSome_results_of_answers hAnswer.1).trans hSame

theorem Bustles.executed_eq (h : Bustles ends allows s t) : t.executed = s.executed := by
  cases h with
  | work _ hAnswer => exact (entries_of_answersFinal hAnswer).2
  | finish | stop | deed => rfl
  | age h =>
      obtain ⟨clock, -, rfl⟩ := h
      rfl

/-- Answers make sense to the loop. -/
theorem sensible_of_replies (h : (bustling ends allows).Replies s log t) :
    ∀ x ∈ log, Course.Sensible x.1 x.2 := by
  intro x hx
  obtain ⟨_, _, hAnswer⟩ := h.exists_answers hx
  exact sensible_of_answers hAnswer.1

end Scene

end TickScheduler
