import TickScheduler.Proofs.Engine.Scene
import TickScheduler.Proofs.Program.Transcripts
/-!
Surroundings that answer. Every request has an answer in which nothing fails, all reports are delivered
and the background has come to its end when it is waited for. So the loop can always go on, and what it
does on a given scene can be computed.
-/
namespace TickScheduler.Scene

/-- Makes a change of the store, or reports why it cannot be made. -/
def replyWrite (s : Scene) : Except Error Store → Except Error Unit × Scene
  | .ok store => (.ok (), { s with store })
  | .error e => (.error e, s)

def replyFinal : (r : FinalRequest) → Scene → r.Answer × Scene
  | .record result keep, s =>
      match s.store.recordResult result keep with
      | .ok store => (.ok (), s.record store result)
      | .error e => (.error e, s)
  | .notify url payload, s => (.ok (), s.note (.notified url payload))

/-- The scene after all that goes on in the background, one job after the other. -/
def drained : List Job → Scene → Scene
  | [], s => { s with jobs := [] }
  | job :: rest, s => drained rest { (job.run replyFinal s).2 with jobs := rest }

/-- An answer to a request; how actions end is given. -/
def reply (outcome : Task → Outcome) : (r : Request) → Scene → r.Answer × Scene
  | .now, s => (s.clock, s)
  | .timestamp, s => (⟨0, 0, .inl (by decide)⟩, s)
  | .activeEntries, s => (s.store.activeEntries, s)
  | .entry name, s => (s.store.getEntry name, s)
  | .saveCursor e, s => s.replyWrite (s.store.saveCursor e)
  | .lastTaskId name, s => (s.store.lastTaskId name, s)
  | .final r, s => replyFinal r s
  | .call task _, s => (outcome task, s.note (.called task))
  | .sleep, s => (.ok (), s)
  | .spawn job, s => ((), { s with jobs := s.jobs ++ [job.program] })
  | .drain, s => ((), drained s.jobs s)
  | .beginPass, s => ((), { s with monitor := s.monitor.beginPass })
  | .setIdle, s => ((), { s with monitor := s.monitor.setIdle })
  | .publish upcoming, s => ((), { s with monitor := s.monitor.publish upcoming })
  | .stop, s => ((), { s with monitor := s.monitor.stop })
  | .stopRequested, s => (s.monitor.stopRequested, s)
  | .countOutcome failed, s =>
      let monitor := s.monitor.countOutcome failed
      (monitor.failures, { s with monitor })
  | .pause, s | .removeHealthFile, s | .touchHealthFile, s => ((), s)

variable {s : Scene}

theorem answers_replyWrite (attempt : Except Error Store) :
    Writes False s attempt (s.replyWrite attempt).1 (s.replyWrite attempt).2 := by
  cases attempt with
  | ok store => exact .inl ⟨store, rfl, rfl, rfl⟩
  | error e => exact .inr ⟨e, rfl, rfl, .inl rfl⟩

theorem answers_replyFinal (r : FinalRequest) (s : Scene) :
    AnswersFinal False r s (replyFinal r s).1 (replyFinal r s).2 := by
  cases r with
  | record result keep =>
      cases hAttempt : s.store.recordResult result keep with
      | ok store =>
          simp only [replyFinal, hAttempt]
          exact .inl ⟨store, hAttempt, rfl, rfl⟩
      | error e =>
          simp only [replyFinal, hAttempt]
          exact .inr ⟨e, rfl, rfl, .inl hAttempt⟩
  | notify url payload => exact rfl

/-- What is replied at once is an answer. -/
theorem answers_reply_at_once (outcome : Task → Outcome) {r : Request} (hNoDrain : r ≠ .drain) (s : Scene) :
    Answers False r s (reply outcome r s).1 (reply outcome r s).2 := by
  cases r with
  | now | activeEntries | entry | lastTaskId => simp [reply, Answers, Reads]
  | saveCursor e => exact answers_replyWrite _
  | final r => exact answers_replyFinal r s
  | drain => exact absurd rfl hNoDrain
  | stopRequested | countOutcome => exact ⟨rfl, rfl⟩
  | _ => exact rfl

/-- A job does not look at others. -/
theorem run_replyFinal_jobs (job : Job) (s : Scene) (jobs : List Job) :
    (job.run replyFinal { s with jobs }).2 = { (job.run replyFinal s).2 with jobs } := by
  induction job generalizing s with
  | done => rfl
  | ask r next ih =>
      have hFirst : replyFinal r { s with jobs } = ((replyFinal r s).1, { (replyFinal r s).2 with jobs }) := by
        cases r with
        | record result keep =>
            cases hAttempt : s.store.recordResult result keep with
            | ok store =>
                simp only [replyFinal, hAttempt]
                rfl
            | error e => simp only [replyFinal, hAttempt]
        | notify => rfl
      rw [Program.run_ask, Program.run_ask, hFirst]
      exact ih _ _

/-- Surroundings in which the background may get these replies, and come to its end. -/
structure Attends (c : Conduct Request Request.Answer Scene) : Prop where
  work {s : Scene} {before after : List Job} {r : FinalRequest} {next : r.Answer → Job}
    (hJobs : s.jobs = before ++ .ask r next :: after) :
    c.moves s { (replyFinal r s).2 with jobs := before ++ next (replyFinal r s).1 :: after }
  finish {s : Scene} {before after : List Job} {result : Except Error Unit}
    (hJobs : s.jobs = before ++ .done result :: after) : c.moves s { s with jobs := before ++ after }

theorem quiet_attends : Attends quiet where
  work hJobs := .step hJobs (answers_replyFinal _ _)
  finish hJobs := .finish hJobs

theorem jobs_drained (jobs : List Job) (s : Scene) : (drained jobs s).jobs = [] := by
  induction jobs generalizing s with
  | nil => rfl
  | cons job rest ih => exact ih _

namespace Attends

variable {c : Conduct Request Request.Answer Scene} (h : Attends c)
include h

/-- The first of the jobs in the background can come to its end. -/
theorem drifts_job {job : Job} {rest : List Job} (hJobs : s.jobs = job :: rest) :
    c.Drifts s { (job.run replyFinal s).2 with jobs := rest } := by
  induction job generalizing s with
  | done result =>
      have hFirst : s.jobs = [] ++ .done result :: rest := hJobs
      exact .single (h.finish hFirst)
  | ask r next ih =>
      have hFirst : s.jobs = [] ++ .ask r next :: rest := hJobs
      have hRest := ih (replyFinal r s).1
        (s := { (replyFinal r s).2 with jobs := next (replyFinal r s).1 :: rest }) rfl
      rw [run_replyFinal_jobs] at hRest
      exact .head (h.work hFirst) hRest

theorem drifts_drained {jobs : List Job} (hJobs : s.jobs = jobs) : c.Drifts s (drained jobs s) := by
  induction jobs generalizing s with
  | nil =>
      obtain ⟨store, clock, monitor, others, copies, journal⟩ := s
      obtain rfl : others = [] := hJobs
      exact .refl
  | cons job rest ih => exact (h.drifts_job hJobs).trans (ih rfl)

/-- Whatever is asked, what is replied is an answer once the background has gone on a little. -/
theorem answers_reply (outcome : Task → Outcome) (r : Request) (s : Scene) :
    ∃ t, c.Drifts s t ∧ Answers False r t (reply outcome r s).1 (reply outcome r s).2 := by
  by_cases hDrain : r = .drain
  · subst hDrain
    exact ⟨_, h.drifts_drained rfl, jobs_drained _ _, rfl⟩
  · exact ⟨s, .refl, answers_reply_at_once outcome hDrain s⟩

end Attends

theorem answers_reply (outcome : Task → Outcome) (r : Request) (s : Scene) :
    ∃ t, quiet.Drifts s t ∧ Answers False r t (reply outcome r s).1 (reply outcome r s).2 :=
  quiet_attends.answers_reply outcome r s

/-- What comes of a program that is given possible answers is one of the things that can come of it. -/
theorem leads_of_answers {Result : Type} {handler : (r : Request) → Scene → r.Answer × Scene}
    (h : ∀ r s, ∃ t, quiet.Drifts s t ∧ Answers False r t (handler r s).1 (handler r s).2)
    (p : Program Request Request.Answer Result) (s : Scene) :
    Program.Leads quiet p s (.done (p.run handler s).1) (p.run handler s).2 :=
  Program.leads_iff.mpr ⟨_, p.speaks_said s, p.replies_said h s⟩

theorem leads_run {Result : Type} (outcome : Task → Outcome)
    (p : Program Request Request.Answer Result) (s : Scene) :
    Program.Leads quiet p s (.done (p.run (reply outcome) s).1) (p.run (reply outcome) s).2 :=
  leads_of_answers (answers_reply outcome) p s

theorem quiet_responsive : quiet.Responsive := by
  intro r s
  obtain ⟨t, hDrift, hAnswer⟩ := answers_reply (fun _ => .unknown) r s
  exact ⟨t, _, _, hDrift, hAnswer⟩

end TickScheduler.Scene
