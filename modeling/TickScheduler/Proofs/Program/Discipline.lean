import TickScheduler.Proofs.Program.Conduct
/-!
Disciplines: what a program may ask next, given what it has asked and heard so far. Whether a program
keeps to a discipline does not depend on its surroundings. Once it does, an invariant of the
surroundings may speak of how far the program has come, and has to be looked at request by request
only.
-/
namespace TickScheduler

structure Discipline (Request : Type) (Answer : Request → Type) (Phase : Type) where
  /-- Which requests may be asked. -/
  permits : Phase → Request → Prop
  /-- Which answers make sense. -/
  sensible : (r : Request) → Answer r → Prop
  after : Phase → (r : Request) → Answer r → Phase

variable {Request : Type} {Answer : Request → Type} {Phase State Result Other : Type}

namespace Program

/-- Begun in a phase, the program asks nothing that is not permitted as long as the answers make sense,
and ends as `post` says. -/
def Obeys (d : Discipline Request Answer Phase) (post : Result → Phase → Prop) :
    Program Request Answer Result → Phase → Prop
  | .done result, φ => post result φ
  | .ask r next, φ => d.permits φ r ∧ ∀ a, d.sensible r a → Obeys d post (next a) (d.after φ r a)

variable {d : Discipline Request Answer Phase} {post : Result → Phase → Prop}
  {p q : Program Request Answer Result} {φ : Phase}

theorem Obeys.bind {f : Result → Program Request Answer Other} {last : Other → Phase → Prop}
    (h : Obeys d post p φ) (hNext : ∀ result ψ, post result ψ → Obeys d last (f result) ψ) :
    Obeys d last (p.bind f) φ := by
  induction p generalizing φ with
  | done result => exact hNext result φ h
  | ask r next ih => exact ⟨h.1, fun a hSense => ih a (h.2 a hSense)⟩

theorem Obeys.mono {promise : Result → Phase → Prop} (hPost : ∀ result ψ, post result ψ → promise result ψ)
    (h : Obeys d post p φ) : Obeys d promise p φ := by
  induction p generalizing φ with
  | done result => exact hPost result φ h
  | ask r next ih => exact ⟨h.1, fun a hSense => ih a (h.2 a hSense)⟩

/-- A program that asks only for what is permitted in some phases, and that does not lead out of them. -/
theorem Obeys.of_asks {allowed : Request → Prop} {P : Phase → Prop}
    (hPermits : ∀ {φ r}, P φ → allowed r → d.permits φ r)
    (hAfter : ∀ {φ r} (a : Answer r), P φ → allowed r → P (d.after φ r a))
    (hAsks : p.Asks allowed) (h : P φ) : Obeys d (fun _ => P) p φ := by
  induction p generalizing φ with
  | done => exact h
  | ask r next ih => exact ⟨hPermits h hAsks.1, fun a _ => ih a (hAsks.2 a) (hAfter a h hAsks.1)⟩

section Surroundings

variable {c : Conduct Request Answer State} (inv : Phase → State → Prop) {s t : State}

/-- What is left of a program keeps to the discipline from where it has come to, and the invariant is
that of the phase it is in. -/
theorem Obeys.of_leads (hMove : ∀ {φ s t}, c.moves s t → inv φ s → inv φ t)
    (hAnswer : ∀ {φ r s a t}, d.permits φ r → c.answers r s a t → inv φ s →
      d.sensible r a ∧ inv (d.after φ r a) t)
    (leads : Leads c p s q t) (h : Obeys d post p φ) (hInv : inv φ s) :
    ∃ ψ, inv ψ t ∧ Obeys d post q ψ := by
  induction leads generalizing φ with
  | stay => exact ⟨φ, hInv, h⟩
  | move first _ ih => exact ih h (hMove first hInv)
  | answer first _ ih =>
      obtain ⟨hSense, hNext⟩ := hAnswer h.1 first hInv
      exact ih (h.2 _ hSense) hNext

/-- Whatever the surroundings do, the invariant holds in some phase all along. -/
theorem Obeys.upholds (hMove : ∀ {φ s t}, c.moves s t → inv φ s → inv φ t)
    (hAnswer : ∀ {φ r s a t}, d.permits φ r → c.answers r s a t → inv φ s →
      d.sensible r a ∧ inv (d.after φ r a) t)
    (h : Obeys d post p φ) (hInv : inv φ s) :
    Upholds c (fun t => ∃ ψ, inv ψ t) (fun result t => ∃ ψ, inv ψ t ∧ post result ψ) p s := by
  induction p generalizing φ s with
  | done result =>
      exact .done (P := inv φ) (fun _ _ => hMove) (fun _ h => ⟨φ, h⟩) (fun _ ht => ⟨φ, ht, h⟩) hInv
  | ask r next ih =>
      refine .ask (P := inv φ) (fun _ _ => hMove) (fun _ h => ⟨φ, h⟩) hInv fun t a u ht hAsked => ?_
      obtain ⟨hSense, hNext⟩ := hAnswer h.1 hAsked ht
      exact ih a (h.2 a hSense) hNext

end Surroundings

end Program

end TickScheduler
