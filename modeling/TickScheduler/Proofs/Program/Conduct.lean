import Mathlib.Logic.Relation
import TickScheduler.Program
/-!
Programs among surroundings that are free in what they do. A conduct says which answers a request may
get and what may happen of itself between two requests. `Program.Leads` relates the points of a
dialogue that one can get to from another, and `Program.Upholds` is the statement that no conduct of
this kind breaks an invariant, nor a promise about the result.
-/
namespace TickScheduler

structure Conduct (Request : Type) (Answer : Request → Type) (State : Type) where
  /-- Which answers a request may get in a state, and in what state that leaves the surroundings. -/
  answers : (r : Request) → State → Answer r → State → Prop
  /-- What may happen while nobody asks for anything. -/
  moves : State → State → Prop

variable {Request : Type} {Answer : Request → Type} {State Result Other : Type}

namespace Conduct

/-- What the surroundings can come to of themselves. -/
abbrev Drifts (c : Conduct Request Answer State) : State → State → Prop :=
  Relation.ReflTransGen c.moves

/-- One conduct does nothing that another one could not do. -/
structure Within (c d : Conduct Request Answer State) : Prop where
  answers : ∀ {r s a t}, c.answers r s a t → d.answers r s a t
  moves : ∀ {s t}, c.moves s t → d.moves s t

/-- Every request is answered sooner or later. -/
def Responsive (c : Conduct Request Answer State) : Prop :=
  ∀ r s, ∃ t a u, c.Drifts s t ∧ c.answers r t a u

theorem keeps_of_drifts {c : Conduct Request Answer State} {P : State → Prop}
    (hMove : ∀ s t, c.moves s t → P s → P t) {s t : State} (drift : c.Drifts s t) (h : P s) : P t := by
  induction drift with
  | refl => exact h
  | tail _ last ih => exact hMove _ _ last ih

end Conduct

namespace Program

/-- Begun in `s`, the first program can come to the second one as what is left of it, with the
surroundings in `t`. It may be left at any point, and it is over when `done` is left. -/
inductive Leads (c : Conduct Request Answer State) :
    Program Request Answer Result → State → Program Request Answer Result → State → Prop where
  | stay (p : Program Request Answer Result) (s : State) : Leads c p s p s
  | move {p q : Program Request Answer Result} {s t u : State}
      (first : c.moves s t) (rest : Leads c p t q u) : Leads c p s q u
  | answer {r : Request} {next : Answer r → Program Request Answer Result}
      {q : Program Request Answer Result} {s t u : State} {a : Answer r}
      (first : c.answers r s a t) (rest : Leads c (next a) t q u) : Leads c (.ask r next) s q u

variable {c d : Conduct Request Answer State}

theorem Leads.trans {p q o : Program Request Answer Result} {s t u : State}
    (left : Leads c p s q t) (right : Leads c q t o u) : Leads c p s o u := by
  induction left with
  | stay => exact right
  | move first _ ih => exact .move first (ih right)
  | answer first _ ih => exact .answer first (ih right)

theorem Leads.mono {p q : Program Request Answer Result} {s t : State} (within : c.Within d)
    (leads : Leads c p s q t) : Leads d p s q t := by
  induction leads with
  | stay => exact .stay _ _
  | move first _ ih => exact .move (within.moves first) ih
  | answer first _ ih => exact .answer (within.answers first) ih

theorem Leads.of_drifts {p : Program Request Answer Result} {s t : State} (drift : c.Drifts s t) :
    Leads c p s p t := by
  induction drift using Relation.ReflTransGen.head_induction_on with
  | refl => exact .stay _ _
  | head first _ ih => exact .move first ih

theorem Leads.bind {p q : Program Request Answer Result} {s t : State}
    (f : Result → Program Request Answer Other) (leads : Leads c p s q t) :
    Leads c (p.bind f) s (q.bind f) t := by
  induction leads with
  | stay => exact .stay _ _
  | move first _ ih => exact .move first ih
  | answer first _ ih => exact .answer first ih

/-- What neither answers nor moves change is the same after every dialogue. -/
theorem Leads.keeps {p q : Program Request Answer Result} {s t : State} {P : State → Prop}
    (hAnswer : ∀ r s a t, c.answers r s a t → P s → P t) (hMove : ∀ s t, c.moves s t → P s → P t)
    (leads : Leads c p s q t) (h : P s) : P t := by
  induction leads with
  | stay => exact h
  | move first _ ih => exact ih (hMove _ _ first h)
  | answer first _ ih => exact ih (hAnswer _ _ _ _ first h)

theorem exists_leads_done (responsive : c.Responsive) (p : Program Request Answer Result) (s : State) :
    ∃ result t, Leads c p s (.done result) t := by
  induction p generalizing s with
  | done result => exact ⟨result, s, .stay _ _⟩
  | ask r next ih =>
      obtain ⟨t, a, u, drift, answered⟩ := responsive r s
      obtain ⟨result, v, rest⟩ := ih a u
      exact ⟨result, v, (Leads.of_drifts drift).trans (.answer answered rest)⟩

/-- Whatever the surroundings do, `inv` holds all along, and `post` of the result once it is there. -/
def Upholds (c : Conduct Request Answer State) (inv : State → Prop)
    (post : Result → State → Prop) : Program Request Answer Result → State → Prop
  | .done result, s => ∀ t, c.Drifts s t → inv t ∧ post result t
  | .ask r next, s => ∀ t, c.Drifts s t →
      inv t ∧ ∀ a u, c.answers r t a u → Upholds c inv post (next a) u

namespace Upholds

variable {inv other : State → Prop} {post promise : Result → State → Prop}
  {p q : Program Request Answer Result} {s t : State}

theorem of_drifts (drift : c.Drifts s t) (h : Upholds c inv post p s) : Upholds c inv post p t := by
  cases p with
  | done result => exact fun u later => h u (drift.trans later)
  | ask r next => exact fun u later => h u (drift.trans later)

theorem inv_here (h : Upholds c inv post p s) : inv s := by
  cases p with
  | done result => exact (h s .refl).1
  | ask r next => exact (h s .refl).1

theorem post_here {result : Result} (h : Upholds c inv post (.done result) s) : post result s :=
  (h s .refl).2

theorem of_leads (leads : Leads c p s q t) (h : Upholds c inv post p s) :
    Upholds c inv post q t := by
  induction leads with
  | stay => exact h
  | move first _ ih => exact ih (h.of_drifts (.single first))
  | answer first _ ih => exact ih ((h _ .refl).2 _ _ first)

theorem mono (hInv : ∀ t, inv t → other t) (hPost : ∀ result t, post result t → promise result t)
    (h : Upholds c inv post p s) : Upholds c other promise p s := by
  induction p generalizing s with
  | done result => exact fun t drift => ⟨hInv t (h t drift).1, hPost result t (h t drift).2⟩
  | ask r next ih =>
      exact fun t drift => ⟨hInv t (h t drift).1, fun a u answered => ih a ((h t drift).2 a u answered)⟩

/-- One program after another: the second has to uphold the rest from where the first leaves off. -/
theorem bind {f : Result → Program Request Answer Other} {last : Other → State → Prop}
    (h : Upholds c inv post p s)
    (hNext : ∀ result t, inv t → post result t → Upholds c inv last (f result) t) :
    Upholds c inv last (p.bind f) s := by
  induction p generalizing s with
  | done result => exact hNext result s (h s .refl).1 (h s .refl).2
  | ask r next ih =>
      exact fun t drift => ⟨(h t drift).1, fun a u answered => ih a ((h t drift).2 a u answered)⟩

/-- A request is asked at some later moment, in a state of which only `P` is known, if `P` survives
every move. -/
theorem ask {r : Request} {next : Answer r → Program Request Answer Result} {P : State → Prop}
    (hMove : ∀ s t, c.moves s t → P s → P t) (hInv : ∀ t, P t → inv t) (h : P s)
    (hNext : ∀ t a u, P t → c.answers r t a u → Upholds c inv post (next a) u) :
    Upholds c inv post (.ask r next) s := by
  intro t drift
  have ht : P t := c.keeps_of_drifts hMove drift h
  exact ⟨hInv t ht, fun a u answered => hNext t a u ht answered⟩

theorem done {result : Result} {P : State → Prop} (hMove : ∀ s t, c.moves s t → P s → P t)
    (hInv : ∀ t, P t → inv t) (hPost : ∀ t, P t → post result t) (h : P s) :
    Upholds c inv post (.done result) s := by
  intro t drift
  have ht : P t := c.keeps_of_drifts hMove drift h
  exact ⟨hInv t ht, hPost t ht⟩

end Upholds

/-- A program whose every request meets a condition, whatever the answers. -/
def Asks (allowed : Request → Prop) : Program Request Answer Result → Prop
  | .done _ => True
  | .ask r next => allowed r ∧ ∀ a, (next a).Asks allowed

namespace Asks

variable {allowed other : Request → Prop} {p : Program Request Answer Result}

theorem of_forall (h : ∀ r, allowed r) : p.Asks allowed := by
  induction p with
  | done => exact trivial
  | ask r next ih => exact ⟨h r, ih⟩

theorem mono (hAllowed : ∀ r, allowed r → other r) (h : p.Asks allowed) : p.Asks other := by
  induction p with
  | done => exact trivial
  | ask r next ih => exact ⟨hAllowed r h.1, fun a => ih a (h.2 a)⟩

theorem and (h : p.Asks allowed) (hOther : p.Asks other) : p.Asks fun r => allowed r ∧ other r := by
  induction p with
  | done => exact trivial
  | ask r next ih => exact ⟨⟨h.1, hOther.1⟩, fun a => ih a (h.2 a) (hOther.2 a)⟩

theorem bind {f : Result → Program Request Answer Other} (h : p.Asks allowed)
    (hNext : ∀ result, (f result).Asks allowed) : (p.bind f).Asks allowed := by
  induction p with
  | done result => exact hNext result
  | ask r next ih => exact ⟨h.1, fun a => ih a (h.2 a)⟩

theorem embed {Outer : Type} {Reply : Outer → Type} {wrap : Request → Outer}
    {unwrap : (r : Request) → Reply (wrap r) → Answer r} {allowed : Outer → Prop}
    (h : p.Asks fun r => allowed (wrap r)) : (p.embed wrap unwrap).Asks allowed := by
  induction p with
  | done => exact trivial
  | ask r next ih => exact ⟨h.1, fun reply => ih _ (h.2 _)⟩

/-- What no answer to the requests of a program changes holds all along. -/
theorem upholds {P : State → Prop} {s : State} (hMove : ∀ s t, c.moves s t → P s → P t)
    (hAnswer : ∀ r s a t, allowed r → c.answers r s a t → P s → P t) (hAsks : p.Asks allowed) (h : P s) :
    Upholds c P (fun _ => P) p s := by
  induction p generalizing s with
  | done result => exact .done hMove (fun _ => id) (fun _ => id) h
  | ask r next ih =>
      refine .ask hMove (fun _ => id) h fun t a u ht hAsked => ?_
      exact ih a (hAsks.2 a) (hAnswer r t a u hAsks.1 hAsked ht)

end Asks

end Program

end TickScheduler
