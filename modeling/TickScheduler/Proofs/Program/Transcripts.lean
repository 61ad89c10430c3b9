import TickScheduler.Proofs.Program.Discipline
/-!
Dialogues written down. A transcript lists the requests of a program with their answers. Which transcripts
there are is a matter of the program on the one hand, whatever it is answered, and of the surroundings on
the other hand, whatever they are asked; a dialogue is possible if both agree to its transcript.
-/
namespace TickScheduler

variable {Request : Type} {Answer : Request → Type} {Phase State Result Other : Type}

/-- A request and its answer. -/
abbrev Exchange (Answer : Request → Type) : Type :=
  (r : Request) × Answer r

namespace Program

/-- With these answers the program asks these requests, and then the second one is left of it. -/
inductive Speaks : Program Request Answer Result → List (Exchange Answer) →
    Program Request Answer Result → Prop where
  | stay (p : Program Request Answer Result) : Speaks p [] p
  | ask {r : Request} {next : Answer r → Program Request Answer Result} {a : Answer r}
      {log : List (Exchange Answer)} {q : Program Request Answer Result}
      (rest : Speaks (next a) log q) : Speaks (.ask r next) (⟨r, a⟩ :: log) q

end Program

namespace Conduct

/-- Asked for these requests, the surroundings can give these answers, and get from one state to the
other. -/
inductive Replies (c : Conduct Request Answer State) : State → List (Exchange Answer) → State → Prop where
  | stay (s : State) : Replies c s [] s
  | move {s t u : State} {log : List (Exchange Answer)} (first : c.moves s t) (rest : Replies c t log u) :
      Replies c s log u
  | answer {r : Request} {a : Answer r} {s t u : State} {log : List (Exchange Answer)}
      (first : c.answers r s a t) (rest : Replies c t log u) : Replies c s (⟨r, a⟩ :: log) u

variable {c : Conduct Request Answer State} {s t u : State} {log more : List (Exchange Answer)}

theorem Replies.trans (left : c.Replies s log t) (right : c.Replies t more u) :
    c.Replies s (log ++ more) u := by
  induction left with
  | stay => exact right
  | move first _ ih => exact .move first (ih right)
  | answer first _ ih => exact .answer first (ih right)

theorem Replies.of_drifts (drift : c.Drifts s t) (h : c.Replies t log u) : c.Replies s log u := by
  induction drift using Relation.ReflTransGen.head_induction_on with
  | refl => exact h
  | head first _ ih => exact .move first ih

theorem replies_append_iff :
    c.Replies s (log ++ more) u ↔ ∃ t, c.Replies s log t ∧ c.Replies t more u := by
  constructor
  · intro h
    generalize hAll : log ++ more = all at h
    induction h generalizing log with
    | stay s =>
        obtain ⟨rfl, rfl⟩ := List.append_eq_nil_iff.mp hAll
        exact ⟨s, .stay s, .stay s⟩
    | move first _ ih =>
        obtain ⟨t, left, right⟩ := ih hAll
        exact ⟨t, .move first left, right⟩
    | @answer r a s t u all first rest ih =>
        cases log with
        | nil =>
            obtain rfl : more = ⟨r, a⟩ :: all := hAll
            exact ⟨s, .stay s, .answer first rest⟩
        | cons x log =>
            obtain ⟨rfl, hRest⟩ := List.cons.inj hAll
            obtain ⟨m, left, right⟩ := ih hRest
            exact ⟨m, .answer first left, right⟩
  · rintro ⟨t, left, right⟩
    exact left.trans right

/-- The first exchange takes place at some moment, and the others after it. -/
theorem Replies.exists_first {x : Exchange Answer} (h : c.Replies s (x :: log) u) :
    ∃ v w, c.Drifts s v ∧ c.answers x.1 v x.2 w ∧ c.Replies w log u := by
  generalize hAll : x :: log = all at h
  induction h with
  | stay => cases hAll
  | move first _ ih =>
      obtain ⟨v, w, drift, answered, rest⟩ := ih hAll
      exact ⟨v, w, .head first drift, answered, rest⟩
  | answer first rest =>
      cases hAll
      exact ⟨_, _, .refl, first, rest⟩

/-- Every exchange has taken place at some moment. -/
theorem Replies.exists_answers (h : c.Replies s log t) {x : Exchange Answer} (hx : x ∈ log) :
    ∃ u v, c.answers x.1 u x.2 v := by
  induction h with
  | stay => cases hx
  | move _ _ ih => exact ih hx
  | answer first _ ih =>
      rcases List.mem_cons.mp hx with rfl | hx
      · exact ⟨_, _, first⟩
      · exact ih hx

/-- What is kept by moves, and by exchanges of the kind that occurs. -/
theorem Replies.keeps {P : State → Prop} (hMove : ∀ s t, c.moves s t → P s → P t)
    (hAnswer : ∀ x ∈ log, ∀ s t, c.answers x.1 s x.2 t → P s → P t) (h : c.Replies s log t) (hs : P s) :
    P t := by
  induction h with
  | stay => exact hs
  | move first _ ih => exact ih hAnswer (hMove _ _ first hs)
  | answer first _ ih =>
      exact ih (fun x hx => hAnswer x (List.mem_cons_of_mem _ hx))
        (hAnswer _ List.mem_cons_self _ _ first hs)

end Conduct

namespace Program

variable {c : Conduct Request Answer State} {s t : State} {p q : Program Request Answer Result}
  {log : List (Exchange Answer)}

/-- Every dialogue has a transcript. -/
theorem leads_iff : Leads c p s q t ↔ ∃ log, p.Speaks log q ∧ c.Replies s log t := by
  constructor
  · intro h
    induction h with
    | stay => exact ⟨[], .stay _, .stay _⟩
    | move first _ ih =>
        obtain ⟨log, speaks, replies⟩ := ih
        exact ⟨log, speaks, .move first replies⟩
    | answer first _ ih =>
        obtain ⟨log, speaks, replies⟩ := ih
        exact ⟨_, .ask speaks, .answer first replies⟩
  · rintro ⟨log, speaks, replies⟩
    induction replies generalizing p with
    | stay =>
        cases speaks
        exact .stay _ _
    | move first _ ih => exact .move first (ih speaks)
    | answer first _ ih =>
        cases speaks with
        | ask rest => exact .answer first (ih rest)

/-- What is said if a function answers every request. -/
def said (answer : (r : Request) → State → Answer r × State) :
    Program Request Answer Result → State → List (Exchange Answer)
  | .done _, _ => []
  | .ask r next, s =>
    let (a, s) := answer r s
    ⟨r, a⟩ :: (next a).said answer s

section Said

variable {answer : (r : Request) → State → Answer r × State}

theorem speaks_said (p : Program Request Answer Result) (s : State) :
    p.Speaks (p.said answer s) (.done (p.run answer s).1) := by
  induction p generalizing s with
  | done => exact .stay _
  | ask r next ih => exact .ask (ih _ _)

/-- What is said along the first program, and then along the second. -/
theorem said_bind (p : Program Request Answer Result) (f : Result → Program Request Answer Other) (s : State) :
    (p.bind f).said answer s = p.said answer s ++ (f (p.run answer s).1).said answer (p.run answer s).2 := by
  induction p generalizing s with
  | done => rfl
  | ask r next ih => exact congrArg (_ :: ·) (ih _ _)

/-- The surroundings can say so too, if the function gives possible answers. -/
theorem replies_said (h : ∀ r s, ∃ t, c.Drifts s t ∧ c.answers r t (answer r s).1 (answer r s).2)
    (p : Program Request Answer Result) (s : State) : c.Replies s (p.said answer s) (p.run answer s).2 := by
  induction p generalizing s with
  | done => exact .stay _
  | ask r next ih =>
      obtain ⟨t, hDrift, hAnswer⟩ := h r s
      exact .of_drifts hDrift (.answer hAnswer (ih _ _))

/-- The same for the requests that are asked. -/
theorem replies_said_of_asks {allowed : Request → Prop}
    (h : ∀ r s, allowed r → c.answers r s (answer r s).1 (answer r s).2)
    {p : Program Request Answer Result} (hAsks : p.Asks allowed) (s : State) :
    c.Replies s (p.said answer s) (p.run answer s).2 := by
  induction p generalizing s with
  | done => exact .stay _
  | ask r next ih => exact .answer (h r s hAsks.1) (ih _ (hAsks.2 _) _)

end Said

theorem speaks_done_iff {result : Result} : (done result).Speaks log q ↔ log = [] ∧ q = .done result := by
  constructor
  · intro h
    cases h
    exact ⟨rfl, rfl⟩
  · rintro ⟨rfl, rfl⟩
    exact .stay _

theorem speaks_ask_iff {r : Request} {next : Answer r → Program Request Answer Result} {result : Result} :
    (ask r next).Speaks log (.done result) ↔
      ∃ a rest, log = ⟨r, a⟩ :: rest ∧ (next a).Speaks rest (.done result) := by
  constructor
  · intro h
    cases h with
    | ask rest => exact ⟨_, _, rfl, rest⟩
  · rintro ⟨a, rest, rfl, speaks⟩
    exact .ask speaks

theorem Speaks.bind {f : Result → Program Request Answer Other} {x : Result}
    {more : List (Exchange Answer)} {o : Program Request Answer Other} (left : p.Speaks log (.done x))
    (right : (f x).Speaks more o) : (p.bind f).Speaks (log ++ more) o := by
  generalize hDone : (done x : Program Request Answer Result) = last at left
  induction left with
  | stay =>
      subst hDone
      exact right
  | ask _ ih => exact .ask (ih hDone)

theorem speaks_bind_iff {f : Result → Program Request Answer Other} {y : Other} :
    (p.bind f).Speaks log (.done y) ↔
      ∃ x first rest, log = first ++ rest ∧ p.Speaks first (.done x) ∧ (f x).Speaks rest (.done y) := by
  constructor
  · intro h
    induction p generalizing log with
    | done x => exact ⟨x, [], log, rfl, .stay _, h⟩
    | ask r next ih =>
        obtain ⟨a, rest, rfl, speaks⟩ := speaks_ask_iff.mp h
        obtain ⟨x, first, last, rfl, left, right⟩ := ih a speaks
        exact ⟨x, ⟨r, a⟩ :: first, last, rfl, .ask left, right⟩
  · rintro ⟨x, first, rest, rfl, left, right⟩
    exact left.bind right

theorem Asks.of_speaks {allowed : Request → Prop} (hAsks : p.Asks allowed) (h : p.Speaks log q) :
    ∀ x ∈ log, allowed x.1 := by
  induction h with
  | stay => exact nofun
  | ask _ ih => exact List.forall_mem_cons.mpr ⟨hAsks.1, ih (hAsks.2 _)⟩

/-- What the program asks if the answer to every request is known beforehand. -/
def asked (answer : (r : Request) → Answer r) : Program Request Answer Result → List Request
  | .done _ => []
  | .ask r next => r :: (next (answer r)).asked answer

/-- What the program comes to then. -/
def comesTo (answer : (r : Request) → Answer r) : Program Request Answer Result → Result
  | .done result => result
  | .ask r next => (next (answer r)).comesTo answer

theorem Asks.of_asked {answer : (r : Request) → Answer r} {allowed : Request → Prop} (h : p.Asks allowed) :
    ∀ r ∈ p.asked answer, allowed r := by
  induction p with
  | done => exact List.forall_mem_nil _
  | ask r next ih => exact List.forall_mem_cons.mpr ⟨h.1, ih _ (h.2 _)⟩

/-- Whatever is asked was permitted in some phase. -/
theorem Obeys.permits_of_speaks {d : Discipline Request Answer Phase} {post : Result → Phase → Prop}
    {φ : Phase} (h : Obeys d post p φ) (hSpeaks : p.Speaks log q) (hSense : ∀ x ∈ log, d.sensible x.1 x.2) :
    ∀ x ∈ log, ∃ ψ, d.permits ψ x.1 := by
  induction hSpeaks generalizing φ with
  | stay => exact List.forall_mem_nil _
  | ask _ ih =>
      rw [List.forall_mem_cons] at hSense
      exact List.forall_mem_cons.mpr ⟨⟨φ, h.1⟩, ih (h.2 _ hSense.1) hSense.2⟩

/-- What is promised of the result holds if every answer made sense. -/
theorem Obeys.post_of_speaks {d : Discipline Request Answer Phase} {post : Result → Phase → Prop} {φ : Phase}
    {result : Result} (h : Obeys d post p φ) (hSpeaks : p.Speaks log (.done result))
    (hSense : ∀ x ∈ log, d.sensible x.1 x.2) : ∃ ψ, post result ψ := by
  generalize hDone : (done result : Program Request Answer Result) = last at hSpeaks
  induction hSpeaks generalizing φ with
  | stay =>
      subst hDone
      exact ⟨φ, h⟩
  | ask _ ih =>
      rw [List.forall_mem_cons] at hSense
      exact ih (h.2 _ hSense.1) hSense.2 hDone

/-- An invariant of the surroundings may speak of how far the program has come, and of what was said. -/
theorem Obeys.of_replies {d : Discipline Request Answer Phase} {post : Result → Phase → Prop} {φ : Phase}
    {before : List (Exchange Answer)} (inv : List (Exchange Answer) → Phase → State → Prop)
    (hMove : ∀ {log φ s t}, c.moves s t → inv log φ s → inv log φ t)
    (hAnswer : ∀ {log φ r s a t}, d.permits φ r → c.answers r s a t → inv log φ s →
      d.sensible r a ∧ inv (log ++ [⟨r, a⟩]) (d.after φ r a) t)
    (hSpeaks : p.Speaks log q) (hReplies : c.Replies s log t) (h : Obeys d post p φ) (hInv : inv before φ s) :
    ∃ ψ, inv (before ++ log) ψ t ∧ Obeys d post q ψ := by
  induction hReplies generalizing p φ before with
  | stay =>
      cases hSpeaks
      exact ⟨φ, by rwa [List.append_nil], h⟩
  | move first _ ih => exact ih hSpeaks h (hMove first hInv)
  | answer first _ ih =>
      cases hSpeaks with
      | ask rest =>
          obtain ⟨hSense, hNext⟩ := hAnswer h.1 first hInv
          rw [List.append_cons]
          exact ih rest (h.2 _ hSense) hNext

end Program

end TickScheduler
