/-!
Programs as dialogues with their surroundings. A program asks one request after another, and what it
does next may depend on every answer; it knows nothing else of the world. Whoever answers decides
what the requests mean, and can do anything between two of them.
-/
namespace TickScheduler

inductive Program (Request : Type) (Answer : Request → Type) (Result : Type) where
  | done (result : Result)
  | ask (request : Request) (next : Answer request → Program Request Answer Result)

namespace Program

variable {Request : Type} {Answer : Request → Type} {Result Other State : Type}

/-- Asks one request and returns its answer. -/
def request (r : Request) : Program Request Answer (Answer r) :=
  .ask r .done

/-- Goes on with what another program makes of the result. -/
def bind : Program Request Answer Result → (Result → Program Request Answer Other) →
    Program Request Answer Other
  | .done result, rest => rest result
  | .ask r next, rest => .ask r fun answer => (next answer).bind rest

instance : Monad (Program Request Answer) where
  pure := .done
  bind := bind

theorem bind_done (p : Program Request Answer Result) : p.bind .done = p := by
  induction p with
  | done => rfl
  | ask r next ih => exact congrArg (ask r) (funext ih)

theorem bind_assoc {Last : Type} (p : Program Request Answer Result)
    (f : Result → Program Request Answer Other) (g : Other → Program Request Answer Last) :
    (p.bind f).bind g = p.bind fun result => (f result).bind g := by
  induction p with
  | done => rfl
  | ask r next ih => exact congrArg (ask r) (funext ih)

instance : LawfulMonad (Program Request Answer) :=
  LawfulMonad.mk' _ bind_done (fun _ _ => rfl) bind_assoc

/-- Runs a program against a state that answers its requests one at a time. -/
def run (answer : (r : Request) → State → Answer r × State) :
    Program Request Answer Result → State → Result × State
  | .done result, s => (result, s)
  | .ask r next, s =>
    let (a, s) := answer r s
    (next a).run answer s

@[simp] theorem run_done (answer : (r : Request) → State → Answer r × State) (result : Result)
    (s : State) : (done result).run answer s = (result, s) := rfl

@[simp] theorem run_ask (answer : (r : Request) → State → Answer r × State) (r : Request)
    (next : Answer r → Program Request Answer Result) (s : State) :
    (ask r next).run answer s = (next (answer r s).1).run answer (answer r s).2 := rfl

/-- Running one program after the other runs the second from where the first ends. -/
theorem run_bind (answer : (r : Request) → State → Answer r × State)
    (p : Program Request Answer Result) (f : Result → Program Request Answer Other) (s : State) :
    (p.bind f).run answer s = (f (p.run answer s).1).run answer (p.run answer s).2 := by
  induction p generalizing s with
  | done => rfl
  | ask r next ih => exact ih _ _

/-- Leaves the answers to another computation, request by request. -/
def serveWith {m : Type → Type} [Monad m] (answer : (r : Request) → m (Answer r)) :
    Program Request Answer Result → m Result
  | .done result => pure result
  | .ask r next => do
    let a ← answer r
    (next a).serveWith answer

/-- The same dialogue as part of one with more requests. -/
def embed {Outer : Type} {Reply : Outer → Type} (wrap : Request → Outer)
    (unwrap : (r : Request) → Reply (wrap r) → Answer r) :
    Program Request Answer Result → Program Outer Reply Result
  | .done result => .done result
  | .ask r next => .ask (wrap r) fun reply => (next (unwrap r reply)).embed wrap unwrap

end Program

end TickScheduler
