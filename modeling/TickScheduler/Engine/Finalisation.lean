import TickScheduler.Error
import TickScheduler.Program
import TickScheduler.TaskResult
/-!
Finalisation of a task whose outcome is known: its result is written, then reported if someone is to
be told. A success that could not be reported is written once more, as such; a failure stays a
failure.
-/
namespace TickScheduler

/-- What a finalisation asks for. -/
inductive FinalRequest where
  | record (result : TaskResult) (keep : Nat)
  | notify (url : String) (payload : Payload)

/-- Both requests either succeed or report an error. -/
abbrev FinalRequest.Answer (_ : FinalRequest) : Type := Except Error Unit

structure Finalisation where
  result : TaskResult
  /-- Whom to tell, if anyone. -/
  receiver : Option String
  /-- What the addresses in the report start with. -/
  baseUrl : String
  /-- How many results of the entry to keep. -/
  keep : Nat

namespace Finalisation

/-- The result of a success that could not be reported. -/
def undelivered (f : Finalisation) : TaskResult :=
  { f.result with status := .notificationFailed }

def program (f : Finalisation) : Program FinalRequest FinalRequest.Answer (Except Error Unit) :=
  .ask (.record f.result f.keep) fun
    | .error e => .done (.error e)
    | .ok () =>
      match f.receiver with
      | none => .done (.ok ())
      | some url =>
        .ask (.notify url (.ofResult f.result f.baseUrl)) fun
          | .ok () => .done (.ok ())
          | .error _ =>
            if f.result.status = .success then .ask (.record f.undelivered f.keep) .done
            else .done (.ok ())

end Finalisation

end TickScheduler
