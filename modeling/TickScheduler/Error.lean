import TickScheduler.Status
import TickScheduler.Text.Quoted
import TickScheduler.Tick
import TickScheduler.Timestamp.Reader
/-!
What can go wrong, by cause, and the wording of each cause. `Error` is what a caller is told;
`Failure` adds the one way in which an operation gives no answer at all.
-/
namespace TickScheduler

/-- Why a requested entry is not acceptable. -/
inductive EntryFault where
  | badName (name : String)
  /-- A stop given as an offset lies beyond the end of the clock. -/
  | stopOverflow (offset start : Tick)
  | badInterval (interval : Tick)
  | badStop (stop start : Tick)
deriving DecidableEq, Repr

def EntryFault.message : EntryFault → String
  | .badName name =>
    "name " ++ Text.quote name ++ " must be a non-empty slug of letters, digits, '-' or '_'"
  | .stopOverflow offset start => s!"relative stop {offset} overflows start ({start})"
  | .badInterval interval => s!"interval must be at least 1, got {interval}"
  | .badStop stop start => s!"stop ({stop}) must be after start ({start})"

/-- The two columns of the result table that hold timestamps. -/
inductive TimeColumn where
  | started
  | finished
deriving DecidableEq, Repr

/-- The place of a column in a row as it is read, counted from 0. -/
def TimeColumn.index : TimeColumn → Nat
  | .started => 2
  | .finished => 3

/-- Why the database did not do what it was asked. The three constructors `priority`, `time` and
`status` say that a stored row holds a value that cannot be read. -/
inductive DatabaseFault where
  | noTable (table : String)
  | noColumn (column : String)
  /-- The new row would break a rule of its table. -/
  | constraint
  | priority (value : Int64)
  | time (column : TimeColumn) (reason : Timestamp.ReadError)
  | status (text : String)
deriving DecidableEq, Repr

namespace DatabaseFault

/-- Whether a stored row could not be read. -/
def isUnreadable : DatabaseFault → Bool
  | .priority _ | .time _ _ | .status _ => true
  | .noTable _ | .noColumn _ | .constraint => false

/-- A stored text that could not be read. -/
def conversionMessage (index : Nat) (reason : String) : String :=
  s!"Conversion error from type Text at index: {index}, {reason}"

def message : DatabaseFault → String
  | .noTable table => "no such table: " ++ table
  | .noColumn column => "no such column: " ++ column
  | .constraint => "constraint failed"
  | .priority value => s!"Integer {value} out of range at index 2"
  | .time column reason => conversionMessage column.index reason.message
  | .status text => conversionMessage 5 (TaskStatus.unknownMessage text)

end DatabaseFault

inductive Error where
  | database (fault : DatabaseFault)
  | invalidEntry (fault : EntryFault)
  | entryNotFound (name : String)
  | entryExists (name : String)
  | unknownAction (name : String)
  /-- A callback was not delivered. -/
  | callback (reason : String)
  | io (reason : String)
  /-- The scheduler contradicted itself. -/
  | internal (reason : String)
deriving DecidableEq, Repr

def Error.message : Error → String
  | .database fault => "Database error: " ++ fault.message
  | .invalidEntry fault => "Invalid schedule entry: " ++ fault.message
  | .entryNotFound name => "Schedule entry not found: " ++ name
  | .entryExists name => "Schedule entry already exists: " ++ name
  | .unknownAction name => "No such action: " ++ name
  | .callback reason => "Callback delivery failed: " ++ reason
  | .io reason => "I/O error: " ++ reason
  | .internal reason => "Internal error: " ++ reason

/-- How an operation can end without a result. -/
inductive Failure where
  | error (cause : Error)
  /-- A tick or a task id would have to leave its 64 bits. No one handles this: it ends whatever is
  going on. -/
  | overflow
deriving DecidableEq, Repr

/-- The refusal of a requested entry. -/
def Failure.refused (fault : EntryFault) : Failure :=
  .error (.invalidEntry fault)

/-- What is said of an overflow. -/
def Failure.overflowMessage : String := "attempt to add with overflow"

end TickScheduler
