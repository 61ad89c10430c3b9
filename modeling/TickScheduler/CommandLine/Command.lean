import TickScheduler.CommandLine.Grammar
import TickScheduler.Entry.Draft
/-!
The commands of the program, and how a command line names them.
-/
namespace TickScheduler.CommandLine

inductive Command where
  /-- Runs the scheduling loop. -/
  | run
  /-- Makes an entry of a draft and stores it. -/
  | add (draft : Draft)
  | list
  /-- Takes an entry out of the schedule. -/
  | cancel (name : String)
  /-- Deletes an entry with its results. -/
  | remove (name : String)
  /-- Shows the newest results of an entry. -/
  | results (name : String) (limit : Nat)
deriving DecidableEq, Repr

/-- What the program is asked to do. -/
structure Invocation where
  /-- The configuration file, if one is named. -/
  config : Option String
  command : Command
deriving DecidableEq, Repr

/-! ### Rules -/

def helpOption : OptionRule where
  long := "help"
  short := some 'h'
  role := .help
  about := "Print help"

def versionOption : OptionRule where
  long := "version"
  short := some 'V'
  role := .version
  about := "Print version"

def configOption : OptionRule where
  long := "config"
  short := some 'c'
  role := .value .text false
  about := "Config file (default: $SENSORD_CONFIG, then ~/.sensord/sensord.toml)"

def programRules : Rules where
  options := [configOption, helpOption, versionOption]
  hasCommands := true
  about := "Sensor task scheduler"

def tickKind : ValueKind := .integer Int64.minValue.toInt Int64.maxValue.toInt

/-- An option of the command that adds an entry. -/
def addOption (long : String) (role : OptionRole) (about : String) : OptionRule where
  long := long
  role := role
  about := about

def addRules : Rules where
  options := [
    { addOption "name" (.value .text false) "Unique slug: letters, digits, '-' or '_'" with
      isRequired := true },
    { addOption "action" (.value .text false) "Registered action to run" with
      isRequired := true },
    addOption "priority" (.value (.integer Int32.minValue.toInt Int32.maxValue.toInt) true)
      "Lower runs first when tasks share a tick [default: 10]",
    addOption "start" (.value tickKind true) "First tick, inclusive [default: now + 1]",
    addOption "stop" (.value tickKind true) "Last tick, exclusive [default: never]",
    addOption "relative-stop" .switch "Treat --stop as an offset from --start",
    addOption "interval" (.value tickKind false) "Ticks between tasks [default: run once]",
    addOption "callback-url" (.value .text false) "POST each task result here",
    addOption "owner" (.value .text false) "Opaque owner reference",
    helpOption]
  about := "Validate and add a schedule entry"

def limitOption : OptionRule where
  long := "limit"
  short := some 'l'
  role := .value (.count UInt64.size) false
  about := "[default: 20]"

/-- How many results are shown unless a limit is given. -/
def defaultLimit : Nat := 20

def nameArgument : String := "name"

/-- The rules of a command that has no options but the one for help. -/
def plainRules (arguments : List String) (about : String) : Rules where
  options := [helpOption]
  arguments := arguments
  about := about

/-- All commands with their rules, in the order in which they are listed. -/
def commandRules : List (String × Rules) := [
  ("run", plainRules [] "Run the scheduler until interrupted"),
  ("add", addRules),
  ("list", plainRules [] "Print every schedule entry as a JSON line"),
  ("cancel", plainRules [nameArgument] "Deactivate an entry without deleting it"),
  ("remove", plainRules [nameArgument] "Delete an entry and its results"),
  ("results", { plainRules [nameArgument] "Print stored task results of an entry, newest first" with
    options := [limitOption, helpOption] })]

/-! ### Reading -/

/-- The draft that options describe. -/
def draftOf (w : Words) : Draft where
  name := (w.value? "name").getD ""
  action := (w.value? "action").getD ""
  priority := (w.integer? "priority").map Int32.ofInt
  start := (w.integer? "start").map Int64.ofInt
  stop := (w.integer? "stop").map Int64.ofInt
  stopIsRelative := w.has "relative-stop"
  interval := (w.integer? "interval").map Int64.ofInt
  callbackUrl := w.value? "callback-url"
  owner := w.value? "owner"

/-- The command of a name, with what has been read for it. -/
def commandOf? (name : String) (w : Words) : Option Command :=
  let argument := w.arguments.headD ""
  match name with
  | "run" => some .run
  | "add" => some (.add (draftOf w))
  | "list" => some .list
  | "cancel" => some (.cancel argument)
  | "remove" => some (.remove argument)
  | "results" => some (.results argument ((w.integer? "limit").elim defaultLimit Int.toNat))
  | _ => none

/-- What the program does about a command line. -/
inductive Reading where
  | invoke (invocation : Invocation)
  /-- Shows help on a command, or on the program. -/
  | help (command : Option String)
  | version
  /-- There are no words at all. -/
  | nothing
  | fault (fault : UsageFault)
deriving DecidableEq, Repr

def Reading.interrupted (command : Option String) : Interruption → Reading
  | .help => .help command
  | .version => .version
  | .fault cause => .fault cause

/-- The command that shows help. -/
def helpCommand : String := "help"

/-- Reads the words that ask for help on a command. No command has commands of its own. -/
def readHelp : List String → Reading
  | [] => .help none
  | name :: rest =>
    if name = helpCommand || (commandRules.lookup name).isSome then
      match rest with
      | [] => .help (some name)
      | word :: _ => .fault (.unknownCommand word)
    else .fault (.unknownCommand name)

/-- Reads the words behind the name of a command. -/
def readCommand (config : Option String) (name : String) (words : List String) : Reading :=
  match commandRules.lookup name with
  | none => .fault (.unknownCommand name)
  | some rules =>
    match rules.read words with
    | .error interruption => .interrupted (some name) interruption
    | .ok w =>
      match commandOf? name w with
      | some command => .invoke ⟨config, command⟩
      | none => .fault (.unknownCommand name)

/-- Reads a command line. -/
def read (words : List String) : Reading :=
  if words.isEmpty then .nothing
  else
    match programRules.read words with
    | .error interruption => .interrupted none interruption
    | .ok w =>
      match w.command with
      | none => .fault .missingCommand
      | some (name, rest) =>
        if name = helpCommand then readHelp rest
        else readCommand (w.value? configOption.long) name rest

end TickScheduler.CommandLine
