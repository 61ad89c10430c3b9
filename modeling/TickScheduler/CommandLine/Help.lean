import TickScheduler.CommandLine.Command
/-!
The texts that explain the command line.
-/
namespace TickScheduler.CommandLine

def programName : String := "sensord"

def versionText : String := programName ++ " 0.1.0"

/-- What stands for a value: the name of its option in capitals. -/
def placeholder (name : String) : String :=
  "<" ++ String.ofList (name.toList.map fun c => if c = '-' then '_' else c.toUpper) ++ ">"

/-- An option as it is written. -/
def OptionRule.usage (rule : OptionRule) : String :=
  let value :=
    match rule.role with
    | .value _ _ => " " ++ placeholder rule.long
    | _ => ""
  "--" ++ rule.long ++ value

/-- An option as it is listed, with room for a short form. -/
def OptionRule.listed (rule : OptionRule) : String :=
  (match rule.short with
    | some c => "-" ++ String.singleton c ++ ", "
    | none => "    ") ++ rule.usage

/-- Lines in two columns. -/
def columns (rows : List (String × String)) : List String :=
  let width := (rows.map fun (left, _) => left.length).max?.getD 0
  rows.map fun (left, right) =>
    "  " ++ left ++ String.ofList (List.replicate (width - left.length) ' ') ++ "  " ++ right

/-- Lines under a heading, if there are any. -/
def titled (title : String) (lines : List String) : List String :=
  if lines.isEmpty then [] else "" :: title :: lines

/-- How the words of a command line follow each other. -/
def usageLine (names : List String) (rules : Rules) : String :=
  let optional := rules.options.any fun rule =>
    !rule.isRequired && (match rule.role with
      | .value _ _ | .switch => true
      | .help | .version => false)
  let required := (rules.options.filter (·.isRequired)).map OptionRule.usage
  " ".intercalate (names ++ (if optional then ["[OPTIONS]"] else []) ++ required
    ++ rules.arguments.map placeholder ++ (if rules.hasCommands then ["<COMMAND>"] else []))

def helpLines (names : List String) (rules : Rules) (commands : List (String × String)) :
    List String :=
  [rules.about, "", "Usage: " ++ usageLine names rules]
    ++ titled "Commands:" (columns commands)
    ++ titled "Arguments:" (columns (rules.arguments.map fun name => (placeholder name, "")))
    ++ titled "Options:" (columns (rules.options.map fun rule => (rule.listed, rule.about)))

def helpAbout : String := "Print this message or the help of the given subcommand(s)"

/-- The help on a command, or on the program. -/
def help (command : Option String) : List String :=
  match command.bind fun name => (commandRules.lookup name).map (name, ·) with
  | some (name, rules) => helpLines [programName, name] rules []
  | none =>
    helpLines [programName] programRules
      (commandRules.map (fun (name, rules) => (name, rules.about)) ++ [(helpCommand, helpAbout)])

def UsageFault.message : UsageFault → String
  | .unknownOption word => s!"unexpected argument '{word}' found"
  | .repeatedOption long => s!"the argument '--{long}' cannot be used multiple times"
  | .missingValue long => s!"a value is required for '--{long}' but none was supplied"
  | .unwantedValue long => s!"unexpected value for '--{long}' found; no more were expected"
  | .badValue long value => s!"invalid value '{value}' for '--{long}'"
  | .missingOption long => s!"the following required argument was not provided: --{long}"
  | .missingArgument name =>
    "the following required argument was not provided: " ++ placeholder name
  | .unwantedArgument word => s!"unexpected argument '{word}' found"
  | .unknownCommand word => s!"unrecognized subcommand '{word}'"
  | .missingCommand => s!"'{programName}' requires a subcommand but one was not provided"

/-- The lines that say why a command line is not understood. -/
def UsageFault.lines (fault : UsageFault) : List String :=
  ["error: " ++ fault.message, "", "For more information, try '--help'."]

end TickScheduler.CommandLine
