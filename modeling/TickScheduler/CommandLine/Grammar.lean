import TickScheduler.Text.Integer
/-!
The grammar of a command line. Words that begin with a dash name options; any other word is the value
of the option before it, a command, or an argument. Options are written `--long value`, `--long=value`,
`-s value`, `-svalue` or `-s=value`, and after a word of two dashes there are no more options.
-/
namespace TickScheduler.CommandLine

/-- What an option wants to be told. -/
inductive ValueKind where
  | text
  /-- An integer between two bounds. -/
  | integer (low high : Int)
  /-- A number without a minus, below a bound. -/
  | count (size : Nat)

/-- Whether a text is a value of this kind. -/
def ValueKind.accepts (kind : ValueKind) (text : String) : Bool :=
  match kind with
  | .text => true
  | .integer low high => (Text.integer? text.toList).any fun i => low ≤ i && i ≤ high
  | .count size => (Text.natural? text.toList).any (· < size)

/-- What an option does. -/
inductive OptionRole where
  /-- It takes a value. A negative number after it is one only if that is allowed. -/
  | value (kind : ValueKind) (allowsNegative : Bool)
  /-- It is there or not. -/
  | switch
  | help
  | version

structure OptionRule where
  long : String
  short : Option Char := none
  role : OptionRole
  isRequired : Bool := false
  about : String := ""

/-- What one command, or the program itself, accepts. -/
structure Rules where
  options : List OptionRule
  /-- The names of the arguments, all of which have to be there. -/
  arguments : List String := []
  /-- Whether a command follows. -/
  hasCommands : Bool := false
  about : String

/-- Why a command line cannot be understood. -/
inductive UsageFault where
  | unknownOption (word : String)
  | repeatedOption (long : String)
  | missingValue (long : String)
  | unwantedValue (long : String)
  | badValue (long value : String)
  | missingOption (long : String)
  | missingArgument (name : String)
  | unwantedArgument (word : String)
  | unknownCommand (word : String)
  | missingCommand
deriving DecidableEq, Repr

/-- What ends the reading of a command line early. -/
inductive Interruption where
  | help
  | version
  | fault (fault : UsageFault)
deriving DecidableEq, Repr

/-- What has been read of a command line. -/
structure Words where
  /-- The options by their long names, with their values if they have any, the latest first. -/
  options : List (String × String) := []
  /-- The arguments in their order. -/
  arguments : List String := []
  /-- The words behind a command, and the command. -/
  command : Option (String × List String) := none
deriving DecidableEq, Repr

namespace Words

def has (w : Words) (long : String) : Bool :=
  (w.options.lookup long).isSome

def value? (w : Words) (long : String) : Option String :=
  w.options.lookup long

/-- The integer that an option has been given. -/
def integer? (w : Words) (long : String) : Option Int :=
  (w.value? long).bind fun text => Text.integer? text.toList

end Words

namespace Rules

def findLong (r : Rules) (long : String) : Option OptionRule :=
  r.options.find? (·.long == long)

def findShort (r : Rules) (short : Char) : Option OptionRule :=
  r.options.find? (·.short == some short)

end Rules

/-- Whether a word behind its dash looks like a number: digits, with at most one point and then at
most one exponent, neither of which comes first. -/
def looksNumeric (cs : List Char) : Bool :=
  let (mantissa, rest) := cs.span (· != 'e')
  let isMantissa := (mantissa.filter (· != '.')).all Char.isDigit && mantissa.count '.' ≤ 1
    && mantissa.head? != some '.'
  let isExponent :=
    match rest with
    | [] => true
    | _ :: digits => !mantissa.isEmpty && !digits.isEmpty && digits.all Char.isDigit
  isMantissa && isExponent

/-- What a word is by its looks. -/
inductive WordShape where
  | plain
  /-- Two dashes and nothing else. -/
  | separator
  /-- A long option, perhaps with its value. -/
  | long (name : String) (value : Option String)
  /-- A dash, and what is behind it. -/
  | short (cs : List Char)

def WordShape.ofWord (word : String) : WordShape :=
  match word.toList with
  | ['-', '-'] => .separator
  | '-' :: '-' :: cs =>
    match cs.span (· != '=') with
    | (name, []) => .long (String.ofList name) none
    | (name, _ :: value) => .long (String.ofList name) (some (String.ofList value))
  | '-' :: c :: cs => .short (c :: cs)
  | _ => .plain

/-- Notes an option, which may come only once and whose value has to be of its kind. -/
def Words.note (w : Words) (rule : OptionRule) (value : String) : Except Interruption Words :=
  let isFit :=
    match rule.role with
    | .value kind _ => kind.accepts value
    | _ => true
  if !isFit then .error (.fault (.badValue rule.long value))
  else if w.has rule.long then .error (.fault (.repeatedOption rule.long))
  else .ok { w with options := (rule.long, value) :: w.options }

/-- Reads an option that may have its value in the same word. Returns the option too if its value is
still to come. -/
def Words.option (w : Words) (rule : OptionRule) (value : Option String) :
    Except Interruption (Words × Option OptionRule) :=
  match rule.role, value with
  | .value _ _, none => .ok (w, some rule)
  | .value _ _, some value => do return (← w.note rule value, none)
  | _, some _ => .error (.fault (.unwantedValue rule.long))
  | .switch, none => do return (← w.note rule "", none)
  | .help, none => .error .help
  | .version, none => .error .version

/-- Reads short options that stand in one word. -/
def Words.shortOptions (r : Rules) (w : Words) :
    List Char → Except Interruption (Words × Option OptionRule)
  | [] => .ok (w, none)
  | c :: rest =>
    match r.findShort c with
    | none => .error (.fault (.unknownOption ("-" ++ String.singleton c)))
    | some rule =>
      match rule.role with
      | .value _ _ =>
        let value := if rest.head? = some '=' then rest.tail else rest
        w.option rule (if rest.isEmpty then none else some (String.ofList value))
      | _ => do
        let (w, _) ← w.option rule none
        w.shortOptions r rest

/-- Reads a word that is an argument. -/
def Words.argument (r : Rules) (w : Words) (word : String) : Except Interruption Words :=
  if w.arguments.length < r.arguments.length then
    .ok { w with arguments := w.arguments ++ [word] }
  else .error (.fault (.unwantedArgument word))

/-- Whether a word can be the value of an option in the word before it. -/
def isValueOf (rule : OptionRule) (shape : WordShape) : Bool :=
  match shape, rule.role with
  | .plain, _ => true
  | .short cs, .value _ allowsNegative => allowsNegative && looksNumeric cs
  | _, _ => false

/-- Reads words, where `pending` is an option that waits for its value. -/
def Words.read (r : Rules) (w : Words) (pending : Option OptionRule) :
    List String → Except Interruption Words
  | [] =>
    match pending with
    | some rule => .error (.fault (.missingValue rule.long))
    | none => .ok w
  | word :: rest =>
    let shape := WordShape.ofWord word
    match pending with
    | some rule =>
      if isValueOf rule shape then do (← w.note rule word).read r none rest
      else .error (.fault (.missingValue rule.long))
    | none =>
      match shape with
      | .plain =>
        if r.hasCommands then .ok { w with command := some (word, rest) }
        else do (← w.argument r word).read r none rest
      | .separator => rest.foldlM (Words.argument r) w
      | .long name value =>
        match r.findLong name with
        | none => .error (.fault (.unknownOption word))
        | some rule => do
          let (w, pending) ← w.option rule value
          w.read r pending rest
      | .short cs => do
        let (w, pending) ← w.shortOptions r cs
        w.read r pending rest

/-- Checks that everything is there that has to be. -/
def Words.check (r : Rules) (w : Words) : Except Interruption Words :=
  match r.options.find? fun rule => rule.isRequired && !w.has rule.long with
  | some rule => .error (.fault (.missingOption rule.long))
  | none =>
    match r.arguments.drop w.arguments.length with
    | name :: _ => .error (.fault (.missingArgument name))
    | [] =>
      if r.hasCommands && w.command.isNone then .error (.fault .missingCommand) else .ok w

/-- Reads the words of a command line. -/
def Rules.read (r : Rules) (words : List String) : Except Interruption Words := do
  (← Words.read r {} none words).check r

end TickScheduler.CommandLine
