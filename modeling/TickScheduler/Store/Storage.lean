import TickScheduler.Files.Path
import TickScheduler.Text.Radix
/-!
Where a store is kept. It is named by an address: the path of a file or, if it begins with `file:`, a
URI, in which characters may be written as percent signs with two hexadecimal digits, and whose query
says how the file may be used.
-/
namespace TickScheduler

/-- How the file of a store may be used. -/
inductive Access where
  | readOnly
  /-- The file has to be there. -/
  | update
  /-- The file is made if it is not there. -/
  | create
deriving DecidableEq, Repr

inductive Storage where
  | file (path : Path) (access : Access)
  /-- Nowhere beyond the end of the program. -/
  | memory
deriving DecidableEq, Repr

/-- Why an address names no place. -/
inductive AddressFault where
  /-- It holds the character with the number zero, behind so many bytes. -/
  | zeroCharacter (position : Nat)
  /-- The URI names another machine. -/
  | authority (name : String)
  /-- The query asks for a mode that there is not, of this kind. -/
  | unknownMode (kind value : String)
  /-- The query asks for more than it has allowed before. -/
  | forbiddenMode (value : String)
  /-- The query asks for a file system that there is not. -/
  | unknownSystem (name : String)
deriving DecidableEq, Repr

def AddressFault.message : AddressFault → String
  | .zeroCharacter position => s!"nul byte found in provided data at position: {position}"
  | .authority name => "invalid uri authority: " ++ name
  | .unknownMode kind value => s!"no such {kind} mode: {value}"
  | .forbiddenMode value => "access mode not allowed: " ++ value
  | .unknownSystem name => "no such vfs: " ++ name

namespace Storage

def isReadOnly : Storage → Bool
  | .file _ access => access == .readOnly
  | .memory => false

/-! ### The parts of a URI -/

/-- The bytes that a part of a URI stands for. A zero among them ends the part. -/
def decodedBytes : List Char → List UInt8
  | '%' :: a :: b :: rest =>
    match Radix.value? 16 [a, b] with
    | some 0 => []
    | some n => n.toUInt8 :: decodedBytes rest
    | none => ('%'.toUInt8) :: decodedBytes (a :: b :: rest)
  | c :: rest => (String.singleton c).toUTF8.toList ++ decodedBytes rest
  | [] => []

/-- The text that a part of a URI stands for; a part that is no text stays as it is written. -/
def decoded (part : List Char) : String :=
  (String.fromUTF8? ⟨(decodedBytes part).toArray⟩).getD (String.ofList part)

/-- The two sides of the first separator, of which the second is empty if there is none. -/
def cut (separator : Char) (cs : List Char) : List Char × List Char :=
  (cs.takeWhile (· != separator), (cs.dropWhile (· != separator)).drop 1)

/-- The options in a query. Those without a name do not count. -/
def options (query : List Char) : List (String × String) :=
  let options := (Text.split '&' query).map fun option =>
    let (name, value) := cut '=' option
    (decoded name, decoded value)
  options.filter fun (name, _) => !name.isEmpty

/-! ### Options -/

/-- What the options of a query have settled so far. -/
structure Choice where
  /-- None if the store is to be kept in memory. -/
  access : Option Access := some .create
  isVolatile : Bool := false

/-- Whether an access goes no further than another one. Any access may follow memory. -/
def isWithin (access : Access) : Option Access → Bool
  | none | some .create => true
  | some .update => access != .create
  | some .readOnly => access == .readOnly

/-- Chooses how a file may be used. -/
def Choice.allow (choice : Choice) (access : Access) (value : String) :
    Except AddressFault Choice :=
  if isWithin access choice.access then .ok { choice with access := some access }
  else .error (.forbiddenMode value)

/-- The file systems that there are, and whether what is kept there lasts. -/
def systems : List (String × Bool) :=
  [("unix", true), ("unix-excl", true), ("unix-dotfile", true), ("unix-none", true),
    ("memdb", false)]

/-- Follows one option. Options of other names do not matter. -/
def Choice.follow (choice : Choice) : String × String → Except AddressFault Choice
  | ("mode", value) =>
    match value with
    | "ro" => choice.allow .readOnly value
    | "rw" => choice.allow .update value
    | "rwc" => choice.allow .create value
    | "memory" => .ok { choice with access := none }
    | _ => .error (.unknownMode "access" value)
  | ("cache", value) =>
    if value = "shared" ∨ value = "private" then .ok choice
    else .error (.unknownMode "cache" value)
  | ("vfs", value) =>
    match systems.lookup value with
    | some isLasting => .ok { choice with isVolatile := !isLasting }
    | none => .error (.unknownSystem value)
  | _ => .ok choice

/-! ### Addresses -/

/-- Whether a name in the place of a path means memory. -/
def meansMemory (name : String) : Bool :=
  name == "" || name == ":memory:"

/-- The place of a path that is used in some way. -/
def ofName (name : String) (access : Access) : Storage :=
  if meansMemory name then .memory else .file (Path.ofText name).resolved access

/-- What is behind the name of the machine, which may only be this one. -/
def withoutAuthority : List Char → Except AddressFault (List Char)
  | '/' :: '/' :: rest =>
    let name := String.ofList (rest.takeWhile (· != '/'))
    if name = "" ∨ name = "localhost" then .ok (rest.dropWhile (· != '/'))
    else .error (.authority name)
  | rest => .ok rest

/-- The place of a URI, given what is behind `file:`. What follows a number sign does not matter. -/
def ofUri (uri : List Char) : Except AddressFault Storage := do
  let uri ← withoutAuthority uri
  let (name, query) := cut '?' (cut '#' uri).1
  let choice ← (options query).foldlM Choice.follow {}
  match choice.access with
  | some access => return if choice.isVolatile then .memory else ofName (decoded name) access
  | none => return .memory

/-- What a URI begins with. -/
def uriPrefix : List Char := "file:".toList

/-- The place that an address names. -/
def ofAddress (address : String) : Except AddressFault Storage :=
  let cs := address.toList
  if cs.contains '\x00' then
    .error (.zeroCharacter (String.ofList (cs.takeWhile (· != '\x00'))).utf8ByteSize)
  else if uriPrefix.isPrefixOf cs then ofUri (cs.drop uriPrefix.length)
  else .ok (ofName address .create)

end Storage

end TickScheduler
