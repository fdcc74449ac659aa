import SchemaCodec.Files.Loading
import SchemaCodec.Schema.Constants
import SchemaCodec.Schema.Listing
import SchemaCodec.Wire.Decoding

/-!
# The command line

The program loads documents with all that they include, links them, and lists the schema. On request
it decodes a file as one of the types. What it prints is computed from its arguments and the files
alone.
-/

namespace SchemaCodec.CommandLine

/-- What the arguments ask for: to link the documents at the roots and, if a type is given, to
decode a file as it. -/
structure Request where
  /-- Whether nothing but errors and the decoded value is printed. -/
  quiet : Bool
  /-- A type and the file to decode as it. -/
  decode : Option (String × String)
  roots : List String
deriving DecidableEq, Repr

/-- Why the program fails. -/
inductive Failure where
  | usage
  | decodeArguments
  | load (error : LoadError)
  | link (error : LinkError)
  | lookup (error : LookupError)
  | reading (path : String) (cause : FileError)
  | decode (error : DecodeError)

/-- The text of a failure, without its cause. -/
def Failure.message : Failure → String
  | usage => "usage: idlwire-check [--quiet] [--decode TYPE FILE] FILE.thrift ..."
  | decodeArguments => "--decode needs TYPE and FILE"
  | load error => error.message
  | link error => error.message
  | lookup error => error.message
  | reading path _ => "reading " ++ path
  | decode error => error.message

/-- The cause of a failure, where it has one of its own. -/
def Failure.cause? : Failure → Option FileError
  | load error => error.cause?
  | reading _ cause => some cause
  | _ => none

/-- A failure as it is reported, its cause indented below it. -/
def Failure.report (failure : Failure) : String :=
  match failure.cause? with
  | none => "Error: " ++ failure.message ++ "\n"
  | some cause => "Error: " ++ failure.message ++ "\n\nCaused by:\n    " ++ cause.message ++ "\n"

/-- The arguments without the first one that asks for quiet, and whether there was one. -/
def takeQuiet : List String → Bool × List String
  | [] => (false, [])
  | argument :: rest =>
    if argument = "--quiet" ∨ argument = "-q" then (true, rest)
    else
      let (quiet, others) := takeQuiet rest
      (quiet, argument :: others)

/-- The arguments without the first request to decode, and the type and file of that request. -/
def takeDecode : List String → Except Failure (Option (String × String) × List String)
  | [] => .ok (none, [])
  | "--decode" :: type :: file :: rest => .ok (some (type, file), rest)
  | "--decode" :: _ => .error .decodeArguments
  | argument :: rest => do
    let (decode, others) ← takeDecode rest
    .ok (decode, argument :: others)

/-- What some arguments ask for. -/
def Request.ofArguments (arguments : List String) : Except Failure Request := do
  let (quiet, arguments) := takeQuiet arguments
  let (decode, roots) ← takeDecode arguments
  if roots.isEmpty then .error .usage
  else .ok { quiet, decode, roots }

/-- What the program leaves behind. -/
structure Outcome where
  exitCode : UInt8
  output : String
  errors : String
deriving DecidableEq, Repr

/-- Lines, each of them ended. -/
def unlines (lines : List String) : String := String.join (lines.map (· ++ "\n"))

/-- An outcome that a failure ends after some output. -/
def Outcome.failed (output errors : String) (failure : Failure) : Outcome :=
  ⟨1, output, errors ++ failure.report⟩

variable {m : Type → Type} [Monad m]

/-- Decode a file as a type and print the value behind what is printed already. -/
def decodeFile (files : FileSystem m) (schema : Schema) (output errors typeName path : String) :
    m Outcome := do
  match schema.resolve typeName with
  | .error error => pure (.failed output errors (.lookup error))
  | .ok type =>
    match ← files.read (.ofText path) with
    | .error cause => pure (.failed output errors (.reading path cause))
    | .ok bytes =>
      match schema.decode {} type bytes with
      | .error error => pure (.failed output errors (.decode error))
      | .ok value => pure ⟨0, output ++ schema.dump value type 0 ++ "\n", errors⟩

/-- Carry out a request; no more documents than the limit are loaded. -/
def Request.run (files : FileSystem m) (limit : Nat) (request : Request) : m Outcome := do
  match ← files.load limit (request.roots.map .ofText) with
  | .error error => pure (.failed "" "" (.load error))
  | .ok documents =>
    match link documents with
    | .error error => pure (.failed "" "" (.link error))
    | .ok schema =>
      let output := if request.quiet then "" else unlines schema.listing
      let errors := if request.quiet then "" else schema.tally documents.length ++ "\n"
      match request.decode with
      | none => pure ⟨0, output, errors⟩
      | some (type, path) => decodeFile files schema output errors type path

/-- Run the program on some arguments. -/
def run (files : FileSystem m) (limit : Nat) (arguments : List String) : m Outcome :=
  match Request.ofArguments arguments with
  | .error failure => pure (.failed "" "" failure)
  | .ok request => request.run files limit

end SchemaCodec.CommandLine
