import SchemaCodec.CommandLine

/-!
# The program

The file system is that of the machine; all else is `CommandLine.run`.
-/

namespace SchemaCodec.Program

/-- The reason of a failed access to a file. -/
def fileError : IO.Error → FileError
  | .noFileOrDirectory .. | .noSuchThing .. => .notFound
  | .inappropriateType _ 20 _ => .notDirectory
  | .inappropriateType .. => .isDirectory
  | .invalidArgument _ 36 _ => .nameTooLong
  | failure => .other (toString failure)

/-- Run an access to a file and keep its failure. -/
def attempt (access : IO α) : IO (Except FileError α) := do
  try
    let result ← access
    return .ok result
  catch failure =>
    return .error (fileError failure)

/-- The file system of the machine, as far as its paths are texts. -/
def fileSystem : FileSystem IO where
  canonical path := attempt do
    let target ← IO.FS.realPath path.text
    return .ofText target.toString
  read path := attempt do
    let bytes ← IO.FS.readBinFile path.text
    return bytes.toList

/-- More documents than any set of includes has. -/
def documentLimit : Nat := 0x100000000

end SchemaCodec.Program

open SchemaCodec in
/-- Print what the arguments ask for. -/
def main (arguments : List String) : IO UInt32 := do
  let outcome ← CommandLine.run Program.fileSystem Program.documentLimit arguments
  IO.print outcome.output
  IO.eprint outcome.errors
  return outcome.exitCode.toUInt32
