import SchemaCodec.Text.Utf8

/-!
# Files by path

A path is a string of bytes, which need not be a text. It is shown as a text all the same, so paths
that differ may be shown alike, though not where both are texts.

A file system maps every spelling of a path to one canonical path and gives the bytes of a file. It
is a value over any monad, so what is said about loading holds for files in memory and on disk
alike.
-/

namespace SchemaCodec

/-- Why a file is not found or not read. Each reason has the words that the system has for it;
reasons that are not told apart keep their own words. -/
inductive FileError where
  | notFound
  | notDirectory
  | isDirectory
  /-- A path, or a name in it, with more bytes than the system takes. -/
  | nameTooLong
  /-- A path with a zero character, which no file has. -/
  | zeroInPath
  | notText
  /-- Any other reason, in the words of the system. -/
  | other (reason : String)
deriving DecidableEq, Repr

/-- The text of an error. -/
def FileError.message : FileError → String
  | notFound => "No such file or directory (os error 2)"
  | notDirectory => "Not a directory (os error 20)"
  | isDirectory => "Is a directory (os error 21)"
  | nameTooLong => "File name too long (os error 36)"
  | zeroInPath => "file name contained an unexpected NUL byte"
  | notText => "stream did not contain valid UTF-8"
  | other reason => reason

/-- A path to a file or to a directory, as the system has it. -/
structure FilePath where
  bytes : Bytes
deriving DecidableEq, Repr

namespace FilePath

/-- The path that a text spells. -/
def ofText (text : String) : FilePath := ⟨Utf8.encode text⟩

/-- The text that spells a path, where there is one. -/
def text? (path : FilePath) : Option String := Utf8.decode? path.bytes

/-- The text by which a path is shown. -/
def text (path : FilePath) : String := Utf8.decodeLossy path.bytes

/-- The byte that separates the names in a path. -/
def separator : UInt8 := 0x2F

/-- A path that a text spells is shown by that text. -/
@[simp] theorem text_ofText (text : String) : (ofText text).text = text :=
  Utf8.decodeLossy_encode text

/-- A text spells the path that it makes, and no other one. -/
theorem text?_eq_some {path : FilePath} {text : String} :
    path.text? = some text ↔ path = ofText text := by
  unfold text? ofText
  rw [Utf8.decode?_eq_some_iff]
  cases path
  simp

/-- Paths that are spelled by texts are one when they are shown alike. -/
theorem eq_of_text_eq {path other : FilePath} (spelled : path.text?.isSome)
    (alsoSpelled : other.text?.isSome) (same : path.text = other.text) : path = other := by
  obtain ⟨text, isText⟩ := Option.isSome_iff_exists.mp spelled
  obtain ⟨others, isOthers⟩ := Option.isSome_iff_exists.mp alsoSpelled
  obtain rfl := text?_eq_some.mp isText
  obtain rfl := text?_eq_some.mp isOthers
  rw [text_ofText, text_ofText] at same
  rw [same]

end FilePath

/-- Access to files. -/
structure FileSystem (m : Type → Type) where
  /-- The one absolute path that stands for a path, of a file or of a directory. -/
  canonical : FilePath → m (Except FileError FilePath)
  read : FilePath → m (Except FileError Bytes)

/-- The directory that holds what a canonical path names. The root is held by none, and neither is a
single name: what is seen from there is seen from the working directory. -/
def directoryOf (path : FilePath) : FilePath :=
  match path.bytes.reverse.dropWhile (· ≠ FilePath.separator) with
  | [] => ⟨[]⟩
  | [_] => if path.bytes = [FilePath.separator] then ⟨[]⟩ else ⟨[FilePath.separator]⟩
  | _ :: front => ⟨front.reverse⟩

/-- A path seen from a directory. An absolute path stays as it is. -/
def joinPath (directory path : FilePath) : FilePath :=
  if path.bytes.head? = some FilePath.separator then path
  else if directory.bytes = [] ∨ directory.bytes.getLast? = some FilePath.separator then
    ⟨directory.bytes ++ path.bytes⟩
  else ⟨directory.bytes ++ FilePath.separator :: path.bytes⟩

end SchemaCodec
