import SchemaCodec.Document.Grammar
import SchemaCodec.Files.System

/-!
# Documents with all that they include

Loading starts from some paths and follows the includes of each document, seen from the directory of
that document. Every path is made canonical, so a document that is spelled in several ways is loaded
once, and documents are listed in the order in which they are first met. A document and its includes
are named by the texts of their canonical paths; what is loaded already is told by the paths
themselves.
-/

namespace SchemaCodec

/-- Why documents are not loaded: a path leads to no file, a file is not read or not parsed, or
there are too many of them. An include at fault is told with the document and the place where it
stands. -/
inductive LoadError where
  | root (path : String) (cause : FileError)
  | reading (path : String) (cause : FileError)
  | including (path : String) (span : Span) (target : String) (cause : FileError)
  | parsing (error : ParseError)
  /-- More documents than the bound on their number. -/
  | tooMany (bound : Nat)

/-- The text of an error, without its cause. -/
def LoadError.message : LoadError → String
  | root path _ => path
  | reading path _ => "reading " ++ path
  | including path span target _ => path ++ ":" ++ span.display ++ ": include " ++ target
  | parsing error => error.display
  | tooMany bound => "more than " ++ toString bound ++ " files"

/-- The cause of an error, where it has one of its own. -/
def LoadError.cause? : LoadError → Option FileError
  | root _ cause | reading _ cause | including _ _ _ cause => some cause
  | parsing _ | tooMany _ => none

namespace FileSystem

variable {m : Type → Type} [Monad m]

/-- The canonical paths of some paths, in order. The first path without one ends it, and what its
failure means is told by the caller. A path that is spelled in two ways is listed twice. -/
def canonicalAll (files : FileSystem m) (failure : String → FileError → LoadError) :
    List FilePath → m (Except LoadError (List FilePath))
  | [] => pure (.ok [])
  | path :: rest => do
    match ← files.canonical path with
    | .error cause => pure (.error (failure path.text cause))
    | .ok target =>
      match ← files.canonicalAll failure rest with
      | .error error => pure (.error error)
      | .ok targets => pure (.ok (target :: targets))

/-- The includes of a document, each named by the text of its canonical path and with that path, in
order. -/
def canonicalIncludes (files : FileSystem m) (path : FilePath) :
    List Include → m (Except LoadError (List (Include × FilePath)))
  | [] => pure (.ok [])
  | found :: rest => do
    let target := joinPath (directoryOf path) (.ofText found.path)
    match ← files.canonical target with
    | .error cause => pure (.error (.including path.text found.span target.text cause))
    | .ok target =>
      match ← files.canonicalIncludes path rest with
      | .error error => pure (.error error)
      | .ok includes => pure (.ok (({ found with path := target.text }, target) :: includes))

/-- The document at a canonical path, and the canonical paths that it includes. -/
def document (files : FileSystem m) (path : FilePath) :
    m (Except LoadError (Document × List FilePath)) := do
  match ← files.read path with
  | .error cause => pure (.error (.reading path.text cause))
  | .ok bytes =>
    match Utf8.decode? bytes with
    | none => pure (.error (.reading path.text .notText))
    | some text =>
      match Document.parse path.text text with
      | .error error => pure (.error (.parsing error))
      | .ok parsed =>
        match ← files.canonicalIncludes path parsed.includes with
        | .error error => pure (.error error)
        | .ok includes =>
          pure (.ok ({ parsed with includes := includes.map (·.1) }, includes.map (·.2)))

/-- Load the documents of a queue of canonical paths that are not loaded yet, at most that many. -/
def loadWithin (files : FileSystem m) (limit : Nat) :
    Nat → List FilePath → List FilePath → m (Except LoadError (List Document))
  | bound, queue, loaded =>
    match queue.dropWhile (· ∈ loaded), bound with
    | [], _ => pure (.ok [])
    | _ :: _, 0 => pure (.error (.tooMany limit))
    | path :: rest, bound + 1 => do
      match ← files.document path with
      | .error error => pure (.error error)
      | .ok (document, targets) =>
        match ← files.loadWithin limit bound (rest ++ targets) (path :: loaded) with
        | .error error => pure (.error error)
        | .ok documents => pure (.ok (document :: documents))

/-- The documents at some paths and all that they include, at most that many. -/
def load (files : FileSystem m) (limit : Nat) (roots : List FilePath) :
    m (Except LoadError (List Document)) := do
  match ← files.canonicalAll .root roots with
  | .error error => pure (.error error)
  | .ok queue => files.loadWithin limit limit queue []

end FileSystem

end SchemaCodec
