import SchemaCodec.Files.System

/-!
# Files in memory

A tree holds its files by the components of their paths. A directory is there exactly when it holds
a file, directly or not, or when it is the working directory or holds that.
-/

namespace SchemaCodec

/-- Files at absolute paths, each path as its components from the root. -/
structure FileTree where
  workingDirectory : List String
  files : List (List String × Bytes)

namespace FileTree

/-- The text of an absolute path. -/
def pathText (components : List String) : String := "/" ++ "/".intercalate components

/-- The components of a path; an empty one says to stay. -/
def splitPath (path : String) : List String :=
  (path.toList.splitOnP (· = '/')).map fun component =>
    if component.isEmpty then "." else String.ofList component

/-- The content of the file at a path. -/
def file? (tree : FileTree) (path : List String) : Option Bytes :=
  (tree.files.find? (·.1 = path)).map (·.2)

/-- Whether there is a directory at a path. -/
def hasDirectory (tree : FileTree) (path : List String) : Bool :=
  path.isPrefixOf tree.workingDirectory ||
    tree.files.any fun (file, _) => path.isPrefixOf file && path ≠ file

/-- The most bytes in a name that a directory takes. -/
def longestName : Nat := 255

/-- The most bytes in a path to read from. -/
def longestPath : Nat := 4095

/-- Walk from a place along some components. Each step starts from a directory, which looks for no
name that is too long. -/
def walk (tree : FileTree) : List String → List String → Except FileError (List String)
  | place, [] => .ok place
  | place, component :: rest =>
    if !tree.hasDirectory place then .error .notDirectory
    else if component = "." then tree.walk place rest
    else if component = ".." then tree.walk place.dropLast rest
    else if longestName < component.utf8ByteSize then .error .nameTooLong
    else
      let target := place ++ [component]
      if tree.hasDirectory target || (tree.file? target).isSome then tree.walk target rest
      else .error .notFound

/-- The components of the canonical path that stands for a path. -/
def locate (tree : FileTree) (path : String) : Except FileError (List String) :=
  if path.isEmpty then .error .notFound
  else if path.toList.contains '\x00' then .error .zeroInPath
  else
    let start := if path.toList.head? = some '/' then [] else tree.workingDirectory
    tree.walk start (splitPath path)

/-- The bytes of the file that a path stands for. A path that is too long is not walked at all. -/
def read (tree : FileTree) (path : String) : Except FileError Bytes :=
  if path.toList.contains '\x00' then .error .zeroInPath
  else if longestPath < path.utf8ByteSize then .error .nameTooLong
  else
    match tree.locate path with
    | .error cause => .error cause
    | .ok place =>
      match tree.file? place with
      | some bytes => .ok bytes
      | none => .error .isDirectory

/-- As many documents as loading from a tree can try: each file once, and then one path that is no
file. -/
def loadLimit (tree : FileTree) : Nat := tree.files.length + 1

/-- A tree as a file system, without any effect. Its files have texts for names, so a path that is
no text leads to none of them. -/
def fileSystem (tree : FileTree) : FileSystem Id where
  canonical path :=
    match path.text? with
    | none => .error .notFound
    | some text => (tree.locate text).map fun place => .ofText (pathText place)
  read path :=
    match path.text? with
    | none => .error .notFound
    | some text => tree.read text

end FileTree

end SchemaCodec
