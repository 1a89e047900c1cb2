set_option autoImplicit false

/-! # Files

The commands see files as a finite tree of texts below the working directory. A directory is there
if a file lies in it. A path is followed part by part from the working directory, so that `./a//b`,
`a/c/../b` and `a/b` are the same file, provided that `a/c` is a directory. -/

namespace SpriteStage

/-- The texts of files by their paths. -/
structure FileTree where
  files : List (String × String)

/-- The outcome of a command: its exit code and what it writes. -/
structure Output where
  code : Nat
  stdout : String
  stderr : String

/-- Nothing went wrong and nothing is written. -/
def Output.silent : Output := ⟨0, "", ""⟩

/-- The names in a path, without those that lead nowhere. -/
def pathParts (path : String) : List String :=
  (path.splitOn "/").filter fun part => part != "" && part != "."

namespace FileTree

/-- Whether there is a directory at a place, which is given by the names that lead to it. The
    working directory is always one. -/
def hasDirectory (tree : FileTree) (place : List String) : Bool :=
  place.isEmpty || tree.files.any fun (name, _) =>
    let parts := pathParts name
    place.isPrefixOf parts && place.length < parts.length

/-- Follow the parts of a path. The names that led here are given last name first. A part can only
    be followed in a directory, and no path leads out of the working directory. -/
def follow? (tree : FileTree) : List String → List String → Option (List String)
  | here, [] => some here.reverse
  | here, part :: rest =>
    if !tree.hasDirectory here.reverse then none
    else if part = "" ∨ part = "." then tree.follow? here rest
    else if part = ".." then
      match here with
      | [] => none
      | _ :: outer => tree.follow? outer rest
    else tree.follow? (part :: here) rest

/-- The place that a path leads to; there need not be anything. An empty path leads nowhere, nor
    does one that begins at the root of the file system. -/
def place? (tree : FileTree) (path : String) : Option (List String) :=
  if path = "" ∨ path.startsWith "/" then none else tree.follow? [] (path.splitOn "/")

/-- The text of a file, by its name in the tree or by a path that leads to it. -/
def read? (tree : FileTree) (path : String) : Option String :=
  match tree.files.lookup path with
  | some text => some text
  | none => do
    let place ← tree.place? path
    (tree.files.find? fun (name, _) => pathParts name == place).map (·.2)

/-- Whether a path names a file. -/
def isFile (tree : FileTree) (path : String) : Bool := (tree.read? path).isSome

/-- Whether a path names a directory. -/
def isDirectory (tree : FileTree) (path : String) : Bool := (tree.place? path).any tree.hasDirectory

/-- Whether a path names a file or a directory. -/
def contains (tree : FileTree) (path : String) : Bool := tree.isFile path || tree.isDirectory path

/-- The path of something in a directory. -/
def joinPath (directory : String) (parts : List String) : String :=
  let inner := "/".intercalate parts
  if directory.endsWith "/" then directory ++ inner else directory ++ "/" ++ inner

/-- Whether a path comes no later than another one: the first parts that differ decide, and a path
    comes before all that begin with it. -/
def inPathOrder : List String → List String → Bool
  | [], _ => true
  | _ :: _, [] => false
  | part :: rest, other :: others =>
    if part = other then inPathOrder rest others else decide (part < other)

/-- The files in a directory and below it, ordered by the parts of their paths. -/
def filesBelow (tree : FileTree) (directory : String) : List (String × String) :=
  match tree.place? directory with
  | none => []
  | some place =>
    let below := tree.files.filterMap fun (name, text) =>
      let parts := pathParts name
      if place.isPrefixOf parts && place.length < parts.length then
        some (parts.drop place.length, text)
      else none
    let ordered := below.mergeSort fun a b => inPathOrder a.1 b.1
    ordered.map fun (rest, text) => (joinPath directory rest, text)

end FileTree

end SpriteStage
