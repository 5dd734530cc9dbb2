/-!
# Paths and files

A path is a text; its components are separated by slashes. Empty components and single dots stand
for the directory that contains them. The tool works on files through three operations. A file tree
gives them a meaning without a real file system: it holds the directories and files below a directory
in which the tool runs.
-/

namespace ShaderGraph.Tool

namespace Path

def components (path : String) : List String :=
  (path.splitOn "/").filter fun c ↦ c ≠ "" && c ≠ "."

def isAbsolute (path : String) : Bool :=
  path.toList.head? = some '/'

/-- Whether a path can only lead to a directory because of what follows the last name. -/
def namesDirectory (path : String) : Bool :=
  ((path.splitOn "/").getLast?).any fun c ↦ c = "" || c = "."

/-- Whether the last component is a single dot, which enters the directory before it. -/
def endsInDot (path : String) : Bool :=
  (path.splitOn "/").getLast? = some "."

/-- Name of the file that a path leads to. -/
def fileName? (path : String) : Option String :=
  (components path).getLast?.filter (· ≠ "..")

/-- A file name without its extension. A dot in front of the name starts no extension. -/
def stem (name : String) : String :=
  let extension := name.toList.reverse.takeWhile (· ≠ '.')
  let before := name.toList.take (name.length - extension.length - 1)
  if before.isEmpty then name else String.ofList before

/-- The path of a file in a directory. -/
def join (directory name : String) : String :=
  if directory = "" || isAbsolute name then name
  else if directory.toList.getLast? = some '/' then directory ++ name
  else directory ++ "/" ++ name

end Path

inductive FileError
  | notFound
  | alreadyExists
  | notDirectory
  | isDirectory
  | invalidText
  /-- Any other error, with the message of the system. -/
  | other (message : String)
deriving DecidableEq, Repr

def FileError.message : FileError → String
  | notFound => "No such file or directory (os error 2)"
  | alreadyExists => "File exists (os error 17)"
  | notDirectory => "Not a directory (os error 20)"
  | isDirectory => "Is a directory (os error 21)"
  | invalidText => "stream did not contain valid UTF-8"
  | other message => message

class FileSystem (m : Type → Type) where
  readText : String → m (Except FileError String)
  /-- Creates a directory and those that lead to it, as far as they do not exist. -/
  createDirectories : String → m (Except FileError Unit)
  /-- Creates a file or replaces its contents. -/
  writeBytes : String → List UInt8 → m (Except FileError Unit)

inductive Entry
  | directory
  | file (contents : List UInt8)
deriving DecidableEq, Repr

/-- Place of an entry: the names on the way to it. A place outside of the tree starts with a
slash or with two dots. -/
abbrev Place := List String

/-- Entries by place, the latest first. -/
structure FileTree where
  entries : List (Place × Entry) := []
deriving Repr

namespace FileTree

/-- The directory in which the tool runs, and those above it, exist without an entry. -/
def isGiven (place : Place) : Bool :=
  place.all fun name ↦ name = ".." || name = "/"

def entry? (t : FileTree) (place : Place) : Option Entry :=
  if isGiven place then some .directory else t.entries.lookup place

def insert (t : FileTree) (place : Place) (e : Entry) : FileTree :=
  ⟨(place, e) :: t.entries.filter fun p ↦ p.1 ≠ place⟩

/-- The place above, if a path leads up. -/
def above (place : Place) : Place :=
  if isGiven place then place ++ [".."] else place.dropLast

/-- The place of a component in a directory. -/
def enter (place : Place) (name : String) : Place :=
  if name = "." then place else if name = ".." then above place else place ++ [name]

/-- Follows the components of a path, all of which but the last must be directories. -/
def follow (t : FileTree) (place : Place) : List String → Except FileError Place
  | [] => .ok place
  | name :: names =>
    match t.entry? place with
    | some .directory => t.follow (enter place name) names
    | some (.file _) => .error .notDirectory
    | none => .error .notFound

/-- The place from which the components of a path are followed. -/
def start (path : String) : Place :=
  if Path.isAbsolute path then ["/"] else []

/-- The place that a path leads to. -/
def resolve (t : FileTree) (path : String) : Except FileError Place :=
  if path = "" then .error .notFound else t.follow (start path) (Path.components path)

def read (t : FileTree) (path : String) : Except FileError String := do
  match t.entry? (← t.resolve path) with
  | some (.file contents) =>
    if Path.namesDirectory path then .error .notDirectory
    else
      match String.fromUTF8? ⟨contents.toArray⟩ with
      | some s => .ok s
      | none => .error .invalidText
  | some .directory => .error .isDirectory
  | none => .error .notFound

/-- Creates the directory to which components lead, if it does not exist. -/
def createDirectory (t : FileTree) (place : Place) (names : List String) :
    Except FileError FileTree := do
  let created ← t.follow place names
  match t.entry? created with
  | some .directory => .ok t
  | some (.file _) => .error .alreadyExists
  | none => .ok (t.insert created .directory)

/-- Creates a directory and, if one on the way to it is missing, that one first. The components are
listed from the last to the first. -/
def createBackwards (t : FileTree) (place : Place) : List String → Except FileError FileTree
  | [] => .ok t
  | name :: names =>
    match t.createDirectory place (names.reverse ++ [name]) with
    | .error .notFound => do
      let t ← t.createBackwards place names
      t.createDirectory place (names.reverse ++ [name])
    | result => result

/-- Creates the directory of a path and those that lead to it. A dot at the end of the path is a way
into the last directory, which therefore has to exist. -/
def createAll (t : FileTree) (path : String) : Except FileError FileTree :=
  let names := Path.components path
  let whole := if Path.endsInDot path then names ++ ["."] else names
  match t.createDirectory (start path) whole with
  | .error .notFound => do
    let t ← t.createBackwards (start path) names.reverse.tail
    t.createDirectory (start path) whole
  | result => result

def write (t : FileTree) (path : String) (contents : List UInt8) : Except FileError FileTree := do
  let place ← t.resolve path
  match t.entry? place with
  | some .directory => .error .isDirectory
  | _ => .ok (t.insert place (.file contents))

end FileTree

/-- Runs a change of the tree, which keeps the tree if it fails. -/
def changeTree (change : FileTree → Except FileError FileTree) :
    StateM FileTree (Except FileError Unit) := do
  match change (← get) with
  | .ok t =>
    set t
    return .ok ()
  | .error e => return .error e

instance : FileSystem (StateM FileTree) where
  readText path := return (← get).read path
  createDirectories path := changeTree fun t ↦ t.createAll path
  writeBytes path contents := changeTree fun t ↦ t.write path contents

end ShaderGraph.Tool
