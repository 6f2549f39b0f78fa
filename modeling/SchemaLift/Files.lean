import SchemaLift.Members
import SchemaLift.Text.Cut

/-!
# Files

What a program sees of a file system: what is at a path, and whether a text can be written there. A
`Directory` is a small file system of its own: the files that a program finds around it, in a
directory that lies in others of which nothing more is known.
-/

namespace SchemaLift

/-- What is at a path. -/
inductive FileState where
  | missing
  | directory
  /-- The bytes of the file are not a text. -/
  | binary
  | text (content : String)
deriving DecidableEq, Repr

/-- Reading and writing files. Writing tells whether it succeeded. -/
structure FileSystem (m : Type → Type) where
  read : String → m FileState
  write : String → String → m Bool

namespace Directory

/-- Where the names of a path start to count. -/
inductive Base where
  /-- So many directories above the one of the program, in which it is zero. -/
  | above (levels : Nat)
  | root
deriving DecidableEq, Repr

/-- A place in a file system: names of directories from a base on, with that of a file last. -/
structure Place where
  base : Base
  names : List String
deriving DecidableEq, Repr

namespace Place

/-- The directory around a place; none is around the root. -/
def parent (place : Place) : Place :=
  match place.names, place.base with
  | [], .above levels => ⟨.above (levels + 1), []⟩
  | [], .root => place
  | names, base => ⟨base, names.dropLast⟩

/-- A place inside a directory. -/
def child (place : Place) (name : String) : Place :=
  { place with names := place.names ++ [name] }

/-- Whether a place is another one or lies inside it, as far as the names tell. -/
def isWithin (place other : Place) : Bool :=
  place.base == other.base && other.names.isPrefixOf place.names

end Place

end Directory

/-- The parts of a path between its slashes. -/
def pathParts (path : String) : List String :=
  (Text.splitAll '/' path.toList).map String.ofList

/-- The most bytes that a name may take. -/
def longestName : Nat := 255

/-- Files by their places. -/
structure Directory where
  files : List (Directory.Place × FileState)
deriving Repr

namespace Directory

/-- A directory of files by name. -/
def ofFiles (files : List (String × FileState)) : Directory :=
  ⟨files.map fun file =>
    (⟨.above 0, (pathParts file.1).filter fun part => part ≠ "" ∧ part ≠ "."⟩, file.2)⟩

/-- What is at a place. The directories from the root down to that of the program are there, but
nothing else is known of them. -/
def stateAt (directory : Directory) (place : Place) : FileState :=
  match directory.files.find? (·.1 = place) with
  | some file => file.2
  | none =>
    if place.names.isEmpty || directory.files.any fun file => file.1.isWithin place then .directory
    else .missing

/-- Follow the parts of a path from a place. Two points lead to the directory around; empty parts
and single points lead nowhere, but only from a directory. -/
def follow? (directory : Directory) (place : Place) : List String → Option Place
  | [] => some place
  | part :: rest =>
    if directory.stateAt place ≠ .directory || longestName < part.utf8ByteSize then none
    else if part = "" ∨ part = "." then directory.follow? place rest
    else if part = ".." then directory.follow? place.parent rest
    else directory.follow? (place.child part) rest

/-- The place that a path means; an empty one means none. -/
def locate? (directory : Directory) (path : String) : Option Place :=
  if path = "" then none
  else directory.follow? ⟨if path.startsWith "/" then .root else .above 0, []⟩ (pathParts path)

/-- What is at a path. -/
def read (directory : Directory) (path : String) : FileState :=
  match directory.locate? path with
  | some place => directory.stateAt place
  | none => .missing

/-- Write a text to a path, if that is not a directory and lies in one. -/
def write? (directory : Directory) (path content : String) : Option Directory := do
  let place ← directory.locate? path
  if directory.stateAt place = .directory then none
  pure ⟨(place, .text content) :: directory.files.filter (·.1 ≠ place)⟩

/-- The file system of a directory, which is the state. -/
def fileSystem : FileSystem (StateM Directory) where
  read path := do pure ((← get).read path)
  write path content := do
    match (← get).write? path content with
    | some directory =>
      set directory
      pure true
    | none => pure false

end Directory

end SchemaLift
