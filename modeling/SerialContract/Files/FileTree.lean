import SerialContract.Files.Path
import SerialContract.NameMap

/-!
# File trees

A tree of files and directories as a map from the places of both to what is there, and the operations
on it that a program asks of an operating system. An operation that fails leaves what it did before.
-/

namespace SerialContract

/-- Why an operation on files failed. -/
inductive FileFault where
  | notFound
  | notDirectory
  | isDirectory
  | alreadyExists
  | nameTooLong
  | zeroCharacter
  | notText
  | other (message : String)
  deriving DecidableEq, Repr

/-- The explanation of a fault. -/
def FileFault.message : FileFault → String
  | notFound => "No such file or directory (os error 2)"
  | notDirectory => "Not a directory (os error 20)"
  | isDirectory => "Is a directory (os error 21)"
  | alreadyExists => "File exists (os error 17)"
  | nameTooLong => "File name too long (os error 36)"
  | zeroCharacter => "file name contained an unexpected NUL byte"
  | notText => "stream did not contain valid UTF-8"
  | other message => message

/-- A file or a directory. -/
inductive FileEntry where
  | file (contents : List UInt8)
  | directory
  deriving DecidableEq, Repr

/-- What is at each place, which is written as the names of the directories that lead to it and its own
name, with slashes between them. The first name of a place outside of the tree is that of the directory
above, or a slash. -/
structure FileTree where
  entries : NameMap FileEntry
  deriving DecidableEq

namespace FileTree

/-- The tree without files. -/
def empty : FileTree := ⟨.empty⟩

/-- A place as a text. -/
def placeName (place : List String) : String :=
  "/".intercalate place

/-- Whether a place is a directory that the tree is in, the tree itself being one. -/
def holdsTree (place : List String) : Bool :=
  place = [Path.root] || place.all (· = Path.up)

/-- Whether a place is a directory that nobody made. -/
def isGivenDirectory (place : List String) : Bool :=
  holdsTree place || place = [Path.root, "dev"]

/-- What is at a place although nobody put it there: the directories that the tree is in, and the null
device. -/
def given? (place : List String) : Option FileEntry :=
  if isGivenDirectory place then some .directory
  else if place = [Path.root, "dev", "null"] then some (.file [])
  else none

/-- What is at a place. -/
def entry? (tree : FileTree) (place : List String) : Option FileEntry :=
  (tree.entries.get? (placeName place)).or (given? place)

/-- The tree with something at a place. -/
def put (tree : FileTree) (place : List String) (entry : FileEntry) : FileTree :=
  ⟨tree.entries.insert (placeName place) entry⟩

/-- How many bytes a name has at most. -/
def longestName : Nat := 255

/-- How many bytes a path has at most. -/
def longestPath : Nat := 4095

/-- What is wrong with a path whatever the files. The empty path leads nowhere. -/
def pathFault? (path : String) : Option FileFault :=
  if path.isEmpty then some .notFound
  else if path.toList.contains '\x00' then some .zeroCharacter
  else if longestPath < (utf8 path.toList).length then some .nameTooLong
  else none

/-- The place of the directory above a place. -/
def above (place : List String) : List String :=
  if place = [Path.root] then place
  else if place.all (· = Path.up) then Path.up :: place
  else place.dropLast

/-- The place that steps lead to from a place. There must be directories on the way. -/
def walk (tree : FileTree) (place : List String) : List String → Except FileFault (List String)
  | [] => .ok place
  | step :: rest =>
    match tree.entry? place with
    | none => .error .notFound
    | some (.file _) => .error .notDirectory
    | some .directory =>
      if step = Path.up then walk tree (above place) rest
      else if longestName < (utf8 step.toList).length then .error .nameTooLong
      else walk tree (place ++ [step]) rest

/-- The place that a path leads to, whether or not anything is there. -/
def locate (tree : FileTree) (path : String) : Except FileFault (List String) :=
  match pathFault? path with
  | some fault => .error fault
  | none => tree.walk (Path.start path) (Path.steps path)

/-- The contents of a file. -/
def read (tree : FileTree) (path : String) : Except FileFault (List UInt8) := do
  match tree.entry? (← tree.locate path) with
  | none => .error .notFound
  | some .directory => .error .isDirectory
  | some (.file contents) =>
    if Path.asksDirectory path then .error .notDirectory else .ok contents

/-- Whether a name is that of a place below another one. -/
def isBelow (place : List String) (name : String) : Bool :=
  (placeName place ++ "/").toList.isPrefixOf name.toList

/-- Whether the name of a place is that of one outside of the tree. -/
def isOutside (name : String) : Bool :=
  isBelow [Path.up] name || isBelow [Path.root] name

/-- Whether anything is below a place. Directories that nobody made are never without anything, the tree
itself apart. -/
def hasBelow (tree : FileTree) (place : List String) : Bool :=
  if place.isEmpty then tree.entries.names.any (!isOutside ·)
  else isGivenDirectory place || tree.entries.names.any (isBelow place)

/-- Whether a path leads to a directory with anything in it. -/
def isOccupied (tree : FileTree) (path : String) : Except FileFault Bool :=
  match tree.locate path with
  | .error .notFound => .ok false
  | .error fault => .error fault
  | .ok place =>
    match tree.entry? place with
    | none => .ok false
    | some .directory => .ok (tree.hasBelow place)
    | some (.file _) => .error .notDirectory

/-- Makes the directory that steps lead to from a place. -/
def makeDirectory (tree : FileTree) (place steps : List String) : Except FileFault FileTree := do
  let target ← tree.walk place steps
  if (tree.entry? target).isSome then .error .alreadyExists else .ok (tree.put target .directory)

/-- Whether steps lead from a place to a directory. -/
def hasDirectory (tree : FileTree) (place steps : List String) : Bool :=
  match tree.walk place steps with
  | .ok target => tree.entry? target = some .directory
  | .error _ => false

/-- Makes the directory that steps lead to from a place, unless it is there. If it cannot be made
because nothing is on the way to it, that is made first. The steps are given from the last one on. -/
def makeDirectories (tree : FileTree) (place : List String) :
    List String → Except FileFault Unit × FileTree
  | [] => (.ok (), tree)
  | last :: before =>
    match tree.makeDirectory place (last :: before).reverse with
    | .ok made => (.ok (), made)
    | .error .notFound =>
      match tree.makeDirectories place before with
      | (.error fault, reached) => (.error fault, reached)
      | (.ok (), reached) =>
        match reached.makeDirectory place (last :: before).reverse with
        | .ok made => (.ok (), made)
        | .error fault =>
          (if reached.hasDirectory place (last :: before).reverse then .ok () else .error fault, reached)
    | .error fault =>
      (if tree.hasDirectory place (last :: before).reverse then .ok () else .error fault, tree)

/-- Makes the directory that a path leads to, and those on the way. For the empty path there is nothing to
make. -/
def createDirectories (path : String) (tree : FileTree) : Except FileFault Unit × FileTree :=
  if path.isEmpty then (.ok (), tree)
  else
    match pathFault? path with
    | some fault => (.error fault, tree)
    | none => tree.makeDirectories (Path.start path) (Path.steps path).reverse

/-- Puts contents into a file, which is made if it is not there. -/
def write (path : String) (contents : List UInt8) (tree : FileTree) :
    Except FileFault Unit × FileTree :=
  match tree.locate path with
  | .error fault => (.error fault, tree)
  | .ok place =>
    if tree.entry? place = some .directory ∨ Path.asksDirectory path then (.error .isDirectory, tree)
    else (.ok (), tree.put place (.file contents))

/-- Everything in a tree with its size, in the order of the names; a slash stands behind the name of a
directory. -/
def listing (tree : FileTree) : List (String × Nat) :=
  (NameMap.ofList ((tree.entries.entries.filter (!isOutside ·.1)).map fun
    | (name, .directory) => (name ++ "/", 0)
    | (name, .file contents) => (name, contents.length))).entries

end FileTree

end SerialContract
