import SerialContract.Text.Cut

/-!
# Paths

Paths as texts: their steps, the extension of the name at their end, and how they are joined.
-/

namespace SerialContract.Path

/-- The parts of a path between slashes. -/
def segments (path : String) : List String :=
  (path.toList.splitOn '/').map String.ofList

/-- The step to the directory above. -/
def up : String := ".."

/-- The directory that all others are in. -/
def root : String := "/"

/-- The steps of a path; slashes in a row and steps that stay where they are do not count. -/
def steps (path : String) : List String :=
  (segments path).filter fun segment => segment ≠ "" && segment ≠ "."

/-- Where the steps of a path start: at the root of all files behind a slash, or else where the program
runs. -/
def start (path : String) : List String :=
  if path.toList.head? = some '/' then [root] else []

/-- Whether a path is written so that only a directory can be meant. -/
def asksDirectory (path : String) : Bool :=
  ["", ".", up].contains ((segments path).getLastD "")

/-- A path inside a directory; behind the empty path it stays as it is. -/
def join (directory path : String) : String :=
  match directory.toList.getLast? with
  | none | some '/' => directory ++ path
  | some _ => directory ++ "/" ++ path

/-- What stands behind the last point of a name that has something in front of it. -/
def extension? (path : String) : Option String := do
  let name ← (steps path).getLast?
  if name = up then none
  else
    let (back, front) ← cutAt '.' name.toList.reverse
    if front.isEmpty then none else some (String.ofList back.reverse)

/-- Whether a path leads to a file of this extension, in small or capital letters. -/
def hasExtension (path extension : String) : Bool :=
  (extension? path).map (·.map Char.toLower) == some extension

end SerialContract.Path
