/-!
# Paths

File paths as text, with slashes between their parts. A part `.` stands for nothing, except at the
start, and `..` leads one directory up.
-/

namespace Formulary.Path

/-- A part of a path. -/
inductive Part where
  /-- The slash that a path starts with. -/
  | root
  /-- A `.` that a path starts with. -/
  | here
  | up
  | name (text : String)
deriving DecidableEq, Repr

/-- The part that a piece between slashes stands for, if it stands for one. -/
def partOf? (piece : String) : Option Part :=
  if piece = "" || piece = "." then none
  else if piece = ".." then some .up
  else some (.name piece)

/-- The pieces between slashes. -/
def pieces (path : String) : List String := (path.toList.splitOn '/').map String.ofList

/-- The parts of a path. -/
def parts (path : String) : List Part :=
  match pieces path with
  | "" :: rest => if rest.isEmpty then [] else .root :: rest.filterMap partOf?
  | "." :: rest => .here :: rest.filterMap partOf?
  | ps => ps.filterMap partOf?

/-- The path with these parts. -/
def ofParts : List Part → String
  | [] => ""
  | .root :: rest => "/" ++ String.intercalate "/" (rest.map text)
  | ps => String.intercalate "/" (ps.map text)
where
  /-- How a part is written. -/
  text : Part → String
    | .root => ""
    | .here => "."
    | .up => ".."
    | .name s => s

/-- The last part, if it is a name. -/
def fileName? (path : String) : Option String :=
  match (parts path).getLast? with
  | some (.name s) => some s
  | _ => none

/-- The file name without its extension, which is what follows the last dot; a dot at the start
begins no extension. -/
def stem? (path : String) : Option String :=
  (fileName? path).map fun name ↦
    let cs := name.toList
    let extension := cs.reverse.takeWhile fun c ↦ c != '.'
    let stem := cs.take (cs.length - extension.length - 1)
    if stem.isEmpty then name else String.ofList stem

/-- The path without its last part. -/
def parent? (path : String) : Option String :=
  match parts path with
  | [] | [.root] => none
  | ps => some (ofParts ps.dropLast)

/-- A name within a directory. -/
def join (directory name : String) : String :=
  if directory.isEmpty || directory.endsWith "/" then directory ++ name
  else directory ++ "/" ++ name

end Formulary.Path
