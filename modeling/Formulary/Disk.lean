import Formulary.Path

/-!
# Files

A finite set of files below one directory. A file that is written again has its last contents. Names
and paths are bounded in length, and a path is followed piece by piece, so that the first piece
which leads nowhere decides the error.
-/

namespace Formulary

/-- Why a file cannot be read. -/
inductive ReadError where
  | missing
  | notDirectory
  | isDirectory
  | nameTooLong
deriving DecidableEq, Repr

/-- The system's wording. -/
def ReadError.message : ReadError → String
  | missing => "No such file or directory (os error 2)"
  | notDirectory => "Not a directory (os error 20)"
  | isDirectory => "Is a directory (os error 21)"
  | nameTooLong => "File name too long (os error 36)"

/-- Files with their paths and contents, in the order in which they were written. -/
structure Disk where
  files : List (String × String) := []
deriving DecidableEq, Repr

namespace Disk

/-- The names on the way to a file. -/
def place (path : String) : List String :=
  (Path.pieces path).filter fun piece ↦ piece != "" && piece != "."

/-- The file at a place below the directory. -/
def file? (d : Disk) (here : List String) : Option String :=
  (d.files.reverse.find? fun f ↦ place f.1 == here).map Prod.snd

/-- Whether some file lies below a place. -/
def isDirectory (d : Disk) (here : List String) : Bool :=
  here.isEmpty || d.files.any fun f ↦
    here.isPrefixOf (place f.1) && here.length < (place f.1).length

/-- The most bytes in a name, and in a whole path. -/
def nameLimit : Nat := 255

@[inherit_doc nameLimit] def pathLimit : Nat := 4095

/-- Whether a piece of a path is longer than a name can be. -/
def tooLong (piece : String) : Bool := nameLimit < piece.utf8ByteSize

/-- Follows the pieces of a path outside the directory, where there are no files. -/
def walkOutside : List String → Except ReadError String
  | [] => .error .isDirectory
  | piece :: rest =>
    if piece = "" || piece = "." || piece = ".." then walkOutside rest
    else .error (if tooLong piece then .nameTooLong else .missing)

/-- Follows the pieces of a path from a directory. -/
def walk (d : Disk) (here : List String) : List String → Except ReadError String
  | [] => .error .isDirectory
  | piece :: rest =>
    if piece = "" || piece = "." then d.walk here rest
    else if piece = ".." then
      if here.isEmpty then walkOutside rest else d.walk here.dropLast rest
    else if tooLong piece then .error .nameTooLong
    else
      let next := here ++ [piece]
      match d.file? next with
      | some text => if rest.isEmpty then .ok text else .error .notDirectory
      | none => if d.isDirectory next then d.walk next rest else .error .missing

/-- The text of the file that a path leads to. -/
def read (d : Disk) (path : String) : Except ReadError String :=
  if path.isEmpty then .error .missing
  else if pathLimit < path.utf8ByteSize then .error .nameTooLong
  else if path.startsWith "/" then walkOutside (Path.pieces path)
  else d.walk [] (Path.pieces path)

end Disk

end Formulary
