import Formulary.Command

/-! Reads the script named on the command line and the scripts it imports, runs the program on
them, and prints what it answers. -/

namespace Formulary.Main

/-- The text of a file, if it can be read. -/
def readText? (path : String) : IO (Option String) := do
  try
    return some (← IO.FS.readFile path)
  catch _ =>
    return none

/-- Reads files and, in turn, what they import from the directory. -/
partial def gather (root : String) (disk : Disk) : List String → IO Disk
  | [] => return disk
  | path :: rest => do
    if (disk.files.lookup path).isSome then gather root disk rest
    else
      match ← readText? path with
      | none => gather root disk rest
      | some text =>
        let registry : Registry := { root := some root }
        let more := (Command.importsOf text).filterMap registry.pathOf
        gather root ⟨disk.files ++ [(path, text)]⟩ (rest ++ more)

end Formulary.Main

/-- The command line program. -/
def main (args : List String) : IO UInt32 := do
  let disk ← match args with
    | path :: _ :: _ :: _ => Formulary.Main.gather (Formulary.Command.rootOf path) {} [path]
    | _ => pure {}
  let outcome := Formulary.Command.run disk args
  IO.print outcome.output
  IO.eprint outcome.errors
  return UInt32.ofNat outcome.exit
