/-
  The program.

  It looks up the files that the command reads, lets `Request.answer` decide, and carries out what
  that answers: the text on the two outputs, the file to write, the exit code.
-/
import LibrarySpec.CommandLine.Run

namespace LibrarySpec

/-- The entry at a path of the file system, if there is one. -/
def lookUp (path : String) : IO (Option Entry) := do
  try
    let content ← IO.FS.readBinFile path
    return some (.file content.toList true true)
  catch fault =>
    match fault with
    | .permissionDenied .. => return some (.file [] false false)
    | .inappropriateType _ code _ => return if code = 21 then some .folder else none
    | _ => return none

/-- The paths that a path leads through, itself the last. -/
def stages (path : String) : List String :=
  let parts := Place.parts path
  (List.range parts.length).map fun n => "/".intercalate (parts.take (n + 1))

/-- The entries at some paths and on the way to them, as a directory. -/
def snapshot (paths : List String) : IO Directory := do
  let mut entries := []
  for path in paths.flatMap stages do
    if let some entry ← lookUp path then
      entries := entries ++ [(path, entry)]
  return ⟨entries⟩

/-- Writes a file; the answer is whether that worked. -/
def store (path text : String) : IO Bool := do
  try
    IO.FS.writeFile path text
    return true
  catch _ => return false

/-- Carries out an outcome. -/
def carryOut (outcome : Outcome) : IO UInt32 := do
  if let some (path, text) := outcome.written then
    unless ← store path text do
      let failure := (Failure.unwritable path).outcome
      IO.eprint failure.errors
      return failure.exitCode.toUInt32
  IO.print outcome.output
  IO.eprint outcome.errors
  return outcome.exitCode.toUInt32

end LibrarySpec

open LibrarySpec in
/-- Runs a command line. -/
def main (arguments : List String) : IO UInt32 := do
  match Request.parse? arguments with
  | none => carryOut .usage
  | some .showVersion => carryOut (Request.showVersion.answer ⟨[]⟩)
  | some (.run quiet verbose command) =>
    let directory ← snapshot command.files
    carryOut ((Request.run quiet verbose command).answer directory)
