/-
  What the commands do.

  A command reads the files it is given from a directory and answers an `Outcome`: an exit code, the
  text for standard output, the text for standard error, and perhaps a file to write.  Nothing is
  written but by `fmt --write`, and there only after the file was read and parsed.

  A `Failure` is why a command cannot do its work.  The exit code is one when a specification is
  faulty, and two when a file cannot be read or written or a configuration is refused; a usage error
  has two as well.
-/
import LibrarySpec.CommandLine.Arguments
import LibrarySpec.CommandLine.Directory
import LibrarySpec.Completion.Config
import LibrarySpec.Include
import LibrarySpec.Json.Printer
import LibrarySpec.Library.Json
import LibrarySpec.Library.Parser
import LibrarySpec.Library.Printer

namespace LibrarySpec

/-- The version of the library. -/
def versionText : String := "0.1.0"

/-- The result of a command line. -/
structure Outcome where
  exitCode : Nat
  output : String
  errors : String
  /-- A path and the text to write there. -/
  written : Option (String × String)
deriving DecidableEq, Repr

namespace Outcome

/-- A result that is nothing but output. -/
def success (output : String) : Outcome := ⟨0, output, "", none⟩

/-- The result of a command line that cannot be understood. -/
def usage : Outcome :=
  ⟨2, "", "error: usage: libsl [-q] [-v] check|fmt|complete|hash|includes|version ...\n", none⟩

/-- The directory after the result. -/
def applyTo (outcome : Outcome) (directory : Directory) : Directory :=
  match outcome.written with
  | some (path, text) => directory.write path text
  | none => directory

end Outcome

/-- Why a command cannot do its work. -/
inductive Failure where
  | unreadable (file : String) (fault : ReadFault)
  | unwritable (file : String)
  | invalidConfig (file : String)
  | faulty (file : String) (fault : Fault)
deriving DecidableEq

namespace Failure

/-- The exit code of a failure. -/
def exitCode : Failure → Nat
  | faulty _ _ => 1
  | _ => 2

/-- The message of a failure. -/
def message : Failure → String
  | unreadable file fault => "cannot read " ++ file ++ ": " ++ fault.message
  | unwritable file => "cannot write " ++ file ++ ": " ++ ReadFault.denied.message
  | invalidConfig file => "invalid config " ++ file
  | faulty file fault => file ++ ": " ++ fault.message

/-- The result of a command that failed. -/
def outcome (failure : Failure) : Outcome :=
  ⟨failure.exitCode, "", "error: " ++ failure.message ++ "\n", none⟩

end Failure

namespace Directory

/-- The text of a file. -/
def source (directory : Directory) (file : String) : Except Failure String :=
  match directory.read file with
  | .ok text => .ok text
  | .error fault => .error (.unreadable file fault)

/-- The library that a file specifies. -/
def library (directory : Directory) (file : String) : Except Failure Library := do
  match Library.parse (← directory.source file) with
  | .ok library => .ok library
  | .error fault => .error (.faulty file fault)

/-- The completion that a configuration file asks for; the plain one without a file. -/
def completion (directory : Directory) : Option String → Except Failure Completion
  | none => .ok .plain
  | some file => do
    match Config.parse? (← directory.source file) with
    | some config => .ok config.toCompletion
    | none => .error (.invalidConfig file)

end Directory

namespace Command

/-- The numbers of things in a library, as `check` reports them. -/
def report (library : Library) : Json :=
  .object [("automata", .integer library.automata.length), ("errors", .integer 0),
    ("functions", .integer library.functions.length), ("library", .string library.name),
    ("types", .integer library.types.size), ("valid", .bool true)]

/-- The report on a faulty specification. -/
def faultReport (fault : Fault) : Json :=
  .object [("errors", .integer 1), ("message", .string fault.message), ("valid", .bool false)]

/-- The line that says that a specification is valid. -/
def validLine (file : String) (library : Library) : String :=
  "✓ " ++ file ++ " is valid (library " ++ library.name ++ ": "
    ++ toString library.types.size ++ " types, "
    ++ toString library.automata.length ++ " automata, "
    ++ toString library.functions.length ++ " functions)\n"

/-- Parses a specification and says whether it is valid. -/
def runCheck (directory : Directory) (quiet : Bool) (file : String) (json : Bool) :
    Except Failure Outcome := do
  match Library.parse (← directory.source file) with
  | .ok library =>
    return .success <|
      if json then (report library).compact ++ "\n"
      else if quiet then ""
      else validLine file library
  | .error fault =>
    if json then return ⟨1, (faultReport fault).compact ++ "\n", "", none⟩
    else throw (.faulty file fault)

/-- Prints a specification canonically, or writes it back so. -/
def runFormat (directory : Directory) (quiet : Bool) (file : String) (write : Bool) :
    Except Failure Outcome := do
  let text := (← directory.library file).print
  if !write then return .success text
  else if !directory.accepts file then throw (.unwritable file)
  else return ⟨0, if quiet then "" else "✓ formatted " ++ file ++ "\n", "", some (file, text)⟩

/-- Completes a specification.  The configuration is read first. -/
def runComplete (directory : Directory) (file : String) (config : Option String) (json : Bool) :
    Except Failure Outcome := do
  let completion ← directory.completion config
  match completion.run (← directory.library file) with
  | .ok library =>
    return .success (if json then library.toJson.pretty ++ "\n" else library.print)
  | .error fault => throw (.faulty file fault)

/-- Runs a command. -/
def run (directory : Directory) (quiet : Bool) : Command → Except Failure Outcome
  | check file json => runCheck directory quiet file json
  | format file write => runFormat directory quiet file write
  | complete file config json => runComplete directory file config json
  | hash file => do return .success ((← directory.library file).hash ++ "\n")
  | includes file target => do
    let paths := (← directory.library file).includePaths target
    return .success (String.join (paths.map (· ++ "\n")))
  | version => return .success ("libsl " ++ versionText ++ " (libsl-core " ++ versionText ++ ")\n")

/-- The files that a command reads, in order. -/
def files : Command → List String
  | check file _ | format file _ | hash file | includes file _ => [file]
  | complete file config _ => config.toList ++ [file]
  | version => []

end Command

namespace Request

/-- Answers a request. -/
def answer (directory : Directory) : Request → Outcome
  | showVersion => .success ("libsl " ++ versionText ++ "\n")
  | run quiet _ command =>
    match command.run directory quiet with
    | .ok outcome => outcome
    | .error failure => failure.outcome

end Request

/-- Answers a command line. -/
def runCommandLine (directory : Directory) (arguments : List String) : Outcome :=
  match Request.parse? arguments with
  | some request => request.answer directory
  | none => .usage

end LibrarySpec
