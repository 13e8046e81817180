/-
  Command lines.

      libsl [-q] [-v] check FILE [--json]
      libsl [-q] [-v] fmt FILE [--write]
      libsl [-q] [-v] complete FILE [--config FILE] [--json]
      libsl [-q] [-v] hash FILE
      libsl [-q] [-v] includes FILE --dir DIRECTORY
      libsl [-q] [-v] version
      libsl --version

  Options may stand in any order, those for quiet and verbose also before the command.  The value of
  an option is the next argument or follows an equals sign; it may not be empty, and as an argument
  of its own it may not look like an option.  Short options may share a dash.  After `--` nothing is
  an option.  An option that is given twice in one place is refused, as is everything else that the
  forms above do not have.

  Requests for help (`-h`, `--help`, `help`) are left out of the forms, and so are usage errors here.
  A command line tool answers them with the texts of its manual and the exit code 0; neither the texts
  nor that answer is part of this library.

  `Request.parse?` reads a command line; `none` is a usage error.
-/

namespace LibrarySpec

/-! ## Forms -/

/-- What a command is asked to do. -/
inductive Command where
  | check (file : String) (json : Bool)
  | format (file : String) (write : Bool)
  | complete (file : String) (config : Option String) (json : Bool)
  | hash (file : String)
  | includes (file : String) (directory : String)
  | version
deriving DecidableEq, Repr

/-- What a command line asks for. -/
inductive Request where
  | showVersion
  | run (quiet verbose : Bool) (command : Command)
deriving DecidableEq, Repr

/-! ## Arguments -/

/-- The options that a part of a command line may have. -/
structure Options where
  flags : List String
  valued : List String

/-- The flags that may stand anywhere. -/
def Options.everywhere : List String := ["quiet", "verbose"]

/-- The flag that a letter is short for. -/
def Options.ofLetter? : Char → Option String
  | 'q' => some "quiet"
  | 'v' => some "verbose"
  | _ => none

/-- Arguments sorted by kind. -/
structure Arguments where
  flags : List String
  values : List (String × String)
  operands : List String
deriving DecidableEq, Repr

namespace Arguments

/-- No arguments. -/
def none : Arguments := ⟨[], [], []⟩

/-- How an argument looks. -/
inductive Shape where
  /-- Two dashes alone. -/
  | escape
  /-- Two dashes and a name, and perhaps a value after an equals sign. -/
  | long (name : String) (value : Option String)
  /-- One dash and letters. -/
  | short (letters : List Char)
  | operand (text : String)
deriving DecidableEq

/-- The shape of an argument. -/
def shape (argument : String) : Shape :=
  match argument.toList with
  | ['-', '-'] => .escape
  | '-' :: '-' :: rest =>
    let name := String.ofList (rest.takeWhile (· != '='))
    match rest.dropWhile (· != '=') with
    | [] => .long name .none
    | _ :: value => .long name (some (String.ofList value))
  | '-' :: c :: rest => .short (c :: rest)
  | _ => .operand argument

/-- The arguments with one more flag, which may not be there yet. -/
def withFlag? (arguments : Arguments) (name : String) : Option Arguments :=
  if arguments.flags.contains name then .none
  else some { arguments with flags := arguments.flags ++ [name] }

/-- The arguments with a value for an option, which may not have one yet. -/
def withValue? (arguments : Arguments) (name value : String) : Option Arguments :=
  if value.isEmpty || arguments.values.any (·.1 == name) then .none
  else some { arguments with values := arguments.values ++ [(name, value)] }

/-- The arguments with one more operand, which may not be empty. -/
def withOperand? (arguments : Arguments) (operand : String) : Option Arguments :=
  if operand.isEmpty then .none
  else some { arguments with operands := arguments.operands ++ [operand] }

/-- The arguments with the flags of several letters. -/
def withLetters? (arguments : Arguments) (letters : List Char) : Option Arguments :=
  letters.foldlM (fun arguments c => (Options.ofLetter? c).bind arguments.withFlag?) arguments

/-- Sorts arguments by kind, after those sorted already. -/
def sort? (options : Options) (sorted : Arguments) : List String → Option Arguments
  | [] => some sorted
  | argument :: rest =>
    match shape argument with
    | .escape => rest.foldlM withOperand? sorted
    | .operand text => (sorted.withOperand? text).bind (sort? options · rest)
    | .short letters => (sorted.withLetters? letters).bind (sort? options · rest)
    | .long name value =>
      if (Options.everywhere ++ options.flags).contains name then
        if value.isSome then .none else (sorted.withFlag? name).bind (sort? options · rest)
      else if options.valued.contains name then
        match value, rest with
        | some value, rest => (sorted.withValue? name value).bind (sort? options · rest)
        | .none, next :: rest =>
          match shape next with
          | .operand value => (sorted.withValue? name value).bind (sort? options · rest)
          | _ => .none
        | .none, [] => .none
      else .none

/-- Whether a flag is among the arguments. -/
def has (arguments : Arguments) (flag : String) : Bool := arguments.flags.contains flag

/-- The value of an option. -/
def value? (arguments : Arguments) (name : String) : Option String := arguments.values.lookup name

/-- The one operand, if there is exactly one. -/
def soleOperand? (arguments : Arguments) : Option String :=
  match arguments.operands with
  | [operand] => some operand
  | _ => .none

end Arguments

/-! ## Commands -/

namespace Command

/-- The options of a command. -/
def options? : String → Option Options
  | "check" => some ⟨["json"], []⟩
  | "fmt" => some ⟨["write"], []⟩
  | "complete" => some ⟨["json"], ["config"]⟩
  | "hash" => some ⟨[], []⟩
  | "includes" => some ⟨[], ["dir"]⟩
  | "version" => some ⟨[], []⟩
  | _ => none

/-- The command of this name with its arguments. -/
def ofArguments? (name : String) (arguments : Arguments) : Option Command :=
  match name with
  | "check" => do return .check (← arguments.soleOperand?) (arguments.has "json")
  | "fmt" => do return .format (← arguments.soleOperand?) (arguments.has "write")
  | "complete" => do
    return .complete (← arguments.soleOperand?) (arguments.value? "config") (arguments.has "json")
  | "hash" => do return .hash (← arguments.soleOperand?)
  | "includes" => do return .includes (← arguments.soleOperand?) (← arguments.value? "dir")
  | "version" => if arguments.operands.isEmpty then some .version else none
  | _ => none

end Command

namespace Request

/-- The request of a command line whose part before the command gave these flags. -/
def parseAfter? (before : Arguments) : List String → Option Request
  | [] => none
  | argument :: rest =>
    match Arguments.shape argument with
    | .escape => none
    | .operand name => do
      let options ← Command.options? name
      let arguments ← Arguments.none.sort? options rest
      let command ← Command.ofArguments? name arguments
      return .run (before.has "quiet" || arguments.has "quiet")
        (before.has "verbose" || arguments.has "verbose") command
    | .short letters =>
      -- The letter for the version answers at once; letters after it are not looked at.
      match before.withLetters? (letters.takeWhile (· != 'V')) with
      | none => none
      | some flags => if letters.contains 'V' then some .showVersion else parseAfter? flags rest
    | .long "version" none => some .showVersion
    | .long name none =>
      if Options.everywhere.contains name then
        match before.withFlag? name with
        | none => none
        | some flags => parseAfter? flags rest
      else none
    | .long _ (some _) => none

/-- The request of a command line, or a usage error. -/
def parse? (arguments : List String) : Option Request := parseAfter? .none arguments

end Request
end LibrarySpec
