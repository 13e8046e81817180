/-
  The canonical text of a library.

  The sections follow one another in the order of the grammar.  A blank line stands before the
  imports, before the includes, before the types, before the converters, and before each automaton
  and each function; what a brace opens is indented by four spaces; every line ends in a line feed.

  The text says what was specified, not what was completed: builtin functions and the functions of
  an automaton are left out.  States that are not final share one line, each final state has its
  own, and they come after.  `Library.hash` is the digest of the text.
-/
import LibrarySpec.Contract.Printer
import LibrarySpec.Digest
import LibrarySpec.Library.Basic

namespace LibrarySpec

/-! ## Lines -/

/-- A line of its own. -/
def printedLine (text : String) : String := text ++ "\n"

/-- A line inside braces. -/
def printedItem (text : String) : String := "    " ++ text ++ "\n"

/-- A heading and the items in its braces. -/
def printedBlock (heading : String) (items : List String) : String :=
  heading ++ " \x7b\n" ++ String.join (items.map printedItem) ++ "\x7d\n"

/-- Names with commas between them. -/
def printedNames (names : List String) : String := ", ".intercalate names

/-! ## Declarations -/

/-- The text of a type declaration. -/
def TypeDecl.print (d : TypeDecl) : String :=
  d.semanticType.name ++ " (" ++ d.codeType ++ ");"

/-- The text of a converter. -/
def Converter.print (c : Converter) : String :=
  c.type.name ++ " <- " ++ c.expression ++ ";"

namespace Automaton

/-- The line of the states that are not final, if there are any. -/
def printStates (states : List State) : List String :=
  let names := (states.filter fun s => !s.isFinal).map (·.name)
  if names.isEmpty then [] else ["states " ++ printedNames names ++ ";"]

/-- The text of a shift. -/
def printShift (s : Shift) : String :=
  "shift " ++ s.source ++ " -> " ++ s.target ++ " (" ++ printedNames s.functions ++ ");"

/-- The items of an automaton. -/
def printItems (a : Automaton) : List String :=
  (if a.extendable then ["extendable;"] else [])
    ++ a.package.toList.map (fun name => "javapackage " ++ name ++ ";")
    ++ a.vars.map (fun v => "var " ++ v.name ++ ": " ++ v.type.name ++ ";")
    ++ printStates a.states
    ++ (a.states.filter (·.isFinal)).map (fun s => "finishstate " ++ s.name ++ ";")
    ++ a.shifts.map printShift

/-- The text of an automaton. -/
def print (a : Automaton) : String :=
  printedBlock ("automaton " ++ a.type.name) a.printItems

end Automaton

namespace FunctionSpec

/-- Annotations, a space after each. -/
def printAnnotations (names : List String) : String :=
  String.join (names.map fun name => "@" ++ name ++ " ")

/-- The text of an argument. -/
def printArgument (a : Argument) : String :=
  printAnnotations a.annotations ++ a.name ++ ": " ++ a.type.name

/-- The text of a contract behind its keyword. -/
def printClause (keyword : String) : Option Contract → String
  | none => ""
  | some contract => " " ++ keyword ++ " " ++ contract.print

/-- The text of a result. -/
def printResult : Option Result → String
  | none => ""
  | some result => ": " ++ printAnnotations result.annotations ++ result.type.name

/-- The text of a function up to its body. -/
def printHead (f : FunctionSpec) : String :=
  (match f.ownership with
    | .explicit => f.owner.name ++ " "
    | .handle => "")
    ++ f.name ++ "(" ++ printedNames (f.arguments.map printArgument) ++ ")"
    ++ printClause "requires" f.contracts.requires
    ++ printClause "ensures" f.contracts.ensures
    ++ printResult f.result

/-- The parts of a function. -/
def printParts (f : FunctionSpec) : List String :=
  f.actions.map (fun a => "action " ++ a.name ++ "(" ++ printedNames a.arguments ++ ");")
    ++ f.staticName.toList.map
        (fun name => if name.isEmpty then "static;" else "static " ++ name ++ ";")
    ++ f.properties.map (fun p => "property " ++ p.key ++ " = " ++ p.value ++ ";")
    ++ f.assignments.map (fun a =>
        a.variableName ++ " = new " ++ a.automaton.name
          ++ "(" ++ printedNames a.arguments ++ ");")

/-- The text of a function. -/
def print (f : FunctionSpec) : String := printedBlock f.printHead f.printParts

end FunctionSpec

/-! ## Libraries -/

namespace Library

/-- Lines with one keyword in front, and a blank line before the first. -/
def printNames (keyword : String) (names : List String) : String :=
  if names.isEmpty then ""
  else "\n" ++ String.join (names.map fun name => printedLine (keyword ++ " " ++ name ++ ";"))

/-- The canonical text of a library. -/
def print (library : Library) : String :=
  printedLine ("library " ++ library.name ++ ";")
    ++ printNames "import" library.imports
    ++ printNames "include" library.includes
    ++ "\n" ++ printedBlock "types" (library.types.decls.map TypeDecl.print)
    ++ String.join (library.automata.map fun a => "\n" ++ a.print)
    ++ (if library.converters.isEmpty then ""
        else "\n" ++ printedBlock "converters" (library.converters.map Converter.print))
    ++ String.join ((library.functions.filter fun f => !f.builtin).map fun f => "\n" ++ f.print)

/-- The digest of the canonical text. -/
def hash (library : Library) : String := Digest.ofText library.print

end Library
end LibrarySpec
