/-
  Parsing of library specifications.

      library   := 'library' name ';' import* include* types automaton* converters? function*
      types     := 'types' '{' (type '(' verbatim ')' ';')* '}'
      automaton := 'automaton' type '{' (item ';')* '}'
      converters := 'converters' '{' (type '<' '-' verbatim ';')* '}'
      function  := atom* name '(' arguments ')' ('requires' contract)? ('ensures' contract)?
                   (':' annotation* type)? '{' (part ';')* '}'

  The items of an automaton and the parts of a function may come in any order; each is sorted into
  the list of its kind.  The states declared as final follow the others.  An automaton has at most
  one package, a function at most one static declaration, and both are checked once the whole
  declaration is read.

  A function is owned by the type before its name.  If there is none, exactly one argument must be
  annotated as the handle, and its type is the owner.

  `Library.parse` reads a text, `Library.parseBytes` bytes that should be UTF-8, and
  `Library.parseStream` a source that arrives in pieces and may break off.
-/
import LibrarySpec.Contract.Parser
import LibrarySpec.Library.Basic
import LibrarySpec.SemanticType.Parser

namespace LibrarySpec

open LibrarySpec.Parser
open Text (Position)

/-! ## Names -/

/-- Identifiers with commas between them. -/
def Parser.nameList (wanted : String) : Parser (List String) :=
  separated (.symbol .comma) (identifier wanted)

/-- Identifiers with dots between them, as one text. -/
def Parser.dottedName (wanted : String) : Parser String := do
  return ".".intercalate (← separated (.symbol .dot) (identifier wanted))

/-- A semicolon. -/
def Parser.semicolon : Parser Unit := expect (.symbol .semicolon) "';'"

/-! ## Types and converters -/

/-- A type declaration. -/
def TypeDecl.parser : Parser TypeDecl := do
  let semanticType ← SemanticType.parser
  expect (.symbol .openParen) "'(' before code type"
  let codeType ← verbatim .closeParen "code type"
  expect (.symbol .closeParen) "')'"
  semicolon
  return ⟨semanticType, codeType⟩

/-- The types section. -/
def TypeTable.parser : Parser TypeTable := do
  expect (.keyword .types) "'types' section"
  expect (.symbol .openBrace) "'\x7b'"
  return .ofList (← upTo (.symbol .closeBrace) TypeDecl.parser)

/-- A converter. -/
def Converter.parser : Parser Converter := do
  let type ← SemanticType.parser
  expect (.symbol .less) "'<-'"
  expect (.symbol .minus) "'<-'"
  let expression ← verbatim .semicolon "converter expression"
  semicolon
  return ⟨type, expression⟩

/-- The converters section, which may be missing. -/
def Converter.sectionParser : Parser (List Converter) := do
  if ← eat (.keyword .converters) then
    expect (.symbol .openBrace) "'\x7b'"
    upTo (.symbol .closeBrace) Converter.parser
  else
    return []

/-! ## Automata -/

namespace Automaton

/-- One item in the body of an automaton. -/
inductive Item where
  | extendable
  | package (name : String)
  | variableItem (item : Variable)
  | states (names : List String)
  | finalState (name : String)
  | shift (item : Shift)

/-- An item without its semicolon. -/
def itemBody : Parser Item := do
  match ← peek with
  | .keyword .extendable =>
    advance
    return .extendable
  | .keyword .javaPackage =>
    advance
    return .package (← dottedName "package name")
  | .keyword .var =>
    advance
    let name ← identifier "variable name"
    expect (.symbol .colon) "':'"
    return .variableItem ⟨name, ← SemanticType.parser⟩
  | .keyword .states =>
    advance
    return .states (← nameList "state name")
  | .keyword .finishState =>
    advance
    return .finalState (← identifier "state name")
  | .keyword .shift =>
    advance
    let source ← identifier "source state"
    expect (.symbol .arrow) "'->'"
    let target ← identifier "destination state"
    expect (.symbol .openParen) "'('"
    let functions ← nameList "function name"
    expect (.symbol .closeParen) "')'"
    return .shift ⟨source, target, functions⟩
  | _ => fail "automaton statement"

/-- An item. -/
def item : Parser Item := do
  let i ← itemBody
  semicolon
  return i

/-- The packages that items name. -/
def packages (items : List Item) : List String :=
  items.filterMap fun
    | .package name => some name
    | _ => none

/-- The automaton of a type with these items; `place` is where it starts. -/
def ofItems (type : SemanticType) (items : List Item) (place : Position) :
    Except SyntaxFault Automaton :=
  if 1 < (packages items).length then .error (.duplicatePackage type.name place)
  else
    .ok {
      type := type
      package := (packages items).head?
      states :=
        items.flatMap (fun | .states names => names.map (⟨·, false⟩) | _ => []) ++
          items.flatMap (fun | .finalState name => [⟨name, true⟩] | _ => [])
      shifts := items.flatMap fun | .shift s => [s] | _ => []
      extendable := items.any fun | .extendable => true | _ => false
      vars := items.flatMap fun | .variableItem v => [v] | _ => []
      functions := []
    }

/-- An automaton. -/
def parser : Parser Automaton := do
  let start ← place
  expect (.keyword .automaton) "'automaton'"
  let type ← SemanticType.parser
  expect (.symbol .openBrace) "'\x7b'"
  let items ← upTo (.symbol .closeBrace) item
  match ofItems type items start with
  | .ok automaton => return automaton
  | .error fault => reject fault

end Automaton

/-! ## Functions -/

namespace FunctionSpec

/-- Annotations. -/
def annotations : Parser (List String) :=
  afterEach (.symbol .atSign) (identifier "annotation name")

/-- An argument. -/
def argument : Parser Argument := do
  let marks ← annotations
  let name ← identifier "argument name"
  expect (.symbol .colon) "':'"
  return ⟨name, ← SemanticType.parser, marks⟩

/-- The type atoms before the argument list; the last is the name. -/
def head : Parser (List SemanticType) := do
  let first ← SemanticType.atom
  let more ← collect do
    if ← check (.symbol .openParen) then return none
    else if ← atIdentifier then return some (← SemanticType.atom)
    else fail "'(' after function name"
  return first :: more

/-- The owner that the atoms before the name give; each is put around what those behind it make. -/
def ownerOfAtoms (atoms : List SemanticType) : Option SemanticType :=
  match atoms.reverse with
  | [] => none
  | last :: before => some (before.foldl (fun inner outer => .generic outer inner) last)

/-- A contract behind a keyword, if the keyword is there. -/
def clause (opening : Keyword) : Parser (Option Contract) := do
  if ← eat (.keyword opening) then return some (← Contract.parser) else return none

/-- The result behind a colon, if there is one. -/
def resultParser : Parser (Option Result) := do
  if ← eat (.symbol .colon) then
    let marks ← annotations
    return some ⟨← SemanticType.parser, marks⟩
  else
    return none

/-- One part in the body of a function. -/
inductive Part where
  | action (part : Action)
  | static (name : Option String)
  | property (part : Property)
  | assignment (part : Assignment)

/-- A part without its semicolon. -/
def partBody : Parser Part := do
  match ← peek with
  | .keyword .action =>
    advance
    let name ← identifier "action name"
    expect (.symbol .openParen) "'('"
    return .action ⟨name, ← inParens (identifier "action argument") "')'"⟩
  | .keyword .static =>
    advance
    if ← atIdentifier then return .static (some (← identifier "static name"))
    else return .static none
  | .keyword .property =>
    advance
    let key ← identifier "property key"
    expect (.symbol .assign) "'='"
    return .property ⟨key, ← verbatim .semicolon "property value"⟩
  | .identifier name =>
    advance
    expect (.symbol .assign) "'='"
    expect (.keyword .new) "'new'"
    let automaton ← SemanticType.parser
    expect (.symbol .openParen) "'('"
    return .assignment ⟨name, automaton, ← inParens (identifier "automaton argument") "')'"⟩
  | _ => fail "function property"

/-- A part. -/
def part : Parser Part := do
  let p ← partBody
  semicolon
  return p

/-- The annotation of the argument that owns a function. -/
def handleMark : String := "handle"

/-- The owner of a function, from the type before its name or from its arguments. -/
def findOwner (before : Option SemanticType) (name : String) (arguments : List Argument) :
    Except Fault (SemanticType × Ownership) :=
  match before with
  | some type => .ok (type, .explicit)
  | none =>
    match arguments.filter (·.isMarked handleMark) with
    | [] => .error (.missingHandle name)
    | [handle] => .ok (handle.type, .handle)
    | handles => .error (.ambiguousHandle name handles.length)

/-- The static declarations among parts, an empty name for one without a name. -/
def statics (parts : List Part) : List String :=
  parts.filterMap fun
    | .static name => some (name.getD "")
    | _ => none

/-- The function with these parts; `place` is where it starts. -/
def ofParts (before : Option SemanticType) (name : String) (arguments : List Argument)
    (contracts : Contracts) (result : Option Result) (parts : List Part) (place : Position) :
    Except Fault FunctionSpec :=
  match findOwner before name arguments with
  | .error fault => .error fault
  | .ok (owner, ownership) =>
    if 1 < (statics parts).length then .error (.syntactic (.duplicateStatic name place))
    else
      .ok {
        owner := owner
        ownership := ownership
        name := name
        arguments := arguments
        actions := parts.flatMap fun | .action a => [a] | _ => []
        result := result
        staticName := (statics parts).head?
        properties := parts.flatMap fun | .property p => [p] | _ => []
        assignments := parts.flatMap fun | .assignment a => [a] | _ => []
        contracts := contracts
        builtin := false
      }

/-- A function. -/
def parser : Parser FunctionSpec := do
  let start ← place
  let atoms ← head
  match atoms.getLast? with
  | some (.simple name) =>
    expect (.symbol .openParen) "'('"
    let arguments ← inParens argument "')'"
    let requires ← clause .requires
    let ensures ← clause .ensures
    let result ← resultParser
    expect (.symbol .openBrace) "'\x7b' to open function body"
    let parts ← upTo (.symbol .closeBrace) part
    match ofParts (ownerOfAtoms atoms.dropLast) name arguments ⟨requires, ensures⟩ result parts
        start with
    | .ok f => return f
    | .error fault => throw fault
  | some other => reject (.compoundName other.name start)
  | none => fail "function name"

end FunctionSpec

/-! ## Libraries -/

namespace Library

/-- A library. -/
def parser : Parser Library := do
  expect (.keyword .library) "'library'"
  let name ← identifier "library name"
  semicolon
  let imports ← afterEach (.keyword .importName) do
    let n ← dottedName "imported name"
    semicolon
    return n
  let includes ← afterEach (.keyword .includeName) do
    let n ← dottedName "included name"
    semicolon
    return n
  let types ← TypeTable.parser
  let automata ← collect do
    if ← check (.keyword .automaton) then return some (← Automaton.parser) else return none
  let converters ← Converter.sectionParser
  let functions ← collect do
    if ← check .eof then return none else return some (← FunctionSpec.parser)
  return { name, imports, includes, automata, types, converters, functions }

/-- The library that lexemes spell. -/
def ofLexemes (lexemes : List Lexeme) : Except Fault Library := parser.onLexemes lexemes

/-- The library that a text specifies. -/
def parse (source : String) : Except Fault Library :=
  match scan source with
  | .error fault => .error (.syntactic fault)
  | .ok lexemes => ofLexemes lexemes

/-- The library that bytes specify. -/
def parseBytes (bytes : List UInt8) : Except Fault Library :=
  match Text.Utf8.decode bytes with
  | .error fault => .error (.invalidUtf8 fault)
  | .ok text => parse (String.ofList text)

/-- The library that a source specifies which arrives in pieces.  A source that breaks off has a
    `failure`, the reason; it is not parsed. -/
def parseStream (pieces : List (List UInt8)) (failure : Option String) : Except Fault Library :=
  match failure with
  | some reason => .error (.unreadable reason)
  | none => parseBytes pieces.flatten

end Library
end LibrarySpec
