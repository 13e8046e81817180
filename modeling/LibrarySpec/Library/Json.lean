/-
  Libraries as JSON documents.

  `toJson` writes every part of a library as an object, an absent part as null.  `ofJson?` reads such
  a document back.  Each record may also be an array of its parts, and each word an object, as
  `Json/Record` says.  Members that a record does not know are ignored, an optional part may be null
  or missing in an object, and any other missing part, wrong kind of value or unknown word refuses
  the whole document.  Names are not checked.  The positions kept in a type table are no part of the
  document.

  A semantic type and a variable are written with their kind as one more part before the others.  A
  type inside one of them may tell its kind by a number too: zero if it is simple, one if it is
  composite.  Composite types keep the text they are displayed by, whatever it is.

  A number written as an integer within 64 bits is read as an integer, any other number as a
  floating-point number.
-/
import LibrarySpec.Json.Record
import LibrarySpec.Library.Basic

namespace LibrarySpec

open Json (ofOption ofStrings list? strings?)

/-! ## Semantic types -/

namespace SemanticType

/-- The document of a semantic type. -/
def toJson : SemanticType → Json
  | simple name => .object [("kind", .string "simple"), ("name", .string name)]
  | complex display enclosing inner =>
    .object [("kind", .string "complex"), ("type_name", .string display),
      ("enclosing", enclosing.toJson), ("inner", inner.toJson)]

/-- The words for the kinds of semantic type. -/
def kinds : List String := ["simple", "complex"]

/-- The word for a kind that a document tells by the word or, if `numbered`, by its number. -/
def kind? (numbered : Bool) : Json → Option String
  | .string word => some word
  | .integer (.ofNat n) => if numbered then kinds[n]? else none
  | _ => none

/-- The semantic type of a document, whose kind may be told by number if `numbered`. -/
def read? (numbered : Bool) (json : Json) : Option SemanticType := do
  match ← (json.tag? "kind").bind (kind? numbered) with
  | "simple" =>
    let record ← json.record? ["kind", "name"]
    return .simple (← record.field? "name" Json.string?)
  | "complex" =>
    let record ← json.record? ["kind", "type_name", "enclosing", "inner"]
    let display ← record.field? "type_name" Json.string?
    let ⟨enclosing, _⟩ ← record.member? "enclosing"
    let ⟨inner, _⟩ ← record.member? "inner"
    return .complex display (← read? true enclosing) (← read? true inner)
  | _ => none
termination_by sizeOf json

/-- The semantic type of a document. -/
def ofJson? (json : Json) : Option SemanticType := read? false json

end SemanticType

/-! ## Type tables -/

/-- The document of a type declaration. -/
def TypeDecl.toJson (d : TypeDecl) : Json :=
  .object [("semantic_type", d.semanticType.toJson), ("code_type", .string d.codeType)]

/-- The type declaration of a document. -/
def TypeDecl.ofJson? (json : Json) : Option TypeDecl := do
  let record ← json.record? ["semantic_type", "code_type"]
  let semanticType ← record.field? "semantic_type" SemanticType.ofJson?
  let codeType ← record.field? "code_type" Json.string?
  return { semanticType, codeType }

/-- The document of a type table. -/
def TypeTable.toJson (table : TypeTable) : Json := .array (table.decls.map TypeDecl.toJson)

/-- The type table of a document. -/
def TypeTable.ofJson? (json : Json) : Option TypeTable :=
  (list? TypeDecl.ofJson? json).map TypeTable.ofList

/-! ## Contracts -/

/-- The word for a comparison. -/
def Comparison.word : Comparison → String
  | equal => "EqEq"
  | notEqual => "NotEq"
  | lessEqual => "LtEq"
  | greaterEqual => "GtEq"
  | less => "Lt"
  | greater => "Gt"

/-- The comparison of a document. -/
def Comparison.ofJson? (json : Json) : Option Comparison := do
  let word ← json.word?
  all.find? fun c => c.word = word

/-- The word for an operator. -/
def Operator.word : Operator → String
  | times => "mul"
  | divide => "div"
  | plus => "plus"
  | minus => "minus"

/-- The operator with this word. -/
def Operator.ofWord? (word : String) : Option Operator :=
  all.find? fun o => o.word = word

/-- The document of a number.  An infinity has none and becomes null. -/
def Number.toJson : Number → Json
  | int value => .integer value.toInt
  | float value => if value.isInfinite then .null else .float value

/-- The number of a document. -/
def Number.ofJson? : Json → Option Number
  | .integer n =>
    if Int64.minValue.toInt ≤ n ∧ n ≤ Int64.maxValue.toInt then some (.int (.ofInt n))
    else some (.float (.ofQuotient (n < 0) n.natAbs 1))
  | .float x => some (.float x)
  | _ => none

mutual

/-- The document of a contract. -/
def Contract.toJson : Contract → Json
  | .all clauses => .object [("disjunctions", .array (Clause.toJsonList clauses))]

/-- The documents of clauses. -/
def Clause.toJsonList : List Clause → List Json
  | [] => []
  | c :: rest => Clause.toJson c :: Clause.toJsonList rest

/-- The document of a clause. -/
def Clause.toJson : Clause → Json
  | .any terms inverted =>
    .object [("terms", .array (Term.toJsonList terms)), ("is_inverted", .bool inverted)]

/-- The documents of terms. -/
def Term.toJsonList : List Term → List Json
  | [] => []
  | t :: rest => Term.toJson t :: Term.toJsonList rest

/-- The document of a term. -/
def Term.toJson : Term → Json
  | .comparison left sign right inverted =>
    .object [
      ("kind", .kinded "equality" (.object [
        ("left", Operand.toJson left), ("right", Operand.toJson right),
        ("sign", .string sign.word)])),
      ("is_inverted", .bool inverted)]
  | .lone operand inverted =>
    .object [("kind", .kinded "part" (Operand.toJson operand)), ("is_inverted", .bool inverted)]

/-- The document of an operand. -/
def Operand.toJson : Operand → Json
  | .arithmetic value => .kinded "arithmetic" (Arithmetic.toJson value)
  | .text value => .kinded "string" (.object [("value", .string value)])
  | .group contract => .kinded "boolean_expression" (Contract.toJson contract)

/-- The documents of operands. -/
def Operand.toJsonList : List Operand → List Json
  | [] => []
  | o :: rest => Operand.toJson o :: Operand.toJsonList rest

/-- The document of an arithmetic expression. -/
def Arithmetic.toJson : Arithmetic → Json
  | .variableName name => .kinded "variable" (.object [("name", .string name)])
  | .call name arguments =>
    .kinded "function_call" (.object [
      ("name", .string name), ("args", .array (Operand.toJsonList arguments))])
  | .number value => .kinded "number" (.object [("value", value.toJson)])
  | .binary operator left right =>
    .kinded operator.word (.array [Arithmetic.toJson left, Arithmetic.toJson right])

end

mutual

/-- The contract of a document. -/
def Contract.ofJson? (json : Json) : Option Contract := do
  let record ← json.record? ["disjunctions"]
  let ⟨clauses, _⟩ ← record.member? "disjunctions"
  return .all (← (← clauses.items?).mapM fun ⟨c, _⟩ => Clause.ofJson? c)
termination_by sizeOf json

/-- The clause of a document. -/
def Clause.ofJson? (json : Json) : Option Clause := do
  let record ← json.record? ["terms", "is_inverted"]
  let ⟨terms, _⟩ ← record.member? "terms"
  let inverted ← record.field? "is_inverted" Json.bool?
  return .any (← (← terms.items?).mapM fun ⟨t, _⟩ => Term.ofJson? t) inverted
termination_by sizeOf json

/-- The term of a document. -/
def Term.ofJson? (json : Json) : Option Term := do
  let record ← json.record? ["kind", "is_inverted"]
  let inverted ← record.field? "is_inverted" Json.bool?
  let ⟨node, _⟩ ← record.member? "kind"
  match ← node.kinded? with
  | ("equality", ⟨value, _⟩) =>
    let sides ← value.record? ["left", "right", "sign"]
    let ⟨left, _⟩ ← sides.member? "left"
    let ⟨right, _⟩ ← sides.member? "right"
    let sign ← sides.field? "sign" Comparison.ofJson?
    return .comparison (← Operand.ofJson? left) sign (← Operand.ofJson? right) inverted
  | ("part", ⟨value, _⟩) => return .lone (← Operand.ofJson? value) inverted
  | _ => none
termination_by sizeOf json

/-- The operand of a document. -/
def Operand.ofJson? (json : Json) : Option Operand := do
  match ← json.kinded? with
  | ("arithmetic", ⟨value, _⟩) => return .arithmetic (← Arithmetic.ofJson? value)
  | ("string", ⟨value, _⟩) => return .text (← value.only? "value" Json.string?)
  | ("boolean_expression", ⟨value, _⟩) => return .group (← Contract.ofJson? value)
  | _ => none
termination_by sizeOf json

/-- The arithmetic expression of a document. -/
def Arithmetic.ofJson? (json : Json) : Option Arithmetic := do
  match ← json.kinded? with
  | ("variable", ⟨value, _⟩) => return .variableName (← value.only? "name" Json.string?)
  | ("function_call", ⟨value, _⟩) =>
    let record ← value.record? ["name", "args"]
    let name ← record.field? "name" Json.string?
    let ⟨arguments, _⟩ ← record.member? "args"
    return .call name (← (← arguments.items?).mapM fun ⟨o, _⟩ => Operand.ofJson? o)
  | ("number", ⟨value, _⟩) => return .number (← value.only? "value" Number.ofJson?)
  | (word, ⟨value, _⟩) =>
    let operator ← Operator.ofWord? word
    match ← value.items? with
    | [⟨left, _⟩, ⟨right, _⟩] =>
      return .binary operator (← Arithmetic.ofJson? left) (← Arithmetic.ofJson? right)
    | _ => none
termination_by sizeOf json

end

/-- The document of contracts. -/
def Contracts.toJson (contracts : Contracts) : Json :=
  .object [("requires", ofOption Contract.toJson contracts.requires),
    ("ensures", ofOption Contract.toJson contracts.ensures)]

/-- The contracts of a document. -/
def Contracts.ofJson? (json : Json) : Option Contracts := do
  let record ← json.record? ["requires", "ensures"]
  let requires ← record.optionalField? "requires" Contract.ofJson?
  let ensures ← record.optionalField? "ensures" Contract.ofJson?
  return { requires, ensures }

/-! ## Functions -/

/-- The word for a kind of ownership. -/
def Ownership.word : Ownership → String
  | explicit => "ExplicitBeforeName"
  | handle => "ViaHandleAnnotation"

/-- The ownership of a document. -/
def Ownership.ofJson? (json : Json) : Option Ownership := do
  let word ← json.word?
  [explicit, handle].find? fun o => o.word = word

/-- The document of an argument. -/
def Argument.toJson (a : Argument) : Json :=
  .object [("name", .string a.name), ("arg_type", a.type.toJson),
    ("annotations", ofStrings a.annotations)]

/-- The argument of a document. -/
def Argument.ofJson? (json : Json) : Option Argument := do
  let record ← json.record? ["name", "arg_type", "annotations"]
  let name ← record.field? "name" Json.string?
  let type ← record.field? "arg_type" SemanticType.ofJson?
  let annotations ← record.field? "annotations" strings?
  return { name, type, annotations }

/-- The document of a result. -/
def Result.toJson (r : Result) : Json :=
  .object [("return_type", r.type.toJson), ("annotations", ofStrings r.annotations)]

/-- The result of a document. -/
def Result.ofJson? (json : Json) : Option Result := do
  let record ← json.record? ["return_type", "annotations"]
  let type ← record.field? "return_type" SemanticType.ofJson?
  let annotations ← record.field? "annotations" strings?
  return { type, annotations }

/-- The document of an action. -/
def Action.toJson (a : Action) : Json :=
  .object [("name", .string a.name), ("args", ofStrings a.arguments)]

/-- The action of a document. -/
def Action.ofJson? (json : Json) : Option Action := do
  let record ← json.record? ["name", "args"]
  let name ← record.field? "name" Json.string?
  let arguments ← record.field? "args" strings?
  return { name, arguments }

/-- The document of a property. -/
def Property.toJson (p : Property) : Json :=
  .object [("key", .string p.key), ("value", .string p.value)]

/-- The property of a document. -/
def Property.ofJson? (json : Json) : Option Property := do
  let record ← json.record? ["key", "value"]
  let key ← record.field? "key" Json.string?
  let value ← record.field? "value" Json.string?
  return { key, value }

/-- The document of an assignment. -/
def Assignment.toJson (a : Assignment) : Json :=
  .object [("name", .string a.variableName), ("callee_automaton_name", a.automaton.toJson),
    ("callee_arguments", ofStrings a.arguments)]

/-- The assignment of a document. -/
def Assignment.ofJson? (json : Json) : Option Assignment := do
  let record ← json.record? ["name", "callee_automaton_name", "callee_arguments"]
  let variableName ← record.field? "name" Json.string?
  let automaton ← record.field? "callee_automaton_name" SemanticType.ofJson?
  let arguments ← record.field? "callee_arguments" strings?
  return { variableName, automaton, arguments }

namespace FunctionSpec

/-- The document of a function. -/
def toJson (f : FunctionSpec) : Json :=
  .object [
    ("entity", .object [("entity_type", f.owner.toJson), ("style", .string f.ownership.word)]),
    ("name", .string f.name),
    ("args", .array (f.arguments.map Argument.toJson)),
    ("actions", .array (f.actions.map Action.toJson)),
    ("return_value", ofOption Result.toJson f.result),
    ("static_name", ofOption (fun name => .object [("static_name", .string name)]) f.staticName),
    ("properties", .array (f.properties.map Property.toJson)),
    ("variable_assignments", .array (f.assignments.map Assignment.toJson)),
    ("contracts", f.contracts.toJson),
    ("builtin", .bool f.builtin)]

/-- The owner that a document names, and how it names it. -/
def ownerOfJson? (json : Json) : Option (SemanticType × Ownership) := do
  let record ← json.record? ["entity_type", "style"]
  let owner ← record.field? "entity_type" SemanticType.ofJson?
  let ownership ← record.field? "style" Ownership.ofJson?
  return (owner, ownership)

/-- The function of a document. -/
def ofJson? (json : Json) : Option FunctionSpec := do
  let record ← json.record? ["entity", "name", "args", "actions", "return_value", "static_name",
    "properties", "variable_assignments", "contracts", "builtin"]
  let (owner, ownership) ← record.field? "entity" ownerOfJson?
  let name ← record.field? "name" Json.string?
  let arguments ← record.field? "args" (list? Argument.ofJson?)
  let actions ← record.field? "actions" (list? Action.ofJson?)
  let result ← record.optionalField? "return_value" Result.ofJson?
  let staticName ← record.optionalField? "static_name" (·.only? "static_name" Json.string?)
  let properties ← record.field? "properties" (list? Property.ofJson?)
  let assignments ← record.field? "variable_assignments" (list? Assignment.ofJson?)
  let contracts ← record.field? "contracts" Contracts.ofJson?
  let builtin ← record.field? "builtin" Json.bool?
  return { owner, ownership, name, arguments, actions, result, staticName, properties, assignments,
           contracts, builtin }

end FunctionSpec

/-! ## Automata -/

/-- The document of a state. -/
def State.toJson (s : State) : Json :=
  .object [("name", .string s.name), ("is_finish", .bool s.isFinal)]

/-- The state of a document. -/
def State.ofJson? (json : Json) : Option State := do
  let record ← json.record? ["name", "is_finish"]
  let name ← record.field? "name" Json.string?
  let isFinal ← record.field? "is_finish" Json.bool?
  return { name, isFinal }

/-- The document of a shift. -/
def Shift.toJson (s : Shift) : Json :=
  .object [("from", .string s.source), ("to", .string s.target),
    ("functions", ofStrings s.functions)]

/-- The shift of a document. -/
def Shift.ofJson? (json : Json) : Option Shift := do
  let record ← json.record? ["from", "to", "functions"]
  let source ← record.field? "from" Json.string?
  let target ← record.field? "to" Json.string?
  let functions ← record.field? "functions" strings?
  return { source, target, functions }

/-- The document of a variable. -/
def Variable.toJson (v : Variable) : Json :=
  .object [("kind", .string "variable"), ("name", .string v.name), ("var_type", v.type.toJson)]

/-- The variable of a document. -/
def Variable.ofJson? (json : Json) : Option Variable := do
  match ← (json.tag? "kind").bind Json.string? with
  | "variable" =>
    let record ← json.record? ["kind", "name", "var_type"]
    let name ← record.field? "name" Json.string?
    let type ← record.field? "var_type" (SemanticType.read? true)
    return { name, type }
  | _ => none

namespace Automaton

/-- The document of an automaton. -/
def toJson (a : Automaton) : Json :=
  .object [
    ("name", a.type.toJson),
    ("java_package", ofOption (fun name => .object [("name", .string name)]) a.package),
    ("states", .array (a.states.map State.toJson)),
    ("shifts", .array (a.shifts.map Shift.toJson)),
    ("extendable", .bool a.extendable),
    ("statements", .array (a.vars.map Variable.toJson)),
    ("associated_functions", .array (a.functions.map FunctionSpec.toJson))]

/-- The automaton of a document. -/
def ofJson? (json : Json) : Option Automaton := do
  let record ← json.record? ["name", "java_package", "states", "shifts", "extendable", "statements",
    "associated_functions"]
  let type ← record.field? "name" SemanticType.ofJson?
  let package ← record.optionalField? "java_package" (·.only? "name" Json.string?)
  let states ← record.field? "states" (list? State.ofJson?)
  let shifts ← record.field? "shifts" (list? Shift.ofJson?)
  let extendable ← record.field? "extendable" Json.bool?
  let vars ← record.field? "statements" (list? Variable.ofJson?)
  let functions ← record.field? "associated_functions" (list? FunctionSpec.ofJson?)
  return { type, package, states, shifts, extendable, vars, functions }

end Automaton

/-! ## Libraries -/

/-- The document of a converter. -/
def Converter.toJson (c : Converter) : Json :=
  .object [("entity", c.type.toJson), ("expression", .string c.expression)]

/-- The converter of a document. -/
def Converter.ofJson? (json : Json) : Option Converter := do
  let record ← json.record? ["entity", "expression"]
  let type ← record.field? "entity" SemanticType.ofJson?
  let expression ← record.field? "expression" Json.string?
  return { type, expression }

namespace Library

/-- The document of a library. -/
def toJson (library : Library) : Json :=
  .object [
    ("name", .string library.name),
    ("imports", ofStrings library.imports),
    ("includes", ofStrings library.includes),
    ("automata", .array (library.automata.map Automaton.toJson)),
    ("types", library.types.toJson),
    ("converters", .array (library.converters.map Converter.toJson)),
    ("functions", .array (library.functions.map FunctionSpec.toJson))]

/-- The library of a document. -/
def ofJson? (json : Json) : Option Library := do
  let record ← json.record? ["name", "imports", "includes", "automata", "types", "converters",
    "functions"]
  let name ← record.field? "name" Json.string?
  let imports ← record.field? "imports" strings?
  let includes ← record.field? "includes" strings?
  let automata ← record.field? "automata" (list? Automaton.ofJson?)
  let types ← record.field? "types" TypeTable.ofJson?
  let converters ← record.field? "converters" (list? Converter.ofJson?)
  let functions ← record.field? "functions" (list? FunctionSpec.ofJson?)
  return { name, imports, includes, automata, types, converters, functions }

end Library
end LibrarySpec
