/-
  The grammar of library specifications: declarations.

  The trees of `Proofs/Grammar/Basic.lean` go up to types, contracts and verbatim text.  Here are
  those of the declarations, up to the start symbol `Specification`.

  What a tree means keeps the order of the source within each kind of declaration.  The states of an
  automaton are those of its `states` items, then those of its `finishstate` items.  The properties
  of a function are sorted by kind.  A function with atoms before its name is owned by the type that
  the atoms make; any other is owned by the type of its handle argument.
-/
import LibrarySpec.Proofs.Grammar.Basic

namespace LibrarySpec.Grammar

/-! ## Types and converters -/

/-- A type declaration. -/
structure DeclarationNode where
  type : TypeNode
  code : RawText

namespace DeclarationNode

/-- The leaves of a type declaration. -/
def leaves (d : DeclarationNode) : List Leaf :=
  d.type.leaves ++ [sym .openParen, d.code.leaf, sym .closeParen, sym .semicolon]

/-- The declaration. -/
def decl (d : DeclarationNode) : TypeDecl := ⟨d.type.type, d.code.source⟩

/-- The code type ends at its parenthesis. -/
def Admissible (d : DeclarationNode) : Prop := d.code.EndsAt .closeParen

end DeclarationNode

/-- A converter. -/
structure ConverterNode where
  type : TypeNode
  expression : RawText

namespace ConverterNode

/-- The leaves of a converter. -/
def leaves (c : ConverterNode) : List Leaf :=
  c.type.leaves ++ [sym .less, sym .minus, c.expression.leaf, sym .semicolon]

/-- The converter. -/
def converter (c : ConverterNode) : Converter := ⟨c.type.type, c.expression.source⟩

/-- The expression ends at its semicolon. -/
def Admissible (c : ConverterNode) : Prop := c.expression.EndsAt .semicolon

end ConverterNode

/-! ## Automata -/

/-- One item in the body of an automaton. -/
inductive ItemNode where
  | extendable
  | package (name : Chain String)
  | variableItem (name : String) (type : TypeNode)
  | states (names : Chain String)
  | finalState (name : String)
  | shift (source target : String) (functions : Chain String)

namespace ItemNode

/-- The leaves of an item up to its semicolon. -/
def body : ItemNode → List Leaf
  | extendable => [kw .extendable]
  | package name => kw .javaPackage :: names .dot name.toList
  | variableItem name type => kw .var :: ident name :: sym .colon :: type.leaves
  | states items => kw .states :: names .comma items.toList
  | finalState name => [kw .finishState, ident name]
  | shift source target functions =>
    kw .shift :: ident source :: sym .arrow :: ident target :: sym .openParen
      :: names .comma functions.toList ++ [sym .closeParen]

/-- The leaves of an item. -/
def leaves (i : ItemNode) : List Leaf := i.body ++ [sym .semicolon]

/-- The name of the package, if the item is one. -/
def package? : ItemNode → Option String
  | package name => some (".".intercalate name.toList)
  | _ => none

/-- The variable, if the item is one. -/
def declared? : ItemNode → Option Variable
  | variableItem name type => some ⟨name, type.type⟩
  | _ => none

/-- The states that an item declares as not final. -/
def plainStates : ItemNode → List State
  | states items => items.toList.map fun name => ⟨name, false⟩
  | _ => []

/-- The state that an item declares as final, if it does. -/
def finalState? : ItemNode → Option State
  | finalState name => some ⟨name, true⟩
  | _ => none

/-- The shift, if the item is one. -/
def shift? : ItemNode → Option Shift
  | shift source target functions => some ⟨source, target, functions.toList⟩
  | _ => none

/-- Whether the item declares the automaton extendable. -/
def isExtendable : ItemNode → Bool
  | extendable => true
  | _ => false

end ItemNode

/-- An automaton. -/
structure AutomatonNode where
  type : TypeNode
  items : List ItemNode

namespace AutomatonNode

/-- The leaves of an automaton. -/
def leaves (a : AutomatonNode) : List Leaf :=
  kw .automaton :: a.type.leaves
    ++ sym .openBrace :: a.items.flatMap ItemNode.leaves ++ [sym .closeBrace]

/-- The automaton; it has no functions yet. -/
def automaton (a : AutomatonNode) : Automaton where
  type := a.type.type
  package := (a.items.filterMap ItemNode.package?).head?
  states := a.items.flatMap ItemNode.plainStates ++ a.items.filterMap ItemNode.finalState?
  shifts := a.items.filterMap ItemNode.shift?
  extendable := a.items.any ItemNode.isExtendable
  vars := a.items.filterMap ItemNode.declared?
  functions := []

/-- There is at most one package. -/
def Admissible (a : AutomatonNode) : Prop :=
  (a.items.filterMap ItemNode.package?).length ≤ 1

end AutomatonNode

/-! ## Functions -/

/-- The leaves of annotations. -/
def markLeaves (marks : List String) : List Leaf :=
  marks.flatMap fun mark => [sym .atSign, ident mark]

/-- An argument. -/
structure ArgumentNode where
  marks : List String
  name : String
  type : TypeNode

namespace ArgumentNode

/-- The leaves of an argument. -/
def leaves (a : ArgumentNode) : List Leaf :=
  markLeaves a.marks ++ ident a.name :: sym .colon :: a.type.leaves

/-- The argument. -/
def argument (a : ArgumentNode) : Argument := ⟨a.name, a.type.type, a.marks⟩

end ArgumentNode

/-- A result. -/
structure ResultNode where
  marks : List String
  type : TypeNode

namespace ResultNode

/-- The leaves of a result. -/
def leaves (r : ResultNode) : List Leaf := sym .colon :: markLeaves r.marks ++ r.type.leaves

/-- The result. -/
def result (r : ResultNode) : Result := ⟨r.type.type, r.marks⟩

end ResultNode

/-- One property in the body of a function. -/
inductive PropertyNode where
  | action (name : String) (arguments : List String)
  | static (name : Option String)
  | property (key : String) (value : RawText)
  | assignment (name : String) (automaton : TypeNode) (arguments : List String)

namespace PropertyNode

/-- The leaves of a property up to its semicolon. -/
def body : PropertyNode → List Leaf
  | action name arguments =>
    kw .action :: ident name :: sym .openParen :: names .comma arguments ++ [sym .closeParen]
  | static name => kw .static :: name.toList.map ident
  | property key value => [kw .property, ident key, sym .assign, value.leaf]
  | assignment name automaton arguments =>
    ident name :: sym .assign :: kw .new :: automaton.leaves
      ++ sym .openParen :: names .comma arguments ++ [sym .closeParen]

/-- The leaves of a property. -/
def leaves (p : PropertyNode) : List Leaf := p.body ++ [sym .semicolon]

/-- The action, if the property is one. -/
def action? : PropertyNode → Option Action
  | action name arguments => some ⟨name, arguments⟩
  | _ => none

/-- The name of the static declaration, if the property is one; it may be empty. -/
def static? : PropertyNode → Option String
  | static name => some (name.getD "")
  | _ => none

/-- The named property, if the property is one. -/
def property? : PropertyNode → Option Property
  | property key value => some ⟨key, value.source⟩
  | _ => none

/-- The assignment, if the property is one. -/
def assignment? : PropertyNode → Option Assignment
  | assignment name automaton arguments => some ⟨name, automaton.type, arguments⟩
  | _ => none

/-- A value ends at its semicolon. -/
def Admissible : PropertyNode → Prop
  | property _ value => value.EndsAt .semicolon
  | _ => True

end PropertyNode

/-- A function. -/
structure FunctionNode where
  /-- The atoms before the name. -/
  owner : List TypeAtom
  name : String
  arguments : List ArgumentNode
  requires : Option Conjunction
  ensures : Option Conjunction
  result : Option ResultNode
  properties : List PropertyNode

namespace FunctionNode

/-- The leaves of a contract behind its keyword. -/
def clauseLeaves (opening : Keyword) : Option Conjunction → List Leaf
  | none => []
  | some contract => kw opening :: contract.leaves

/-- The leaves of a function. -/
def leaves (f : FunctionNode) : List Leaf :=
  f.owner.flatMap TypeAtom.leaves
    ++ ident f.name :: sym .openParen :: separate .comma ArgumentNode.leaves f.arguments
    ++ sym .closeParen :: clauseLeaves .requires f.requires ++ clauseLeaves .ensures f.ensures
    ++ f.result.elim [] ResultNode.leaves
    ++ sym .openBrace :: f.properties.flatMap PropertyNode.leaves ++ [sym .closeBrace]

/-- The arguments annotated as the handle. -/
def handles (f : FunctionNode) : List ArgumentNode := f.arguments.filter (·.marks.contains "handle")

/-- The type that owns the function and how it is named.  A function without a type before its name
    and without a handle has no owner; it is not admissible. -/
def owned (f : FunctionNode) : SemanticType × Ownership :=
  match f.owner, f.handles with
  | first :: rest, _ => ((TypeNode.ofAtoms first rest).type, .explicit)
  | [], handle :: _ => (handle.type.type, .handle)
  | [], [] => (.simple f.name, .handle)

/-- The function. -/
def function (f : FunctionNode) : FunctionSpec where
  owner := f.owned.1
  ownership := f.owned.2
  name := f.name
  arguments := f.arguments.map ArgumentNode.argument
  actions := f.properties.filterMap PropertyNode.action?
  result := f.result.map ResultNode.result
  staticName := (f.properties.filterMap PropertyNode.static?).head?
  properties := f.properties.filterMap PropertyNode.property?
  assignments := f.properties.filterMap PropertyNode.assignment?
  contracts := ⟨f.requires.map Conjunction.contract, f.ensures.map Conjunction.contract⟩
  builtin := false

/-- There is at most one static declaration, every value ends at its semicolon, and a function
    without a type before its name has exactly one handle. -/
structure Admissible (f : FunctionNode) : Prop where
  statics : (f.properties.filterMap PropertyNode.static?).length ≤ 1
  properties : ∀ p ∈ f.properties, p.Admissible
  handle : f.owner = [] → f.handles.length = 1

end FunctionNode

/-! ## Specifications -/

/-- The specification of a library. -/
structure Specification where
  name : String
  imports : List (Chain String)
  includes : List (Chain String)
  types : List DeclarationNode
  automata : List AutomatonNode
  converters : Option (List ConverterNode)
  functions : List FunctionNode

namespace Specification

/-- The leaves of dotted names, each behind a keyword and in front of a semicolon. -/
def namesLeaves (opening : Keyword) (items : List (Chain String)) : List Leaf :=
  items.flatMap fun name => kw opening :: names .dot name.toList ++ [sym .semicolon]

/-- The leaves of the converters section, which may be missing. -/
def convertersLeaves : Option (List ConverterNode) → List Leaf
  | none => []
  | some items =>
    kw .converters :: sym .openBrace :: items.flatMap ConverterNode.leaves ++ [sym .closeBrace]

/-- The leaves of a specification, the end of the input among them. -/
def leaves (s : Specification) : List Leaf :=
  kw .library :: ident s.name :: sym .semicolon :: namesLeaves .importName s.imports
    ++ namesLeaves .includeName s.includes
    ++ kw .types :: sym .openBrace :: s.types.flatMap DeclarationNode.leaves
    ++ sym .closeBrace :: s.automata.flatMap AutomatonNode.leaves
    ++ convertersLeaves s.converters
    ++ s.functions.flatMap FunctionNode.leaves
    ++ [.token .eof]

/-- The library that a specification means. -/
def library (s : Specification) : Library where
  name := s.name
  imports := s.imports.map fun name => ".".intercalate name.toList
  includes := s.includes.map fun name => ".".intercalate name.toList
  automata := s.automata.map AutomatonNode.automaton
  types := .ofList (s.types.map DeclarationNode.decl)
  converters := (s.converters.getD []).map ConverterNode.converter
  functions := s.functions.map FunctionNode.function

/-- The side conditions of the grammar. -/
structure Admissible (s : Specification) : Prop where
  types : ∀ d ∈ s.types, d.Admissible
  automata : ∀ a ∈ s.automata, a.Admissible
  converters : ∀ c ∈ s.converters.getD [], c.Admissible
  functions : ∀ f ∈ s.functions, f.Admissible

/-- The lexemes are derived by the tree. -/
def Derives (s : Specification) (lexemes : List Lexeme) : Prop := Spells s.leaves lexemes

end Specification
end LibrarySpec.Grammar
