/-
  The specification of a library.

  A `Library` names the types, the automata and the functions of a software library.  An automaton
  describes the life of the objects of one semantic type: the states they pass through, and the
  shifts from state to state that functions cause.  A function is owned by the automaton of one
  semantic type.  The type either stands before the function's name, or is that of the one argument
  annotated as the handle; the `Ownership` records which.

  Lists keep the order of the source.  `==` compares libraries part by part, semantic types by
  structure and floating-point numbers as numbers.
-/
import LibrarySpec.Contract.Basic
import LibrarySpec.TypeTable

namespace LibrarySpec

/-! ## Functions -/

/-- How a function names its owner. -/
inductive Ownership where
  /-- The type stands before the name. -/
  | explicit
  /-- An argument is annotated as the handle. -/
  | handle
deriving BEq, DecidableEq, Repr

/-- An argument of a function. -/
structure Argument where
  name : String
  type : SemanticType
  annotations : List String
deriving BEq, DecidableEq

/-- Whether an argument carries this annotation. -/
def Argument.isMarked (argument : Argument) (mark : String) : Bool :=
  argument.annotations.contains mark

/-- What a function returns. -/
structure Result where
  type : SemanticType
  annotations : List String
deriving BEq, DecidableEq

/-- An action that a function performs. -/
structure Action where
  name : String
  arguments : List String
deriving BEq, DecidableEq

/-- A named property with a verbatim value. -/
structure Property where
  key : String
  value : String
deriving BEq, DecidableEq

/-- A variable set to a new automaton. -/
structure Assignment where
  variableName : String
  automaton : SemanticType
  arguments : List String
deriving BEq, DecidableEq

/-- The conditions of a function. -/
structure Contracts where
  requires : Option Contract
  ensures : Option Contract
deriving BEq

/-- No conditions. -/
def Contracts.none : Contracts := ⟨.none, .none⟩

/-- Whether there are no conditions. -/
def Contracts.isEmpty (contracts : Contracts) : Bool :=
  contracts.requires.isNone && contracts.ensures.isNone

/-- The specification of one function. -/
structure FunctionSpec where
  owner : SemanticType
  ownership : Ownership
  name : String
  arguments : List Argument
  actions : List Action
  result : Option Result
  /-- The name of a static function; empty when it is declared static without one. -/
  staticName : Option String
  properties : List Property
  assignments : List Assignment
  contracts : Contracts
  /-- Whether the function was made by completion and not declared in a source. -/
  builtin : Bool
deriving BEq

namespace FunctionSpec

/-- A function made by completion: an owner, a name and nothing else. -/
def synthetic (owner : SemanticType) (name : String) : FunctionSpec where
  owner := owner
  ownership := .explicit
  name := name
  arguments := []
  actions := []
  result := none
  staticName := none
  properties := []
  assignments := []
  contracts := .none
  builtin := true

/-- The types of the arguments and then of the result. -/
def signature (f : FunctionSpec) : List SemanticType :=
  f.arguments.map (·.type) ++ f.result.toList.map (·.type)

end FunctionSpec

/-! ## Automata -/

/-- A state of an automaton. -/
structure State where
  name : String
  isFinal : Bool
deriving BEq, DecidableEq, Repr

/-- A shift between states, with the functions that cause it. -/
structure Shift where
  source : String
  target : String
  functions : List String
deriving BEq, DecidableEq, Repr

/-- A variable of an automaton. -/
structure Variable where
  name : String
  type : SemanticType
deriving BEq, DecidableEq

/-- The automaton of a semantic type. -/
structure Automaton where
  type : SemanticType
  package : Option String
  states : List State
  shifts : List Shift
  extendable : Bool
  vars : List Variable
  /-- The functions it owns; completion fills them in. -/
  functions : List FunctionSpec
deriving BEq

namespace Automaton

/-- An automaton of which nothing is known but its type. -/
def bare (type : SemanticType) : Automaton where
  type := type
  package := none
  states := []
  shifts := []
  extendable := false
  vars := []
  functions := []

/-- The state with this name. -/
def state? (automaton : Automaton) (name : String) : Option State :=
  automaton.states.find? (·.name == name)

end Automaton

/-! ## Libraries -/

/-- A verbatim conversion expression for a type. -/
structure Converter where
  type : SemanticType
  expression : String
deriving BEq, DecidableEq

/-- The specification of a library. -/
structure Library where
  name : String
  imports : List String
  includes : List String
  automata : List Automaton
  types : TypeTable
  converters : List Converter
  functions : List FunctionSpec
deriving BEq

namespace Library

/-- The automaton of a type. -/
def automaton? (library : Library) (type : SemanticType) : Option Automaton :=
  library.automata.find? (·.type == type)

/-- The first function with this name. -/
def function? (library : Library) (name : String) : Option FunctionSpec :=
  library.functions.find? (·.name == name)

/-- The array types of arguments, each once. -/
def argumentArrays (library : Library) : List SemanticType :=
  SemanticType.arrays (library.functions.flatMap fun f => f.arguments.map (·.type))

end Library
end LibrarySpec
