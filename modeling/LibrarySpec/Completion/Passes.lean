/-
  The passes of completion.

  A pass takes a library and answers a new one in which something derived is filled in.  What is
  there already stays where it is; what is new goes to the end of its list, in the order in which
  the library gives rise to it.

    1. `associate`: every automaton gets the functions it owns.
    2. `declareComplexTypes`: composite types of signatures are declared by conversion rules.
    3. `declareArrayTypes`: array types of arguments are declared from their items.
    4. `addHandlers`: array and pointer types get their builtin functions.
    5. `addDefaultStates`: every automaton gets the states that all automata have.
    6. `addMissingAutomata`: every owner gets an automaton.

  Only the passes that declare types can fail, when a code type they need is not known.
-/
import LibrarySpec.Completion.Rules
import LibrarySpec.Library.Basic

namespace LibrarySpec

/-- The states that all automata have. -/
def State.defaults : List State :=
  [⟨"Created", false⟩, ⟨"Constructed", false⟩, ⟨"Closed", true⟩]

/-- What the names of the builtin functions of a type begin with. -/
def FunctionSpec.handlerNames : List String := ["set", "get", "mem_alloc"]

/-- Elements of a list without those equal to an earlier one by some key. -/
def firstsBy {α β : Type} [BEq β] (key : α → β) (items : List α) : List α :=
  items.foldl (fun found a => if found.any (key · == key a) then found else found ++ [a]) []

namespace Library

/-! ## Association -/

/-- Every automaton with the functions whose owner is its type. -/
def associate (library : Library) : Library :=
  { library with
    automata := library.automata.map fun a =>
      { a with functions := library.functions.filter (·.owner == a.type) } }

/-! ## Declarations -/

/-- The composite types of signatures that are not declared, each once. -/
def undeclaredTypes (library : Library) : List SemanticType :=
  firstsBy id ((library.functions.flatMap (·.signature)).filter fun t =>
    t.isComplex && !library.types.contains t)

/-- The library with an automaton of this type, a bare one if it has none yet. -/
def withAutomaton (library : Library) (a : Automaton) : Library :=
  if (library.automaton? a.type).isSome then library
  else { library with automata := library.automata ++ [a] }

/-- The library with one more type declaration. -/
def declare (library : Library) (type : SemanticType) (codeType : String) : Library :=
  { library with types := library.types.push ⟨type, codeType⟩ }

/-- Declares every composite type of a signature by the rules, and gives each newly declared type an
    automaton. -/
def declareComplexTypes (library : Library) (rules : Rules) : Except Fault Library :=
  library.undeclaredTypes.foldlM (fun current t => do
    let codeType ← rules.render current.types t
    return (current.declare t codeType).withAutomaton (.bare t)) library

/-- Declares every array type of an argument; `convert` makes the code type of an array from that of
    its item. -/
def declareArrayTypes (library : Library) (convert : String → String) : Except Fault Library :=
  library.argumentArrays.foldlM (fun current t =>
    match t.inner? with
    | none => .ok current
    | some item =>
      if current.types.contains t then .ok current
      else do
        let itemDecl ← current.types.get item
        return current.declare t (convert itemDecl.codeType)) library

/-! ## Handlers -/

/-- The first declarations of array and pointer types. -/
def handledDecls (library : Library) : List TypeDecl :=
  firstsBy (·.semanticType)
    (library.types.decls.filter fun d => d.semanticType.isArray || d.semanticType.isPointer)

/-- The functions with one more builtin function, unless its owner has one of that name. -/
def addHandler (functions : List FunctionSpec) (owner : SemanticType) (name : String) :
    List FunctionSpec :=
  if functions.any fun f => f.owner == owner && f.name == name then functions
  else functions ++ [.synthetic owner name]

/-- Gives every array and pointer type its builtin functions, named after its code type. -/
def addHandlers (library : Library) : Library :=
  let handlers := library.handledDecls.flatMap fun d =>
    FunctionSpec.handlerNames.map fun h => (d.semanticType, h ++ "<" ++ d.codeType ++ ">")
  { library with
    functions := handlers.foldl (fun functions (owner, name) => addHandler functions owner name)
      library.functions }

/-! ## States and automata -/

/-- Gives every automaton the default states; of two states with one name the first counts. -/
def addDefaultStates (library : Library) : Library :=
  { library with
    automata := library.automata.map fun a =>
      { a with states := firstsBy (·.name) (a.states ++ State.defaults) } }

/-- Gives every owner of a function an automaton; a new one has the default states. -/
def addMissingAutomata (library : Library) : Library :=
  library.functions.foldl (fun current f =>
    current.withAutomaton { Automaton.bare f.owner with states := State.defaults }) library

end Library
end LibrarySpec
