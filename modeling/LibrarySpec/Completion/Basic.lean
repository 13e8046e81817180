/-
  Completion: the passes in their one order.

  A `Completion` says which of the optional passes run: the declaration of composite types, if there
  are rules, and the declaration of array types, if there is a way to make the code type of an array.
  The order is fixed, so `run` is a function of the completion and the library.  A run that fails
  leaves nothing behind.
-/
import LibrarySpec.Completion.Passes

namespace LibrarySpec

/-- Which optional passes run, and on what. -/
structure Completion where
  rules : Option Rules
  arrayConversion : Option (String → String)

namespace Completion

/-- Only the passes that always run. -/
def plain : Completion := ⟨none, none⟩

/-- The names of the passes, in the order in which they run. -/
def steps (c : Completion) : List String :=
  ["associate_automata_with_functions"]
    ++ (if c.rules.isSome then ["add_complex_types_decls"] else [])
    ++ (if c.arrayConversion.isSome then ["add_array_type_decls"] else [])
    ++ ["generate_handlers_for_array_and_pointer_types", "add_default_states",
        "add_missing_automata"]

/-- The declaration of composite types, if there are rules. -/
def declareComplexTypes (c : Completion) (library : Library) : Except Fault Library :=
  match c.rules with
  | some rules => library.declareComplexTypes rules
  | none => .ok library

/-- The declaration of array types, if there is a conversion. -/
def declareArrayTypes (c : Completion) (library : Library) : Except Fault Library :=
  match c.arrayConversion with
  | some convert => library.declareArrayTypes convert
  | none => .ok library

/-- The completed library. -/
def run (c : Completion) (library : Library) : Except Fault Library := do
  let declared ← c.declareComplexTypes library.associate
  let declared ← c.declareArrayTypes declared
  return declared.addHandlers.addDefaultStates.addMissingAutomata

end Completion
end LibrarySpec
