/-
  Completing a completed library.

  `Settled` gathers what holds behind the six passes, all of it at once.  A run ends in a settled
  library (`settled_of_run`), association keeps a library settled, and on a settled library the five
  passes behind association change nothing.  So a second run only fills in the functions of the
  automata, and a third does nothing at all (`run_run`).

  Nothing is asked of the library: types, automata, states and functions may be there twice.
-/
import LibrarySpec.Proofs.Completion.Additions

namespace LibrarySpec

open Library

/-! ## Settled libraries -/

/-- A library to which no pass but association has anything to add. -/
structure Settled (c : Completion) (l : Library) : Prop where
  complex : c.rules ≠ none → l.ComplexDeclared
  arrays : c.arrayConversion ≠ none → l.ArraysDeclared
  handlers : l.Handled
  states : l.StatesDefault
  owners : l.OwnersHaveAutomata

/-- Association keeps a library settled. -/
theorem Settled.associate {c : Completion} {l : Library} (h : Settled c l) :
    Settled c l.associate := by
  refine ⟨h.complex, h.arrays, h.handlers, ?_, ?_⟩
  · intro a ha
    obtain ⟨b, hb, rfl⟩ := List.mem_map.1 ha
    exact h.states b hb
  · intro f hf
    have owner := h.owners f hf
    rw [automaton?, List.isSome_find?] at owner ⊢
    rw [Library.associate, List.any_map]
    exact owner

namespace Completion

/-! ## Runs -/

/-- Where the types are declared that completion asks for, only the other passes run. -/
theorem run_of_declared {c : Completion} {l : Library}
    (complex : c.rules ≠ none → l.ComplexDeclared)
    (arrays : c.arrayConversion ≠ none → l.ArraysDeclared) :
    c.run l = .ok l.associate.addHandlers.addDefaultStates.addMissingAutomata := by
  have complex : c.declareComplexTypes l.associate = .ok l.associate := by
    unfold declareComplexTypes
    split
    · rename_i rules hrules
      exact declareComplexTypes_eq_self rules (complex (by simp [hrules]))
    · rfl
  have arrays : c.declareArrayTypes l.associate = .ok l.associate := by
    unfold declareArrayTypes
    split
    · rename_i convert hconvert
      exact declareArrayTypes_eq_self convert (arrays (by simp [hconvert]))
    · rfl
  unfold run
  rw [complex]
  show (c.declareArrayTypes l.associate >>= fun declared =>
    pure declared.addHandlers.addDefaultStates.addMissingAutomata) = _
  rw [arrays]
  rfl

/-- A settled library is only associated. -/
theorem run_of_settled {c : Completion} {l : Library} (h : Settled c l) :
    c.run l = .ok l.associate := by
  have settled := h.associate
  rw [run_of_declared h.complex h.arrays, addHandlers_eq_self settled.handlers,
    addDefaultStates_eq_self settled.states, addMissingAutomata_eq_self settled.owners]

/-- A library with sound additions is settled, for a builtin function has neither arguments nor a
    result. -/
theorem settled_extended {c : Completion} {l : Library} {a : Additions} (h : a.Sound c l) :
    Settled c (l.extended a) where
  complex := by
    intro rules f hf t ht complex
    rcases List.mem_append.1 hf with hf | hf
    · exact h.declared (List.mem_append_left _ (mem_wantedComplex.2 ⟨rules, ⟨f, hf, ht⟩, complex⟩))
    · obtain ⟨_, _, rfl⟩ := List.mem_map.1 hf
      cases ht
  arrays := by
    intro conversion
    refine arraysDeclared_iff.2 fun f hf x hx array => ?_
    rcases List.mem_append.1 hf with hf | hf
    · exact h.declared (List.mem_append_right _
        (mem_wantedArrays.2 ⟨conversion, ⟨f, hf, x, hx, rfl⟩, array⟩))
    · obtain ⟨_, _, rfl⟩ := List.mem_map.1 hf
      cases hx
  handlers := by
    intro x hx
    obtain ⟨y, hy, same⟩ := h.handlers.complete x hx
    refine List.any_eq_true.2 ?_
    rcases List.mem_append.1 hy with hy | hy
    · obtain ⟨f, hf, rfl⟩ := List.mem_map.1 hy
      exact ⟨f, List.mem_append_left _ hf, same⟩
    · exact ⟨.synthetic y.1 y.2, List.mem_append_right _ (List.mem_map_of_mem hy), same⟩
  states := by
    intro x hx
    rcases List.mem_append.1 hx with hx | hx
    · obtain ⟨y, _, rfl⟩ := List.mem_map.1 hx
      exact firstsBy_append_firstsBy y.states State.defaults
    · obtain ⟨t, _, rfl⟩ := List.mem_map.1 hx
      rfl
  owners := by
    intro f hf
    obtain ⟨t, ht, same⟩ := h.automata.complete f.owner
      (List.mem_append_right _ (List.mem_map_of_mem hf))
    rw [automaton?, List.isSome_find?, List.any_eq_true]
    rcases List.mem_append.1 ht with ht | ht
    · obtain ⟨x, hx, rfl⟩ := List.mem_map.1 ht
      exact ⟨_, List.mem_append_left _ (List.mem_map_of_mem hx), same⟩
    · exact ⟨freshAutomaton t, List.mem_append_right _ (List.mem_map_of_mem ht), same⟩

/-- A run ends in a settled library. -/
theorem settled_of_run {c : Completion} {l d : Library} (h : c.run l = .ok d) : Settled c d := by
  obtain ⟨a, rfl, sound⟩ := exists_additions h
  exact settled_extended sound

/-- A second run changes nothing but the functions of the automata, a third nothing at all. -/
theorem run_run (c : Completion) {l d : Library} (h : c.run l = .ok d) :
    c.run d = .ok d.associate ∧ c.run d.associate = .ok d.associate := by
  have settled := settled_of_run h
  refine ⟨run_of_settled settled, ?_⟩
  rw [run_of_settled settled.associate, associate_associate]

/-- A library with an undeclared array type in a signature. -/
def byteWriter : Library where
  name := "files"
  imports := []
  includes := []
  automata := []
  types := .ofList [⟨.simple "Byte", "u8"⟩]
  converters := []
  functions := [{ FunctionSpec.synthetic (.simple "File") "write" with
    arguments := [⟨"data", .array (.simple "Byte"), []⟩]
    builtin := false }]

/-- The completed form: the array type is declared, it has an automaton and builtin functions, and
    the owner of the function has an automaton as well. -/
def completedByteWriter : Library :=
  ((byteWriter.associate.declare (.array (.simple "Byte")) "u8[]").withAutomaton
    (.bare (.array (.simple "Byte")))).addHandlers.addDefaultStates.addMissingAutomata

theorem run_run_byteWriter :
    run ⟨some (.ofList [("[]", "{}[]")]), none⟩ byteWriter = .ok completedByteWriter
      ∧ run ⟨some (.ofList [("[]", "{}[]")]), none⟩ completedByteWriter
        = .ok completedByteWriter.associate
      ∧ run ⟨some (.ofList [("[]", "{}[]")]), none⟩ completedByteWriter.associate
        = .ok completedByteWriter.associate :=
  ⟨rfl, run_run _ (l := byteWriter) rfl⟩

end Completion
end LibrarySpec
