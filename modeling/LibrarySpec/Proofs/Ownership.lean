/-
  Functions are owned as it is written.

  The atoms before the name of a function are joined from the last one on, and a type anywhere else is
  joined as it is read.  Both make the type that the tokens spell, and types are told apart by their
  tokens, so an automaton has a function exactly if the two are written for the same type.

    1. `FunctionNode.ownerTokens`: how the owner is written, before the name or behind the handle.
       An admissible function writes its owner as a tree (`Admissible.exists_owner`).
    2. `TypeNode.readsTokens`: wherever its tokens make a text, a tree is read as its type.
    3. `TypeNode.beq_iff_tokens_eq`: trees mean types of one structure exactly if they have the same
       tokens.

  Main statement: `owned_as_written`.
-/
import LibrarySpec.Completion.Passes
import LibrarySpec.Proofs.Printing.Libraries
import LibrarySpec.Proofs.TypeNames

namespace LibrarySpec

open Grammar LibrarySpec.Parser

namespace Grammar

/-! ## Trees of types -/

namespace TypeNode

variable {n m : TypeNode}

/-- The tokens of a tree are read as its type. -/
theorem readsTokens (h : LegibleLeaves n.leaves) :
    ReadsTokens SemanticType.parser n.tokens n.type :=
  readsTokens_of_prints (prints_typeNode h) n.accepts

/-- Types are told apart by their tokens. -/
theorem beq_iff_tokens_eq (hn : LegibleLeaves n.leaves) (hm : LegibleLeaves m.leaves) :
    (n.type == m.type) = true ↔ n.tokens = m.tokens := by
  constructor
  · intro same
    -- the types are built, so they are the same and have one name
    have same : n.type = m.type := (TypeNode.built hn).eq_of_beq (TypeNode.built hm) same
    have prints := prints_typeNode hn
    rw [same] at prints
    exact tokens_unique prints (prints_typeNode hm)
  · intro tokens
    have read := readsText_of_prints (prints_typeNode hn) n.accepts
    have leaves : m.leaves = n.leaves := by rw [leaves, leaves, tokens]
    have read' := m.accepts
    rw [leaves] at read'
    rw [read.unique (readsText_of_prints (prints_typeNode hn) read')]
    exact BEq.rfl

theorem tokens_ofAtoms (a : TypeAtom) (rest : List TypeAtom) :
    (TypeNode.ofAtoms a rest).tokens = (a :: rest).flatMap TypeAtom.tokens := by
  induction rest generalizing a with
  | nil => exact (List.append_nil _).symm
  | cons b rest ih =>
    rw [List.flatMap_cons, ← ih]
    rfl

end TypeNode

/-! ## Owners -/

namespace FunctionNode

/-- The tokens of the type that owns the function: the atoms before its name if there are any, the
    type of its handle otherwise. -/
def ownerTokens (f : FunctionNode) : List Token :=
  match f.owner, f.handles with
  | first :: rest, _ => (first :: rest).flatMap TypeAtom.tokens
  | [], handle :: _ => handle.type.tokens
  | [], [] => []

/-- An admissible function writes its owner as a tree. -/
theorem Admissible.exists_owner {f : FunctionNode} (h : f.Admissible)
    (legible : LegibleLeaves f.leaves) :
    ∃ n : TypeNode, n.tokens = f.ownerTokens ∧ n.type = f.function.owner
      ∧ LegibleLeaves n.leaves := by
  simp only [FunctionNode.leaves, List.cons_append, List.append_assoc, legibleLeaves_cons,
    legibleLeaves_append] at legible
  obtain ⟨atoms, _, _, arguments, _⟩ := legible
  cases ho : f.owner with
  | cons first rest =>
    rw [ho, List.flatMap_cons, ← TypeNode.leaves_ofAtoms] at atoms
    refine ⟨.ofAtoms first rest, ?_, ?_, atoms⟩
    · rw [ownerTokens, ho, TypeNode.tokens_ofAtoms]
    · rw [function, owned, ho]
  | nil =>
    cases hh : f.handles with
    | nil =>
      have single := h.handle ho
      rw [hh] at single
      cases single
    | cons handle others =>
      have mem : handle ∈ f.handles := by
        rw [hh]
        exact List.mem_cons_self
      have leaves := arguments.of_separate (List.mem_filter.1 mem).1
      simp only [ArgumentNode.leaves, legibleLeaves_append, legibleLeaves_cons] at leaves
      refine ⟨handle.type, ?_, ?_, leaves.2.2.2⟩
      · rw [ownerTokens, ho, hh]
      · rw [function, owned, ho, hh]

end FunctionNode

/-! ## Automata -/

namespace Specification

/-- Owners are what the tokens that are written for them spell, and every automaton has the functions
    that are written with its own tokens, all of them in order. -/
structure OwnedAsWritten (s : Specification) : Prop where
  owners : ∀ f ∈ s.functions, ReadsTokens SemanticType.parser f.ownerTokens f.function.owner
  automata : s.library.associate.automata = s.automata.map fun a =>
    { a.automaton with
      functions := (s.functions.filter fun f => f.ownerTokens = a.type.tokens).map
        FunctionNode.function }

theorem ownedAsWritten {s : Specification} (admissible : s.Admissible)
    (legible : LegibleLeaves s.leaves) : s.OwnedAsWritten := by
  simp only [Specification.leaves, List.cons_append, List.append_assoc, legibleLeaves_cons,
    legibleLeaves_append] at legible
  obtain ⟨_, _, _, _, _, _, _, _, _, automata, _, functions, _⟩ := legible
  have written : ∀ f ∈ s.functions, ∃ n : TypeNode, n.tokens = f.ownerTokens
      ∧ n.type = f.function.owner ∧ LegibleLeaves n.leaves := fun f hf =>
    (admissible.functions f hf).exists_owner (functions.of_flatMap hf)
  refine ⟨fun f hf => ?_, ?_⟩
  · obtain ⟨n, tokens, type, leaves⟩ := written f hf
    rw [← tokens, ← type]
    exact TypeNode.readsTokens leaves
  · show (s.automata.map AutomatonNode.automaton).map _ = _
    rw [List.map_map]
    refine List.map_congr_left fun a ha => ?_
    have leaves : LegibleLeaves a.type.leaves := by
      have leaves := automata.of_flatMap ha
      simp only [AutomatonNode.leaves, List.cons_append, legibleLeaves_cons, legibleLeaves_append]
        at leaves
      exact leaves.2.1.1
    have owned : ∀ f ∈ s.functions, (f.function.owner == a.type.type)
        = decide (f.ownerTokens = a.type.tokens) := by
      intro f hf
      obtain ⟨n, tokens, type, leaves'⟩ := written f hf
      rw [← tokens, ← type, Bool.eq_iff_iff, decide_eq_true_iff]
      exact TypeNode.beq_iff_tokens_eq leaves' leaves
    have functions : (s.functions.map FunctionNode.function).filter (·.owner == a.type.type)
        = (s.functions.filter fun f => f.ownerTokens = a.type.tokens).map
          FunctionNode.function := by
      rw [List.filter_map]
      exact congrArg _ (List.filter_congr owned)
    exact congrArg (fun functions => { a.automaton with functions := functions }) functions

end Specification
end Grammar

namespace Library

/-- In a library that is parsed the functions are owned as it is written, whatever tree derives its
    source. -/
theorem owned_as_written {source : String} {lexemes : List Lexeme} {library : Library}
    (scanned : scan source = .ok lexemes) (parsed : parse source = .ok library) :
    (∃ s : Specification, s.Derives lexemes ∧ s.Admissible)
      ∧ ∀ s : Specification, s.Derives lexemes → s.Admissible →
        s.library = library ∧ s.OwnedAsWritten := by
  rw [parse_of_scan scanned] at parsed
  have derived := ofLexemes_eq_ok_iff (stream_of_scan scanned)
  constructor
  · obtain ⟨s, derives, admissible, _⟩ := (derived library).1 parsed
    exact ⟨s, derives, admissible⟩
  · intro s derives admissible
    have parsed' := (derived s.library).2 ⟨s, derives, admissible, rfl⟩
    exact ⟨Except.ok.inj (parsed'.symm.trans parsed),
      s.ownedAsWritten admissible (legible_of_derives scanned derives)⟩

/-- A source in which two functions are owned by one automaton, one by the atoms before its name and
    one by its handle, and a third function by another automaton. -/
def ownersSource : String :=
  "library l;types\x7b\x7dautomaton A*B[]C\x7b\x7dautomaton A\x7b\x7d"
    ++ "A*B[]C f()\x7b\x7dA k()\x7b\x7dg(@handle h:A*B[]C,i:A)\x7b\x7d"

theorem owned_as_written_ownersSource :
    ∃ lexemes library, scan ownersSource = .ok lexemes ∧ parse ownersSource = .ok library
      ∧ library.associate.automata.map (fun a => a.functions.map (·.name)) = [["f", "g"], ["k"]]
      ∧ ∃ s : Specification, s.library = library ∧ s.OwnedAsWritten := by
  have checked : ((parse ownersSource).toOption.any fun l => decide
      (l.associate.automata.map (fun a => a.functions.map (·.name)) = [["f", "g"], ["k"]])) = true := by
    decide +kernel
  cases parsed : parse ownersSource with
  | error fault =>
    rw [parsed] at checked
    cases checked
  | ok library =>
    cases scanned : scan ownersSource with
    | error fault =>
      rw [parse, scanned] at parsed
      cases parsed
    | ok lexemes =>
      rw [parsed] at checked
      obtain ⟨⟨s, derives, admissible⟩, whatever⟩ := owned_as_written scanned parsed
      exact ⟨lexemes, library, rfl, rfl, of_decide_eq_true checked, s, whatever s derives admissible⟩

end Library
end LibrarySpec
