/-
  The parser accepts exactly its grammar.

  A text is parsed to a library if and only if it is cut into lexemes that an admissible
  specification derives, and the library is the one that the specification means.  Both directions
  meet at the lexemes: what the scanner answers is legible, so it is a stream on which the parser
  reads nothing but trees (`library_eq_ok`) and passes every tree (`accepts_library`).

  Parsing is a function, so all the derivations of a text mean one library, although the grammar is
  ambiguous.
-/
import LibrarySpec.Proofs.Grammar.LibraryAccepting
import LibrarySpec.Proofs.Scanning.Lexemes

namespace LibrarySpec

open Grammar LibrarySpec.Parser

theorem eq_ok_of_toOption {ε α : Type} {answer : Except ε α} {a : α}
    (h : answer.toOption = some a) : answer = .ok a := by
  cases answer with
  | error => cases h
  | ok => exact congrArg Except.ok (Option.some.inj h)

/-- An answer is known by a check that it passes. -/
theorem exists_ok_of_any {ε α : Type} {answer : Except ε α} {p : α → Bool}
    (h : answer.toOption.any p = true) : ∃ a, answer = .ok a ∧ p a = true := by
  obtain ⟨a, found, passed⟩ := (Option.any_eq_true p answer.toOption).1 h
  exact ⟨a, eq_ok_of_toOption found, passed⟩

/-- What the scanner answers is a stream. -/
theorem stream_of_scan {source : String} {lexemes : List Lexeme}
    (h : scan source = .ok lexemes) : Stream lexemes :=
  (legible_of_scanFrom h).1.stream

namespace Library

theorem parse_of_scan {source : String} {lexemes : List Lexeme}
    (h : scan source = .ok lexemes) : parse source = ofLexemes lexemes := by
  rw [parse, h]

/-- On a stream the answer is the meaning of a derivation. -/
theorem ofLexemes_eq_ok_iff {lexemes : List Lexeme} (st : Stream lexemes) (library : Library) :
    ofLexemes lexemes = .ok library
      ↔ ∃ s : Specification, s.Derives lexemes ∧ s.Admissible ∧ s.library = library := by
  have whole : ofLexemes lexemes = (parser (.ofList lexemes)).map (·.1) := rfl
  rw [whole]
  constructor
  · intro h
    cases hp : parser (.ofList lexemes) with
    | error fault =>
      rw [hp] at h
      cases h
    | ok r =>
      rw [hp] at h
      cases h
      obtain ⟨s, admissible, value, spelled⟩ := library_eq_ok (c := .ofList lexemes) st hp
      exact ⟨s, spelled, admissible, value⟩
  · rintro ⟨s, derives, admissible, rfl⟩
    obtain ⟨c', hc', _⟩ := accepts_library s admissible (c := .ofList lexemes) st derives
    rw [hc']
    rfl

/-- A text is parsed to a library exactly if its lexemes are derived by an admissible specification
    with that meaning. -/
theorem parse_eq_ok_iff (source : String) (library : Library) :
    parse source = .ok library
      ↔ ∃ lexemes, scan source = .ok lexemes
        ∧ ∃ s : Specification, s.Derives lexemes ∧ s.Admissible ∧ s.library = library := by
  cases hs : scan source with
  | error fault =>
    have failed : parse source = .error (.syntactic fault) := by rw [parse, hs]
    simp [failed]
  | ok lexemes =>
    rw [parse_of_scan hs, ofLexemes_eq_ok_iff (stream_of_scan hs)]
    simp

end Library
end LibrarySpec
