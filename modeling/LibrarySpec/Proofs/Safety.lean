/-
  Parsing is safe, and every fault is located.

  A text is parsed to a library, or a function of it has no single owner, or the message of the fault
  ends with the line and column of a place of the text.  Nothing else is answered: every way to fail
  that a stream cut short would open is closed by the end of the input.

  `SafelyParsed` says why, for the lexemes of a text:

    1. the parser stops in front of the last lexeme or fails, and does neither otherwise if more
       lexemes stand behind the last;
    2. verbatim text, looked for at any lexeme, ends inside the list, and what it spans is a slice of
       the text with its bounds in order;
    3. an integer that is read has an opposite in range;
    4. a token that compares is spelled as a comparison that is known.
-/
import LibrarySpec.Proofs.Confinement.Libraries
import LibrarySpec.Proofs.Parsing
import LibrarySpec.Proofs.Printing.Numbers
import LibrarySpec.Proofs.Scanning.Places

namespace LibrarySpec

open Grammar LibrarySpec.Parser
open Text (Position placeAt slice)

/-! ## Faults of a text -/

/-- What may be wrong with a text.  A syntax fault ends its message with a place of the text. -/
def Fault.OfText (source : String) : Fault → Prop
  | .syntactic fault => ∃ offset ≤ source.length, ∃ said : String,
      (Fault.syntactic fault).message = said ++ " at " ++ placeAt source.toList offset
  | .missingHandle _ | .ambiguousHandle _ _ => True
  | _ => False

/-- What a message says before the place ends in one way. -/
theorem SyntaxFault.exists_explanation (fault : SyntaxFault) :
    ∃ said : String, fault.explanation = said ++ " at " := by
  have quoted : ∀ s : String, s ++ "' at " = s ++ "'" ++ " at " := by
    intro s
    rw [String.append_assoc]
    rfl
  cases fault with
  | unterminatedComment => exact ⟨"Unterminated block comment starting", rfl⟩
  | unterminatedString => exact ⟨"Unterminated string starting", rfl⟩
  | unterminatedQuote => exact ⟨"Unterminated quote starting", rfl⟩
  | unterminatedEscape => exact ⟨"Unterminated escape sequence", rfl⟩
  | contractCut => exact ⟨"Unexpected end of input in contract", rfl⟩
  | invalidEscape | integerOutOfRange | compoundName => exact ⟨_, quoted _⟩
  | _ => exact ⟨_, rfl⟩

variable {source : String} {lexemes : List Lexeme}

theorem Fault.ofText_of_place {fault : SyntaxFault} {offset : Nat} (inside : offset ≤ source.length)
    (place : fault.place = .advance .start (source.toList.take offset)) :
    (Fault.syntactic fault).OfText source := by
  obtain ⟨said, explained⟩ := fault.exists_explanation
  refine ⟨offset, inside, "Parse error: " ++ said, ?_⟩
  show "Parse error: " ++ (fault.explanation ++ fault.place.toText) = _
  rw [place, Position.toText_start_advance, explained]
  simp only [String.append_assoc]

/-- What the scanner reports is a fault of the text. -/
theorem Fault.ofText_of_scan {fault : SyntaxFault} (h : scan source = .error fault) :
    (Fault.syntactic fault).OfText source := by
  obtain ⟨offset, inside, place⟩ := place_of_fault h
  rw [String.length_toList] at inside
  exact ofText_of_place inside place

/-- What is reported at a lexeme is a fault of the text. -/
theorem Fault.ofText_of_located (h : scan source = .ok lexemes) {fault : Fault}
    (located : Located (fun p => ∃ l ∈ lexemes, l.start = p) fault) : fault.OfText source := by
  cases fault with
  | syntactic fault =>
    obtain ⟨l, hl, start⟩ := located
    obtain ⟨offset, inside, place⟩ := exists_offset_of_scan h hl
    exact ofText_of_place inside (start.symm.trans place)
  | missingHandle | ambiguousHandle => trivial
  | _ => exact located.elim

/-! ## Lexemes of a text -/

/-- The lexemes of a text are read safely. -/
structure SafelyParsed (source : String) (lexemes : List Lexeme) : Prop where
  /-- The parser fails or stops in front of the last lexeme; more lexemes make no difference. -/
  confined : ∀ junk,
    (∃ fault, Library.parser (.ofList lexemes) = .error fault
      ∧ Library.parser (.ofList (lexemes ++ junk)) = .error fault)
    ∨ ∃ library behind last, last.token = .eof
      ∧ Library.parser (.ofList lexemes) = .ok (library, ⟨behind, [last]⟩)
      ∧ Library.parser (.ofList (lexemes ++ junk)) = .ok (library, ⟨behind, last :: junk⟩)
  /-- Verbatim text asks for no lexeme behind the last, and is a slice of the text. -/
  sliced : ∀ front behind l rest stop wanted, lexemes = front ++ l :: rest →
    lexemesTo stop wanted 0 behind (l :: rest) ≠ .error .overrun
    ∧ ∀ run c, lexemesTo stop wanted 0 behind (l :: rest) = .ok (run, c) →
      l.start.offset ≤ stopOf l.start.offset run
      ∧ stopOf l.start.offset run ≤ source.length
      ∧ spannedText run = slice source.toList l.start.offset (stopOf l.start.offset run)
  /-- The opposite of an integer that is read is in range. -/
  opposite : ∀ l ∈ lexemes, ∀ v, l.token = .integer v → (-v).toInt = -v.toInt
  /-- A token that compares is spelled as the comparison that it stands for. -/
  compared : ∀ l ∈ lexemes, l.token.isComparison = true → ∃ text sign,
    l.token.symbolText? = some text ∧ Comparison.ofText text = .ok sign
      ∧ Comparison.ofToken? l.token = some sign

/-- A comparison is spelled as it is read. -/
theorem Comparison.ofText_of_isComparison {t : Token} (h : t.isComparison = true) :
    ∃ text sign, t.symbolText? = some text ∧ Comparison.ofText text = .ok sign
      ∧ Comparison.ofToken? t = some sign := by
  cases t with
  | symbol s =>
    cases s with
    | equal | notEqual | lessEqual | greaterEqual | less | greater =>
      exact ⟨_, _, rfl, by decide, rfl⟩
    | _ => cases h
  | _ => cases h

/-- Two runs on the lexemes of a text, one with more lexemes behind the end, answer the same. -/
theorem Library.sameAnswer_library (h : scan source = .ok lexemes) (junk : List Lexeme) :
    SameAnswer (fun p => ∃ l ∈ lexemes, l.start = p) lexemes junk (fun _ => 0)
      (Library.parser (.ofList lexemes)) (Library.parser (.ofList (lexemes ++ junk))) :=
  keeps_library Lexeme.nothing lexemes junk (stream_of_scan h) (fun l hl => ⟨l, hl, rfl⟩) trivial
    (Nat.le_refl _)

/-- A library is read up to the end of the input. -/
theorem Library.stop_of_library {library : Library} {c' : Cursor} (h : scan source = .ok lexemes)
    (read : Library.parser (.ofList lexemes) = .ok (library, c')) :
    ∃ behind last, last.token = .eof ∧ c' = ⟨behind, [last]⟩ := by
  obtain ⟨s, admissible, _, spelled⟩ := library_eq_ok (c := .ofList lexemes) (stream_of_scan h) read
  obtain ⟨c, again, left⟩ :=
    accepts_library s admissible (c := .ofList lexemes) (stream_of_scan h) spelled
  rw [read] at again
  cases again
  obtain ⟨last, rest, ahead, token, none⟩ := left.of_token
  cases none
  exact ⟨c'.behind, last, token, by rw [← ahead]⟩

theorem safelyParsed_of_scan (h : scan source = .ok lexemes) : SafelyParsed source lexemes where
  confined junk := by
    have answers := Library.sameAnswer_library h junk
    revert answers
    generalize hx : Library.parser (.ofList lexemes) = x
    generalize Library.parser (.ofList (lexemes ++ junk)) = y
    intro answers
    cases answers with
    | error located => exact .inl ⟨_, rfl, rfl⟩
    | ok library behind stream suffix passed =>
      obtain ⟨_, last, token, stopped⟩ := Library.stop_of_library h hx
      cases stopped
      exact .inr ⟨library, behind, last, token, rfl, rfl⟩
  sliced front behind l rest stop wanted split := by
    have st : Stream (l :: rest) :=
      ((split ▸ stream_of_scan h).of_append (List.cons_ne_nil l rest)).2
    constructor
    · intro overrun
      -- with nothing behind the end the two runs are one, and no answer of two runs is an overrun
      have answers : SameAnswer (fun _ => True) (l :: rest) [] (fun _ => 0)
          (lexemesTo stop wanted 0 behind (l :: rest))
          (lexemesTo stop wanted 0 behind (l :: rest ++ [])) :=
        sameAnswer_lexemesTo st (fun _ _ => trivial) [] 0 behind
      exact answers.ne_overrun overrun
    · intro run c passed
      obtain ⟨whole, _⟩ := lexemesTo_eq_ok st passed
      rw [split, whole] at h
      exact spannedText_eq_slice h (by rw [← whole]; rfl)
  opposite l hl v hv := by
    have spelled := (legible_of_scanFrom h).1.spelling_of_mem hl (by simp [hv])
    rw [hv] at spelled
    exact toInt_neg_of_nonneg (nonneg_of_spelling spelled)
  compared l _ hl := Comparison.ofText_of_isComparison hl

/-! ## Texts -/

/-- Every text is parsed to a library or to a fault that is one of the text, and its lexemes are read
    safely. -/
theorem Library.parse_safe (source : String) :
    ((∃ library, parse source = .ok library)
      ∨ ∃ fault, parse source = .error fault ∧ fault.OfText source)
    ∧ ∀ lexemes, scan source = .ok lexemes → SafelyParsed source lexemes := by
  refine ⟨?_, fun lexemes => safelyParsed_of_scan⟩
  cases hs : scan source with
  | error fault =>
    exact .inr ⟨.syntactic fault, by rw [parse, hs], Fault.ofText_of_scan hs⟩
  | ok lexemes =>
    rw [parse_of_scan hs]
    have answers := sameAnswer_library hs []
    have run : ofLexemes lexemes = (parser (.ofList lexemes)).map (·.1) := rfl
    revert answers
    rw [run]
    generalize parser (.ofList lexemes) = x
    generalize parser (.ofList (lexemes ++ [])) = y
    intro answers
    cases answers with
    | ok library => exact .inl ⟨library, rfl⟩
    | error located => exact .inr ⟨_, rfl, Fault.ofText_of_located hs located⟩

end LibrarySpec
