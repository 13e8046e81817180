/-
  Libraries cut short.

  A text is scanned, and of its lexemes only some are kept.  If the end of the input is among them,
  nothing is missing and the answer is that of the text.  Otherwise the parser never answers a library:
  it would have to see the end of the input behind the functions.  What it reports is what the text
  could be told too, or the lexemes that were kept end inside verbatim text, or the last of them is a
  token that feeds.

  The last two are no faults of a specification.  `ofLexemes_take_fails` shows them on a short text.
-/
import LibrarySpec.Proofs.Safety
import LibrarySpec.Proofs.Truncation.Contracts

namespace LibrarySpec

open LibrarySpec.Parser
open Cursor (Inside Past Grounded)
open Text (Position)

variable {kept : List Lexeme} {P : Cursor → Prop} {n : Nat}

/-! ## Names -/

namespace Parser

theorem pays_nameList (wanted : String) : Pays kept P n (nameList wanted) :=
  pays_separated (pays_identifier wanted) (pays_identifier wanted)

theorem pays_dottedName (wanted : String) : Pays kept P n (dottedName wanted) :=
  (pays_separated (pays_identifier wanted) (pays_identifier wanted)).map

/-- Names in parentheses. -/
theorem copes_names {wanted closing : String} :
    Copes kept P n (inParens (identifier wanted) closing) :=
  copes_inParens (pays_identifier wanted) (pays_identifier wanted)

end Parser

/-! ## Types and converters -/

theorem TypeDecl.pays_decl : Pays kept P n TypeDecl.parser := by
  refine SemanticType.pays_type.bind fun type => .expect ?_
  refine (copes_verbatim .codeType).bind fun code => ?_
  exact .expect (.expect (.pure _ rfl))

theorem TypeTable.copes_table : Copes kept P n TypeTable.parser :=
  .expect (.expect (Copes.bind (copes_upTo TypeDecl.pays_decl) fun _ => .pure _ rfl))

theorem Converter.pays_converter : Pays kept P n Converter.parser := by
  refine SemanticType.pays_type.bind fun type => .expect (.expect ?_)
  exact (copes_verbatim .expression).bind fun expression => .expect (.pure _ rfl)

theorem Converter.copes_section : Copes kept P n Converter.sectionParser :=
  .eat (.expect (copes_upTo pays_converter)) (.pure _ rfl)

/-! ## Automata -/

namespace Automaton

/-- What an item begins with is passed, at the cost of a lexeme if there is one. -/
theorem bears_itemBody {cost : Nat} (pays : ∀ c, P c → c.next.ahead.length + cost ≤ c.ahead.length) :
    Bears kept P n (fun _ => cost) itemBody := by
  refine .peek fun t => ?_
  cases t with
  | keyword k =>
    cases k with
    | extendable => exact .costing pays (.pure _ rfl)
    | javaPackage =>
      exact .costing pays ((pays_dottedName _).copes.bind fun name => .pure _ rfl)
    | var =>
      refine .costing pays ((pays_identifier _).copes.bind fun name => ?_)
      exact .expect (SemanticType.pays_type.copes.bind fun type => .pure _ rfl)
    | states =>
      exact .costing pays ((pays_nameList _).copes.bind fun names => .pure _ rfl)
    | finishState =>
      exact .costing pays ((pays_identifier _).copes.bind fun name => .pure _ rfl)
    | shift =>
      refine .costing pays ((pays_identifier _).copes.bind fun source => ?_)
      refine .expect ((pays_identifier _).copes.bind fun target => .expect ?_)
      exact (pays_nameList _).copes.bind fun functions => .expect (.pure _ rfl)
    | _ => exact .fail _
  | _ => exact .fail _

theorem pays_item : Pays kept P n item := by
  refine pays_closed (bears_itemBody fun c live => Nat.le_of_eq (Cursor.length_next live))
    (bears_itemBody fun c _ => c.length_next_le) fun c r here answer => ?_
  rw [itemBody, bind_of_ok (peek_apply c), here] at answer
  exact fail_ne_ok answer

theorem pays_automaton : Pays kept P n parser := by
  refine .place fun start here => .expect (SemanticType.pays_type.bind fun type => .expect ?_)
  refine Copes.bind (copes_upTo pays_item) fun items => ?_
  cases made : ofItems type items start with
  | ok automaton => exact .pure _ rfl
  | error fault => exact .reject (by rwa [place_of_ofItems made])

end Automaton

/-! ## Functions -/

namespace FunctionSpec

theorem copes_annotations : Copes kept P n annotations :=
  copes_afterEach (pays_identifier _)

theorem pays_argument : Pays kept P n argument := by
  refine Copes.bind copes_annotations fun marks => (pays_identifier _).bind fun name => ?_
  exact .expect (SemanticType.pays_type.copes.bind fun type => .pure _ rfl)

theorem pays_head : Pays kept P n head := by
  refine SemanticType.pays_atom.bind fun first => Copes.bind (copes_collect ?_) fun more => .pure _ rfl
  refine .check paces_none (copes_atIdentifier.bind fun b => ?_)
  cases b with
  | true => exact SemanticType.pays_atom.step
  | false => exact .fail _

theorem copes_clause (opening : Keyword) : Copes kept P n (clause opening) := by
  refine .eat ?_ (.pure none rfl)
  exact (Contract.pays_contract.copes.mono fun _ h => h.grounded_keyword).bind fun contract =>
    .pure _ rfl

theorem copes_result : Copes kept P n resultParser := by
  refine .eat (copes_annotations.bind fun marks => ?_) (.pure none rfl)
  exact SemanticType.pays_type.copes.bind fun type => .pure _ rfl

theorem bears_partBody {cost : Nat} (pays : ∀ c, P c → c.next.ahead.length + cost ≤ c.ahead.length) :
    Bears kept P n (fun _ => cost) partBody := by
  refine .peek fun t => ?_
  cases t with
  | keyword k =>
    cases k with
    | action =>
      refine .costing pays ((pays_identifier _).copes.bind fun name => ?_)
      exact .expect (copes_names.bind fun names => .pure _ rfl)
    | static =>
      refine .costing pays (copes_atIdentifier.bind fun b => ?_)
      cases b with
      | true => exact (pays_identifier _).copes.bind fun name => .pure _ rfl
      | false => exact .pure _ rfl
    | property =>
      refine .costing pays ((pays_identifier _).copes.bind fun key => ?_)
      exact .expect ((copes_verbatim .value).bind fun value => .pure _ rfl)
    | _ => exact .fail _
  | identifier name =>
    refine .costing pays (.expect (.expect ?_))
    refine SemanticType.pays_type.copes.bind fun automaton => ?_
    exact .expect (copes_names.bind fun names => .pure _ rfl)
  | _ => exact .fail _

theorem pays_part : Pays kept P n part := by
  refine pays_closed (bears_partBody fun c live => Nat.le_of_eq (Cursor.length_next live))
    (bears_partBody fun c _ => c.length_next_le) fun c r here answer => ?_
  rw [partBody, bind_of_ok (peek_apply c), here] at answer
  exact fail_ne_ok answer

theorem pays_function : Pays kept P n parser := by
  refine .place fun start here => pays_head.bind fun atoms => ?_
  cases last : atoms.getLast? with
  | none => exact .fail _
  | some atom =>
    cases atom with
    | simple name =>
      refine .expect (Copes.bind (copes_inParens pays_argument pays_argument) fun arguments => ?_)
      refine (copes_clause _).bind fun requires => (copes_clause _).bind fun ensures => ?_
      refine copes_result.bind fun result => .expect ?_
      refine Copes.bind (copes_upTo pays_part) fun parts => ?_
      cases made : ofParts (ownerOfAtoms atoms.dropLast) name arguments ⟨requires, ensures⟩ result
        parts start with
      | ok f => exact .pure _ rfl
      | error fault => exact .throw (located_of_ofParts here made)
    | _ => exact .reject here

end FunctionSpec

/-! ## Libraries -/

namespace Parser

variable {α β : Type} {R : Cursor → Prop}

/-- Where the parser stops, this is true of the cursor. -/
def Ends (R : Cursor → Prop) (p : Parser α) : Prop := ∀ c a c', p c = .ok (a, c') → R c'

theorem Ends.bind {p : Parser α} {f : α → Parser β} (h : ∀ a, Ends R (f a)) : Ends R (p >>= f) := by
  intro c b c' answer
  obtain ⟨a, d, _, rest⟩ := bind_eq_ok.1 answer
  exact h a d b c' rest

theorem Ends.map {p : Parser α} {k : α → β} (h : Ends R p) :
    Ends R (p >>= fun a => Pure.pure (k a)) := by
  intro c b c' answer
  obtain ⟨a, d, first, rest⟩ := bind_eq_ok.1 answer
  cases rest
  exact h c a c' first

/-- A repetition stops where its step answers `none`. -/
theorem Ends.collect {step : Parser (Option α)} (h : ∀ c c', step c = .ok (none, c') → R c') :
    Ends R (collect step) := by
  have within : ∀ limit, Ends R (collectWithin step limit) := by
    intro limit
    induction limit with
    | zero => exact fun _ _ _ answer => nomatch answer
    | succ limit ih =>
      intro c as c' answer
      obtain ⟨o, d, stepped, rest⟩ := bind_eq_ok.1 answer
      cases o with
      | none =>
        cases rest
        exact h c c' stepped
      | some a => exact ih.map d as c' rest
  exact fun c => within (c.ahead.length + 1) c

end Parser

namespace Library

theorem copes_library : Copes kept P n parser := by
  have names : ∀ {k wanted}, Pays kept (Past (.keyword k)) n
      (do
        let n ← dottedName wanted
        semicolon
        return n) := (pays_dottedName _).bind fun name => .expect (.pure _ rfl)
  refine .expect ((pays_identifier _).copes.bind fun name => .expect ?_)
  refine Copes.bind (copes_afterEach names) fun imports => ?_
  refine Copes.bind (copes_afterEach names) fun includes => ?_
  refine TypeTable.copes_table.bind fun types => ?_
  refine Copes.bind (copes_collect ?_) fun automata => ?_
  · exact .check Automaton.pays_automaton.step paces_none
  refine Converter.copes_section.bind fun converters => ?_
  refine Copes.bind (copes_collect ?_) fun functions => .pure _ rfl
  exact .check paces_none FunctionSpec.pays_function.step

/-- A library is read up to the end of the input. -/
theorem ends_library : Ends (·.current.token = .eof) parser := by
  -- the functions stand behind everything else
  refine .bind fun _ => .bind fun _ => .bind fun _ => .bind fun _ => .bind fun _ => .bind fun _ => ?_
  refine .bind fun _ => .bind fun _ => Ends.map (Ends.collect fun c c' stopped => ?_)
  rw [bind_of_ok (check_apply .eof c)] at stopped
  by_cases eof : c.current.token = .eof
  · rw [decide_eq_true eof] at stopped
    cases stopped
    exact eof
  · rw [decide_eq_false eof] at stopped
    obtain ⟨f, d, _, answered⟩ := bind_eq_ok.1 stopped
    cases answered

end Library

/-! ## Texts -/

/-- What is reported of a text of which only some lexemes were kept. -/
def Fault.OfKept (source : String) (kept : List Lexeme) : Fault → Prop
  | .overrun => EndsInText kept
  | .endless => Feeding kept
  | fault => fault.OfText source

variable {source : String} {lexemes : List Lexeme}

theorem Fault.ofKept_of_reported (h : scan source = .ok lexemes) {k : Nat} {fault : Fault}
    (reported : Reported (lexemes.take k) fault) : fault.OfKept source (lexemes.take k) := by
  rcases reported with located | ⟨rfl, text⟩ | ⟨rfl, fed⟩
  · have ofText : fault.OfText source := by
      refine Fault.ofText_of_located h ?_
      cases fault with
      | syntactic fault =>
        obtain ⟨l, kept, start⟩ := located
        exact ⟨l, List.mem_of_mem_take kept, start⟩
      | _ => exact located
    cases fault with
    | overrun | endless => exact located.elim
    | _ => exact ofText
  · exact text
  · exact fed

namespace Library

/-- The first lexemes of a text, the last not among them, are no library. -/
theorem ofLexemes_cut (h : scan source = .ok lexemes) {k : Nat} (cut : k < lexemes.length) :
    ∃ fault, ofLexemes (lexemes.take k) = .error fault ∧ fault.OfKept source (lexemes.take k) := by
  by_cases none : lexemes.take k = []
  · rw [none]
    exact ⟨.syntactic (.unexpected "'library'" .eof .start), rfl,
      Fault.ofText_of_place (Nat.zero_le _) rfl⟩
  · have whole : lexemes.take k ++ lexemes.drop k = lexemes := List.take_append_drop k lexemes
    have goesOn : lexemes.drop k ≠ [] := fun nil => by
      have := List.drop_eq_nil_iff.1 nil
      omega
    have outcome := copes_library (.ofList (lexemes.take k)) (Cursor.inside_ofList none)
      (P := fun _ => True) (n := (lexemes.take k).length) trivial fun _ => Nat.le_refl _
    have run : ofLexemes (lexemes.take k) = (parser (.ofList (lexemes.take k))).map (·.1) := rfl
    rw [run]
    cases ran : parser (.ofList (lexemes.take k)) with
    | ok r =>
      rw [ran] at outcome
      cases outcome with
      | ok library inside =>
        -- the end of the input would be one of the lexemes in front of others
        have solid := ((whole.symm ▸ stream_of_scan h).of_append goesOn).1 _ inside.current_mem
        exact absurd (ends_library _ _ _ ran) solid.token_ne
    | error fault =>
      rw [ran] at outcome
      cases outcome with
      | error reported => exact ⟨fault, rfl, Fault.ofKept_of_reported h reported⟩

/-- Of the lexemes of a text the first `k` are kept.  If they are all, the answer is that of the text;
    otherwise it is a fault of the text, or the lexemes end inside verbatim text, or the last of them
    feeds what reads on. -/
theorem ofLexemes_take (h : scan source = .ok lexemes) (k : Nat) :
    (lexemes.length ≤ k → ofLexemes (lexemes.take k) = parse source)
    ∧ (k < lexemes.length →
      ∃ fault, ofLexemes (lexemes.take k) = .error fault ∧ fault.OfKept source (lexemes.take k)) := by
  refine ⟨fun all => ?_, ofLexemes_cut h⟩
  rw [List.take_of_length_le all, parse_of_scan h]

/-- A text whose seventh lexeme opens the text of a code type. -/
def codeSource : String := "library l; types \x7b A (u8); \x7d"

/-- The lexemes of the text. -/
def codeLexemes : List Lexeme :=
  [("", .keyword .library, "library", 0), (" ", .identifier "l", "l", 8),
    ("", .symbol .semicolon, ";", 9), (" ", .keyword .types, "types", 11),
    (" ", .symbol .openBrace, "\x7b", 17), (" ", .identifier "A", "A", 19),
    (" ", .symbol .openParen, "(", 21), ("", .identifier "u8", "u8", 22),
    ("", .symbol .closeParen, ")", 24), ("", .symbol .semicolon, ";", 25),
    (" ", .symbol .closeBrace, "\x7d", 27), ("", .eof, "", 28)].map
    fun (gap, token, text, offset) => ⟨gap.toList, token, text.toList, ⟨1, offset + 1, offset⟩⟩

theorem scan_codeSource : scan codeSource = .ok codeLexemes :=
  eq_ok_of_toOption (by decide +kernel)

theorem ofLexemes_take_codeSource :
    ofLexemes (codeLexemes.take 12) = parse codeSource
    ∧ ∃ fault, ofLexemes (codeLexemes.take 8) = .error fault
      ∧ fault.OfKept codeSource (codeLexemes.take 8) :=
  ⟨(ofLexemes_take scan_codeSource 12).1 (by decide),
    (ofLexemes_take scan_codeSource 8).2 (by decide)⟩

/-- Not every fault is one of the text.  Cut behind the parenthesis, a token is asked for that is not
    there; cut behind the identifier before it, the type has no end. -/
theorem ofLexemes_take_fails : scan codeSource = .ok codeLexemes
    ∧ ofLexemes (codeLexemes.take 7) = .error .overrun
    ∧ ofLexemes (codeLexemes.take 6) = .error .endless :=
  ⟨scan_codeSource, rfl, rfl⟩

end Library
end LibrarySpec
