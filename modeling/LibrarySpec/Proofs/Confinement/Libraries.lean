/-
  The parser of libraries stays inside its stream.

  Every section is read by a parser that agrees with itself when more lexemes stand behind the end.
  A declaration that is repeated passes something; whatever a declaration reports once it is read is
  reported at its first lexeme, so at a place of the stream too.
-/
import LibrarySpec.Library.Parser
import LibrarySpec.Proofs.Confinement.Contracts

namespace LibrarySpec

open LibrarySpec.Parser
open Text (Position)

variable {places : Position → Prop} {size : Nat}

/-! ## Names -/

namespace Parser

theorem spends_nameList (wanted : String) :
    Spends places size (nameList wanted) (nameList wanted) :=
  spends_separated (by simp) (spends_identifier wanted)

theorem spends_dottedName (wanted : String) :
    Spends places size (dottedName wanted) (dottedName wanted) :=
  (spends_separated (by simp) (spends_identifier wanted)).map

theorem keeps_expect {t : Token} (ht : t ≠ .eof) (wanted : String) :
    Keeps places size (expect t wanted) (expect t wanted) :=
  (spends_expect ht wanted).keeps

theorem keeps_semicolon : Keeps places size semicolon semicolon := keeps_expect (by simp) _

end Parser

/-! ## Types and converters -/

theorem TypeDecl.spends_decl : Spends places size TypeDecl.parser TypeDecl.parser := by
  refine SemanticType.spends_type.bind fun type => ?_
  refine (keeps_expect (by simp) _).bind fun _ => (keeps_verbatim _ _).bind fun code => ?_
  refine (keeps_expect (by simp) _).bind fun _ => ?_
  exact keeps_semicolon.bind fun _ => .pure _ rfl

theorem TypeTable.keeps_table : Keeps places size TypeTable.parser TypeTable.parser := by
  refine (keeps_expect (by simp) _).bind fun _ => (keeps_expect (by simp) _).bind fun _ => ?_
  exact (keeps_upTo (by simp) TypeDecl.spends_decl).bind fun decls => .pure _ rfl

theorem Converter.spends_converter : Spends places size Converter.parser Converter.parser := by
  refine SemanticType.spends_type.bind fun type => ?_
  refine (keeps_expect (by simp) _).bind fun _ => (keeps_expect (by simp) _).bind fun _ => ?_
  exact (keeps_verbatim _ _).bind fun expression => keeps_semicolon.bind fun _ => .pure _ rfl

theorem Converter.keeps_section :
    Keeps places size Converter.sectionParser Converter.sectionParser := by
  refine (agrees_eat (by simp)).keeps.bind fun b => ?_
  cases b with
  | true => exact (keeps_expect (by simp) _).bind fun _ => keeps_upTo (by simp) spends_converter
  | false => exact .pure _ rfl

/-! ## Automata -/

namespace Automaton

theorem spends_itemBody : Spends places size itemBody itemBody := by
  refine .peek fun t _ => ?_
  cases t with
  | keyword k =>
    cases k with
    | extendable => exact .passing (by simp) (.pure _ rfl)
    | javaPackage =>
      exact .passing (by simp) ((spends_dottedName _).keeps.bind fun name => .pure _ rfl)
    | var =>
      refine .passing (by simp) ((spends_identifier _).keeps.bind fun name => ?_)
      refine (keeps_expect (by simp) _).bind fun _ => ?_
      exact SemanticType.spends_type.keeps.bind fun type => .pure _ rfl
    | states =>
      exact .passing (by simp) ((spends_nameList _).keeps.bind fun names => .pure _ rfl)
    | finishState =>
      exact .passing (by simp) ((spends_identifier _).keeps.bind fun name => .pure _ rfl)
    | shift =>
      refine .passing (by simp) ((spends_identifier _).keeps.bind fun source => ?_)
      refine (keeps_expect (by simp) _).bind fun _ => ?_
      refine (spends_identifier _).keeps.bind fun target => ?_
      refine (keeps_expect (by simp) _).bind fun _ => ?_
      refine (spends_nameList _).keeps.bind fun functions => ?_
      exact (keeps_expect (by simp) _).bind fun _ => .pure _ rfl
    | _ => exact .fail _
  | _ => exact .fail _

theorem spends_item : Spends places size item item :=
  spends_itemBody.bind fun i => keeps_semicolon.bind fun _ => .pure i rfl

/-- What is wrong with the items of an automaton is reported where it starts. -/
theorem place_of_ofItems {type : SemanticType} {items : List Item} {start : Position}
    {fault : SyntaxFault} (h : ofItems type items start = .error fault) : fault.place = start := by
  unfold ofItems at h
  split at h
  · cases h
    rfl
  · cases h

theorem spends_automaton : Spends places size parser parser := by
  refine .place fun start here => (spends_expect (by simp) _).bind fun _ => ?_
  refine SemanticType.spends_type.keeps.bind fun type => ?_
  refine (keeps_expect (by simp) _).bind fun _ => ?_
  refine (keeps_upTo (by simp) spends_item).bind fun items => ?_
  cases made : ofItems type items start with
  | ok automaton => exact .pure _ rfl
  | error fault => exact .reject (by rwa [place_of_ofItems made])

end Automaton

/-! ## Functions -/

namespace FunctionSpec

theorem keeps_annotations : Keeps places size annotations annotations :=
  keeps_afterEach (by simp) (spends_identifier _).keeps

theorem spends_argument : Spends places size argument argument := by
  refine keeps_annotations.bindSpends fun marks => (spends_identifier _).bind fun name => ?_
  refine (keeps_expect (by simp) _).bind fun _ => ?_
  exact SemanticType.spends_type.keeps.bind fun type => .pure _ rfl

theorem spends_head : Spends places size head head := by
  refine SemanticType.spends_atom.bind fun first => ?_
  refine Keeps.bind (keeps_collect ?_) fun more => .pure _ rfl
  refine .check (.pure none rfl) (Agrees.bind keeps_atIdentifier fun b => ?_)
  cases b with
  | true => exact Agrees.bind SemanticType.spends_atom fun a => .pure (some a) rfl
  | false => exact .fail _

theorem keeps_clause (opening : Keyword) :
    Keeps places size (clause opening) (clause opening) := by
  refine (agrees_eat (by simp)).keeps.bind fun b => ?_
  cases b with
  | true => exact Contract.spends_contract.keeps.bind fun contract => .pure _ rfl
  | false => exact .pure none rfl

theorem keeps_result : Keeps places size resultParser resultParser := by
  refine (agrees_eat (by simp)).keeps.bind fun b => ?_
  cases b with
  | true =>
    exact keeps_annotations.bind fun marks =>
      SemanticType.spends_type.keeps.bind fun type => .pure _ rfl
  | false => exact .pure none rfl

theorem spends_partBody : Spends places size partBody partBody := by
  refine .peek fun t _ => ?_
  cases t with
  | keyword k =>
    cases k with
    | action =>
      refine .passing (by simp) ((spends_identifier _).keeps.bind fun name => ?_)
      refine (keeps_expect (by simp) _).bind fun _ => ?_
      exact (spends_inParens _ (spends_identifier _)).keeps.bind fun names => .pure _ rfl
    | static =>
      refine .passing (by simp) (keeps_atIdentifier.bind fun b => ?_)
      cases b with
      | true => exact (spends_identifier _).keeps.bind fun name => .pure _ rfl
      | false => exact .pure _ rfl
    | property =>
      refine .passing (by simp) ((spends_identifier _).keeps.bind fun key => ?_)
      refine (keeps_expect (by simp) _).bind fun _ => ?_
      exact (keeps_verbatim _ _).bind fun value => .pure _ rfl
    | _ => exact .fail _
  | identifier name =>
    refine .passing (by simp) ((keeps_expect (by simp) _).bind fun _ => ?_)
    refine (keeps_expect (by simp) _).bind fun _ => ?_
    refine SemanticType.spends_type.keeps.bind fun automaton => ?_
    refine (keeps_expect (by simp) _).bind fun _ => ?_
    exact (spends_inParens _ (spends_identifier _)).keeps.bind fun names => .pure _ rfl
  | _ => exact .fail _

theorem spends_part : Spends places size part part :=
  spends_partBody.bind fun p => keeps_semicolon.bind fun _ => .pure p rfl

/-- What is wrong with a function once it is read lacks a handle or is reported where it starts. -/
theorem located_of_ofParts {before : Option SemanticType} {name : String}
    {arguments : List Argument} {contracts : Contracts} {result : Option Result}
    {parts : List Part} {start : Position} {fault : Fault} (here : places start)
    (h : ofParts before name arguments contracts result parts start = .error fault) :
    Located places fault := by
  unfold ofParts at h
  split at h
  · rename_i owned
    cases h
    unfold findOwner at owned
    split at owned
    · cases owned
    · split at owned
      · cases owned
        trivial
      · cases owned
      · cases owned
        trivial
  · split at h
    · cases h
      exact here
    · cases h

theorem spends_function : Spends places size parser parser := by
  refine .place fun start here => spends_head.bind fun atoms => ?_
  cases last : atoms.getLast? with
  | none => exact .fail _
  | some atom =>
    cases atom with
    | simple name =>
      refine (keeps_expect (by simp) _).bind fun _ => ?_
      refine (spends_inParens _ spends_argument).keeps.bind fun arguments => ?_
      refine (keeps_clause _).bind fun requires => (keeps_clause _).bind fun ensures => ?_
      refine keeps_result.bind fun result => (keeps_expect (by simp) _).bind fun _ => ?_
      refine (keeps_upTo (by simp) spends_part).bind fun parts => ?_
      cases made : ofParts (ownerOfAtoms atoms.dropLast) name arguments ⟨requires, ensures⟩ result
        parts start with
      | ok f => exact .pure _ rfl
      | error fault => exact .throw (located_of_ofParts here made)
    | _ => exact .reject here

end FunctionSpec

/-! ## Libraries -/

namespace Library

theorem keeps_library : Keeps places size parser parser := by
  refine (keeps_expect (by simp) _).bind fun _ => ?_
  refine (spends_identifier _).keeps.bind fun name => keeps_semicolon.bind fun _ => ?_
  have names : ∀ wanted, Keeps places (size - 1)
      (do
        let n ← dottedName wanted
        semicolon
        return n)
      (do
        let n ← dottedName wanted
        semicolon
        return n) := fun wanted =>
    (spends_dottedName wanted).keeps.bind fun n => keeps_semicolon.bind fun _ => .pure n rfl
  refine (keeps_afterEach (by simp) (names _)).bind fun imports => ?_
  refine (keeps_afterEach (by simp) (names _)).bind fun includes => ?_
  refine TypeTable.keeps_table.bind fun types => ?_
  refine Keeps.bind (keeps_collect ?_) fun automata => ?_
  · refine .check (Agrees.here ?_) (.pure none rfl)
    exact Agrees.bind Automaton.spends_automaton fun a => .pure (some a) rfl
  refine Converter.keeps_section.bind fun converters => ?_
  refine Keeps.bind (keeps_collect ?_) fun functions => .pure _ rfl
  refine .check (.pure none rfl) ?_
  exact Agrees.bind FunctionSpec.spends_function fun f => .pure (some f) rfl

end Library
end LibrarySpec
