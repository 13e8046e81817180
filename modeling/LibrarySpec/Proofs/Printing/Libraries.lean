/-
  Printed libraries, parsed again.

    1. `Library.Written`: every part of the library is written, the builtin functions left out.
    2. `Library.reparsed`: what the text of a library says.
    3. `Library.Finite`: no number in a contract is an infinity.

  A library that was parsed is written if it is finite (`written_of_parse`), and it is what its text
  says (`reparsed_of_parse`).  The text of a written library is parsed to what it says
  (`parse_print_of_written`).  Together they make the round trip, `parse_print`.

  A library need not have been parsed to be written; one that was completed is, too, when its code
  types are.
-/
import LibrarySpec.Proofs.Parsing
import LibrarySpec.Proofs.Printing.Functions

namespace LibrarySpec

open Grammar

namespace Library

/-- Every part of the library that is printed is written. -/
structure Written (l : Library) : Prop where
  name : IsName l.name
  imports : ∀ name ∈ l.imports, Dotted name
  includes : ∀ name ∈ l.includes, Dotted name
  types : ∀ d ∈ l.types.decls, d.Written
  automata : ∀ a ∈ l.automata, a.Written
  converters : ∀ c ∈ l.converters, c.Written
  functions : ∀ f ∈ l.functions, f.builtin = false → f.Written

/-- What the text of a library says. -/
def reparsed (l : Library) : Library :=
  { l with
    automata := l.automata.map Automaton.reparsed
    functions := l.functions.filter fun f => !f.builtin }

/-- No number in a contract of the library is an infinity. -/
def Finite (l : Library) : Prop := ∀ f ∈ l.functions, f.Finite

instance (l : Library) : Decidable l.Finite :=
  inferInstanceAs (Decidable (∀ f ∈ l.functions, f.Finite))

/-! ## From the library to the text -/

theorem exists_names {k : Keyword} {items : List String} (h : ∀ name ∈ items, Dotted name) :
    ∃ chains : List (Chain String), chains.map (fun c => ".".intercalate c.toList) = items
      ∧ PrintsLines (printNames k.text items) (Specification.namesLeaves k chains) := by
  obtain ⟨chains, same, written⟩ := exists_map h
  refine ⟨chains, same, ?_⟩
  have lines : PrintsLines
      (String.join (items.map fun name => printedLine (k.text ++ " " ++ name ++ ";")))
      (Specification.namesLeaves k chains) := by
    rw [← same, List.map_map]
    refine PrintsLines.join fun c hc => Prints.line ?_
    rw [String.append_assoc, String.append_assoc]
    exact prints_keyword k
      ((prints_dotted (written c hc)).append (by decide) (.token (.symbol .semicolon)))
  unfold printNames
  split
  · rename_i empty
    rw [List.isEmpty_iff.1 empty] at lines
    exact lines
  · exact lines.apart

theorem exists_types {decls : List TypeDecl} (h : ∀ d ∈ decls, d.Written) :
    ∃ ns : List DeclarationNode, ns.map DeclarationNode.decl = decls
      ∧ (∀ n ∈ ns, n.Admissible)
      ∧ PrintsLines (printedBlock "types" (decls.map TypeDecl.print))
        (kw .types :: sym .openBrace :: ns.flatMap DeclarationNode.leaves ++ [sym .closeBrace]) := by
  obtain ⟨ns, same, prints⟩ :=
    exists_map (p := fun n => n.Admissible ∧ Prints n.decl.print n.leaves)
      fun d hd => (h d hd).exists_node.imp fun n hn => ⟨hn.1, hn.2.1, by rw [hn.1]; exact hn.2.2⟩
  refine ⟨ns, same, fun n hn => (prints n hn).1, ?_⟩
  rw [← same, List.map_map]
  exact PrintsLines.block (.token (spelling_keyword .types)) fun n hn => (prints n hn).2

theorem exists_converters {converters : List Converter} (h : ∀ c ∈ converters, c.Written) :
    ∃ ns : Option (List ConverterNode), (ns.getD []).map ConverterNode.converter = converters
      ∧ (∀ n ∈ ns.getD [], n.Admissible)
      ∧ PrintsLines (if converters.isEmpty then ""
          else "\n" ++ printedBlock "converters" (converters.map Converter.print))
        (Specification.convertersLeaves ns) := by
  obtain ⟨ns, same, prints⟩ :=
    exists_map (p := fun n => n.Admissible ∧ Prints n.converter.print n.leaves)
      fun c hc => (h c hc).exists_node.imp fun n hn => ⟨hn.1, hn.2.1, by rw [hn.1]; exact hn.2.2⟩
  by_cases empty : converters.isEmpty
  · refine ⟨none, (List.isEmpty_iff.1 empty).symm, ?_, ?_⟩
    · simp
    · rw [if_pos empty]
      exact .empty
  · refine ⟨some ns, same, fun n hn => (prints n hn).1, ?_⟩
    rw [if_neg empty, ← same, List.map_map]
    exact (PrintsLines.block (.token (spelling_keyword .converters))
      fun n hn => (prints n hn).2).apart

theorem exists_automata {automata : List Automaton} (h : ∀ a ∈ automata, a.Written) :
    ∃ ns : List AutomatonNode, ns.map AutomatonNode.automaton = automata.map Automaton.reparsed
      ∧ (∀ n ∈ ns, n.Admissible)
      ∧ PrintsLines (String.join (automata.map fun a => "\n" ++ a.print))
        (ns.flatMap AutomatonNode.leaves) := by
  induction automata with
  | nil => exact ⟨[], rfl, by simp, .empty⟩
  | cons a automata ih =>
    obtain ⟨first, rest⟩ := List.forall_mem_cons.1 h
    obtain ⟨n, same, admissible, prints⟩ := first.exists_node
    obtain ⟨ns, sameRest, admissibleRest, printsRest⟩ := ih rest
    refine ⟨n :: ns, ?_, List.forall_mem_cons.2 ⟨admissible, admissibleRest⟩, ?_⟩
    · rw [List.map_cons, List.map_cons, same, sameRest]
    · rw [List.map_cons, String.join_cons, List.flatMap_cons]
      exact prints.apart.append printsRest

theorem exists_functions {functions : List FunctionSpec}
    (h : ∀ f ∈ functions, f.Written ∧ f.builtin = false) :
    ∃ ns : List FunctionNode, ns.map FunctionNode.function = functions
      ∧ (∀ n ∈ ns, n.Admissible)
      ∧ PrintsLines (String.join (functions.map fun f => "\n" ++ f.print))
        (ns.flatMap FunctionNode.leaves) := by
  obtain ⟨ns, same, prints⟩ :=
    exists_map (p := fun n => n.Admissible ∧ PrintsLines n.function.print n.leaves)
      fun f hf => ((h f hf).1.exists_node (h f hf).2).imp fun n hn =>
        ⟨hn.1, hn.2.1, by rw [hn.1]; exact hn.2.2⟩
  refine ⟨ns, same, fun n hn => (prints n hn).1, ?_⟩
  rw [← same, List.map_map]
  exact PrintsLines.join fun n hn => (prints n hn).2.apart

/-- The text of a written library is derived by a specification of what it says. -/
theorem Written.exists_node {l : Library} (h : l.Written) :
    ∃ s : Specification, s.library = l.reparsed ∧ s.Admissible ∧ Scans l.print.toList s.leaves := by
  obtain ⟨imports, sameImports, printsImports⟩ := exists_names (k := .importName) h.imports
  obtain ⟨includes, sameIncludes, printsIncludes⟩ := exists_names (k := .includeName) h.includes
  obtain ⟨types, sameTypes, admissibleTypes, printsTypes⟩ := exists_types h.types
  obtain ⟨automata, sameAutomata, admissibleAutomata, printsAutomata⟩ := exists_automata h.automata
  obtain ⟨converters, sameConverters, admissibleConverters, printsConverters⟩ :=
    exists_converters h.converters
  have declared : ∀ f ∈ l.functions.filter (fun f => !f.builtin), f.Written ∧ f.builtin = false := by
    intro f hf
    obtain ⟨mem, declared⟩ := List.mem_filter.1 hf
    rw [Bool.not_eq_true'] at declared
    exact ⟨h.functions f mem declared, declared⟩
  obtain ⟨functions, sameFunctions, admissibleFunctions, printsFunctions⟩ :=
    exists_functions declared
  refine ⟨⟨l.name, imports, includes, types, automata, converters, functions⟩, ?_,
    ⟨admissibleTypes, admissibleAutomata, admissibleConverters, admissibleFunctions⟩, ?_⟩
  · have table : TypeTable.ofList l.types.decls = l.types :=
      TypeTable.eq_of_decls_eq (TypeTable.decls_ofList _)
    simp only [Specification.library, reparsed, sameImports, sameIncludes, sameTypes, sameAutomata,
      sameConverters, sameFunctions, table]
  · have heading : PrintsLines (printedLine ("library " ++ l.name ++ ";"))
        [kw .library, ident l.name, sym .semicolon] := by
      rw [String.append_assoc]
      exact (prints_keyword .library
        ((prints_name h.name).append (by decide) (.token (.symbol .semicolon)))).line
    have whole := heading.append (printsImports.append (printsIncludes.append
      (printsTypes.apart.append (printsAutomata.append
        (printsConverters.append printsFunctions)))))
    have scanned := whole [] [.token .eof] .eof
    rw [List.append_nil] at scanned
    have text : l.print = printedLine ("library " ++ l.name ++ ";")
        ++ (printNames "import" l.imports ++ (printNames "include" l.includes
          ++ ("\n" ++ printedBlock "types" (l.types.decls.map TypeDecl.print)
            ++ (String.join (l.automata.map fun a => "\n" ++ a.print)
              ++ ((if l.converters.isEmpty then ""
                  else "\n" ++ printedBlock "converters" (l.converters.map Converter.print))
                ++ String.join ((l.functions.filter fun f => !f.builtin).map
                  fun f => "\n" ++ f.print)))))) := by
      simp only [print, String.append_assoc]
    have leaves : Specification.leaves
        ⟨l.name, imports, includes, types, automata, converters, functions⟩
        = [kw .library, ident l.name, sym .semicolon]
          ++ (Specification.namesLeaves .importName imports
            ++ (Specification.namesLeaves .includeName includes
              ++ (kw .types :: sym .openBrace :: types.flatMap DeclarationNode.leaves
                  ++ [sym .closeBrace]
                ++ (automata.flatMap AutomatonNode.leaves
                  ++ (Specification.convertersLeaves converters
                    ++ functions.flatMap FunctionNode.leaves)))))
          ++ [.token .eof] := by
      simp [Specification.leaves]
    rw [text, leaves]
    exact scanned

/-- The text of a written library is parsed to what it says. -/
theorem parse_print_of_written {l : Library} (h : l.Written) : parse l.print = .ok l.reparsed := by
  obtain ⟨s, same, admissible, scans⟩ := h.exists_node
  obtain ⟨lexemes, scanned, spelled⟩ := scans .start
  have scanned : scan l.print = .ok lexemes := scanned
  rw [parse_of_scan scanned, ofLexemes_eq_ok_iff (stream_of_scan scanned)]
  exact ⟨s, spelled, admissible, same⟩

/-! ## From the text to the library -/

/-- The leaves of a specification that derives a text are legible. -/
theorem legible_of_derives {source : String} {lexemes : List Lexeme} {s : Specification}
    (scanned : scan source = .ok lexemes) (derives : s.Derives lexemes) :
    LegibleLeaves s.leaves := by
  have legible := legible_of_scan scanned derives
  refine (legibleLeaves_append _ _).2 ⟨legible, ?_⟩
  intro leaf hleaf
  rw [List.mem_singleton.1 hleaf]
  exact .inl rfl

/-- What a text is parsed to is the meaning of a specification with legible leaves. -/
theorem exists_of_parse {source : String} {l : Library} (h : parse source = .ok l) :
    ∃ s : Specification, s.library = l ∧ s.Admissible ∧ LegibleLeaves s.leaves := by
  cases scanned : scan source with
  | error fault =>
    rw [parse, scanned] at h
    cases h
  | ok lexemes =>
    rw [parse_of_scan scanned, ofLexemes_eq_ok_iff (stream_of_scan scanned)] at h
    obtain ⟨s, derives, admissible, same⟩ := h
    exact ⟨s, same, admissible, legible_of_derives scanned derives⟩

theorem dotted_of_names {k : Keyword} {chains : List (Chain String)}
    (h : LegibleLeaves (Specification.namesLeaves k chains)) :
    ∀ name ∈ chains.map (fun c => ".".intercalate c.toList), Dotted name := by
  intro name hname
  obtain ⟨c, hc, rfl⟩ := List.mem_map.1 hname
  have leaves := h.of_flatMap hc
  rw [List.cons_append, legibleLeaves_cons, legibleLeaves_append] at leaves
  exact dotted_of_chain leaves.2.1

/-- The library of a specification with legible leaves is written. -/
theorem written_of_legible {s : Specification} (admissible : s.Admissible)
    (h : LegibleLeaves s.leaves) (finite : s.library.Finite) : s.library.Written := by
  simp only [Specification.leaves, List.cons_append, List.append_assoc, legibleLeaves_cons,
    legibleLeaves_append] at h
  obtain ⟨_, name, _, imports, includes, _, _, types, _, automata, converters, functions, _⟩ := h
  refine ⟨isName_of_legible name, dotted_of_names imports, dotted_of_names includes, ?_, ?_, ?_, ?_⟩
  · intro d hd
    rw [Specification.library, TypeTable.decls_ofList] at hd
    obtain ⟨n, hn, rfl⟩ := List.mem_map.1 hd
    exact DeclarationNode.written (admissible.types n hn) (types.of_flatMap hn)
  · intro a ha
    obtain ⟨n, hn, rfl⟩ := List.mem_map.1 ha
    exact AutomatonNode.written (automata.of_flatMap hn)
  · intro c hc
    obtain ⟨n, hn, rfl⟩ := List.mem_map.1 hc
    refine ConverterNode.written (admissible.converters n hn) ?_
    cases hs : s.converters with
    | none =>
      rw [hs] at hn
      cases hn
    | some items =>
      rw [hs] at hn converters
      simp only [Specification.convertersLeaves, List.cons_append, legibleLeaves_cons,
        legibleLeaves_append] at converters
      exact converters.2.2.1.of_flatMap hn
  · intro f hf _
    have finite' := finite f hf
    obtain ⟨n, hn, rfl⟩ := List.mem_map.1 hf
    exact FunctionNode.written (admissible.functions n hn) (functions.of_flatMap hn) finite'

/-- A specification means what the text of its library says. -/
theorem reparsed_library (s : Specification) : s.library.reparsed = s.library := by
  have automata : s.library.automata.map Automaton.reparsed = s.library.automata := by
    rw [Specification.library, List.map_map]
    exact List.map_congr_left fun n _ => n.reparsed_automaton
  have functions : s.library.functions.filter (fun f => !f.builtin) = s.library.functions := by
    refine List.filter_eq_self.2 fun f hf => ?_
    obtain ⟨n, _, rfl⟩ := List.mem_map.1 hf
    rfl
  rw [reparsed, automata, functions]

/-! ## The round trip -/

/-- A library that was parsed is written, and it is what its text says. -/
theorem written_of_parse {source : String} {l : Library} (h : parse source = .ok l)
    (finite : l.Finite) : l.Written ∧ l.reparsed = l := by
  obtain ⟨s, rfl, admissible, legible⟩ := exists_of_parse h
  exact ⟨written_of_legible admissible legible finite, reparsed_library s⟩

/-- A library that is what its text says has no builtin functions. -/
theorem declared_of_reparsed {l : Library} (h : l.reparsed = l) :
    ∀ f ∈ l.functions, f.builtin = false := by
  intro f hf
  have functions : l.functions.filter (fun f => !f.builtin) = l.functions :=
    congrArg Library.functions h
  have kept := (List.filter_eq_self.1 functions) f hf
  rwa [Bool.not_eq_true'] at kept

/-- A library that is what its text says has automata without functions. -/
theorem bare_of_reparsed {l : Library} (h : l.reparsed = l) :
    ∀ a ∈ l.automata, a.functions = [] := by
  intro a ha
  have automata : l.automata.map Automaton.reparsed = l.automata := congrArg Library.automata h
  rw [← automata] at ha
  obtain ⟨b, _, rfl⟩ := List.mem_map.1 ha
  rfl

/-- A library without infinite numbers is parsed from its text again. -/
theorem parse_print {source : String} {l : Library} (h : parse source = .ok l)
    (finite : l.Finite) : parse l.print = .ok l := by
  obtain ⟨written, same⟩ := written_of_parse h finite
  rw [parse_print_of_written written, same]

/-- A source that is not the text of its library. -/
def clock : String :=
  "library clock;types\x7bTime(long /* ns */ int);\x7dTime wait(d:Time)requires d>-0&!(d>1.50)\x7b\x7d"

theorem parse_print_clock :
    ∃ l, parse clock = .ok l ∧ l.Finite
      ∧ l.print = "library clock;\n\ntypes \x7b\n    Time (long /* ns */ int);\n\x7d\n\n"
          ++ "Time wait(d: Time) requires d > 0 & !(d > 1.5) \x7b\n\x7d\n"
      ∧ parse l.print = .ok l := by
  have checked : ((parse clock).toOption.any fun l => decide (l.Finite
      ∧ l.print = "library clock;\n\ntypes \x7b\n    Time (long /* ns */ int);\n\x7d\n\n"
        ++ "Time wait(d: Time) requires d > 0 & !(d > 1.5) \x7b\n\x7d\n")) = true := by
    decide +kernel
  cases h : parse clock with
  | error fault =>
    rw [h] at checked
    cases checked
  | ok l =>
    rw [h] at checked
    obtain ⟨finite, text⟩ := of_decide_eq_true checked
    exact ⟨l, rfl, finite, text, parse_print h finite⟩

end Library
end LibrarySpec
