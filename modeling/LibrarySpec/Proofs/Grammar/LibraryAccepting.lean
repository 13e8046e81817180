/-
  What the parser of libraries accepts.

  One lemma stands beside each parser of declarations, as in `Proofs/Grammar/LibraryReading.lean`.
  Most declarations end with a semicolon or a brace of their own and are accepted in front of
  anything; the others say which token may not follow.
-/
import LibrarySpec.Proofs.Grammar.ContractAccepting
import LibrarySpec.Proofs.Grammar.LibraryReading

namespace LibrarySpec

open Grammar LibrarySpec.Parser

variable {after : List Leaf}

/-! ## Names -/

namespace Parser

/-- What stands behind the items begins as they do, or there is no item. -/
theorem begins_flatMap {τ : Type} {F : Token → Prop} {leaves : τ → List Leaf} {ts : List τ}
    (begins : ∀ t ∈ ts, Begins F (leaves t)) (h : Begins F after) :
    Begins F (ts.flatMap leaves ++ after) := by
  cases ts with
  | nil => exact h
  | cons t ts =>
    rw [List.flatMap_cons, List.append_assoc]
    exact (begins t (by simp)).append _

theorem accepts_names {separator : Symbol} {wanted : String} (items : Chain String)
    (h : Begins (· ≠ .symbol separator) after) :
    Accepts (separated (.symbol separator) (identifier wanted)) (names separator items.toList)
      items.toList after := by
  have whole : Accepts (separated (.symbol separator) (identifier wanted))
      (separate separator (fun name => [ident name]) items.toList) (items.toList.map id) after :=
    accepts_separated (F := fun _ => True) items (fun _ _ _ _ => accepts_identifier) trivial
      (h.mono fun _ ht => ⟨trivial, ht⟩)
  rwa [List.map_id] at whole

theorem accepts_dottedName {wanted : String} (items : Chain String)
    (h : Begins (· ≠ .symbol .dot) after) :
    Accepts (dottedName wanted) (names .dot items.toList) (".".intercalate items.toList) after :=
  (accepts_names items h).andReturn

theorem accepts_nameArguments {wanted closing : String} (items : List String) :
    Accepts (inParens (identifier wanted) closing) (names .comma items ++ [sym .closeParen]) items
      after := by
  have whole : Accepts (inParens (identifier wanted) closing)
      (separate .comma (fun name => [ident name]) items ++ [sym .closeParen]) (items.map id)
      after :=
    accepts_inParens (F := fun _ => True) items (fun _ _ _ _ => accepts_identifier)
      (fun _ _ => begins_token.2 (by simp)) trivial trivial
  rwa [List.map_id] at whole

theorem accepts_semicolon : Accepts semicolon [sym .semicolon] () after :=
  accepts_expect (by simp)

end Parser

/-! ## Types and converters -/

theorem TypeDecl.accepts_decl (d : DeclarationNode) (hd : d.Admissible) :
    Accepts TypeDecl.parser d.leaves d.decl after := by
  have type : Accepts SemanticType.parser d.type.leaves d.type.type
      ([sym .openParen, d.code.leaf, sym .closeParen, sym .semicolon] ++ after) :=
    SemanticType.accepts_type d.type (begins_token.2 (endsType_symbol (by simp)))
  refine type.bind ?_
  refine (accepts_expect (by simp)).step ?_
  refine (accepts_verbatim hd).step ?_
  refine (accepts_expect (by simp)).step ?_
  exact accepts_semicolon.step .pure

theorem DeclarationNode.begins {F : Token → Prop} (d : DeclarationNode)
    (h : ∀ name, F (.identifier name)) : Begins F d.leaves :=
  (d.type.begins h).append _

theorem TypeTable.accepts_table (types : List DeclarationNode)
    (admissible : ∀ d ∈ types, d.Admissible) :
    Accepts TypeTable.parser
      (kw .types :: sym .openBrace :: (types.flatMap DeclarationNode.leaves ++ [sym .closeBrace]))
      (.ofList (types.map DeclarationNode.decl)) after := by
  have decls : Accepts (upTo (.symbol .closeBrace) TypeDecl.parser)
      (types.flatMap DeclarationNode.leaves ++ [sym .closeBrace])
      (types.map DeclarationNode.decl) after :=
    accepts_upTo (F := fun _ => True) (by simp) types
      (fun d hd _ _ => TypeDecl.accepts_decl d (admissible d hd))
      (fun d _ => DeclarationNode.begins d (by simp)) trivial
  refine (accepts_expect (by simp)).step ?_
  refine (accepts_expect (by simp)).step ?_
  exact decls.andReturn

theorem Converter.accepts_converter (c : ConverterNode) (hc : c.Admissible) :
    Accepts Converter.parser c.leaves c.converter after := by
  have type : Accepts SemanticType.parser c.type.leaves c.type.type
      ([sym .less, sym .minus, c.expression.leaf, sym .semicolon] ++ after) :=
    SemanticType.accepts_type c.type (begins_token.2 (endsType_symbol (by simp)))
  refine type.bind ?_
  refine (accepts_expect (by simp)).step ?_
  refine (accepts_expect (by simp)).step ?_
  refine (accepts_verbatim hc).step ?_
  exact accepts_semicolon.step .pure

theorem Converter.accepts_section (converters : Option (List ConverterNode))
    (admissible : ∀ c ∈ converters.getD [], c.Admissible)
    (h : Begins (· ≠ .keyword .converters) after) :
    Accepts Converter.sectionParser (Specification.convertersLeaves converters)
      ((converters.getD []).map ConverterNode.converter) after := by
  cases converters with
  | none => exact (accepts_eat_false h).look .pure
  | some items =>
    have body : Accepts (upTo (.symbol .closeBrace) Converter.parser)
        (items.flatMap ConverterNode.leaves ++ [sym .closeBrace])
        (items.map ConverterNode.converter) after :=
      accepts_upTo (F := fun _ => True) (by simp) items
        (fun c hc _ _ => Converter.accepts_converter c (admissible c hc))
        (fun c _ => (c.type.begins (by simp)).append _) trivial
    refine (accepts_eat (by simp)).step ?_
    exact (accepts_expect (by simp)).step body

/-! ## Automata -/

namespace Automaton

theorem accepts_itemBody (i : ItemNode) :
    Accepts itemBody i.body i.item (sym .semicolon :: after) := by
  cases i with
  | extendable =>
    refine accepts_peek.look ?_
    exact (accepts_advance (by simp)).step .pure
  | package name =>
    have dotted : Accepts (dottedName "package name") (names .dot name.toList)
        (".".intercalate name.toList) (sym .semicolon :: after) :=
      accepts_dottedName name (begins_token.2 (by simp))
    refine accepts_peek.look ?_
    exact (accepts_advance (by simp)).step dotted.andReturn
  | variableItem name type =>
    have type : Accepts SemanticType.parser type.leaves type.type (sym .semicolon :: after) :=
      SemanticType.accepts_type type (begins_token.2 (endsType_symbol (by simp)))
    refine accepts_peek.look ?_
    refine (accepts_advance (by simp)).step ?_
    refine accepts_identifier.step ?_
    exact (accepts_expect (by simp)).step type.andReturn
  | states items =>
    have list : Accepts (nameList "state name") (names .comma items.toList) items.toList
        (sym .semicolon :: after) :=
      accepts_names items (begins_token.2 (by simp))
    refine accepts_peek.look ?_
    exact (accepts_advance (by simp)).step list.andReturn
  | finalState name =>
    refine accepts_peek.look ?_
    refine (accepts_advance (by simp)).step ?_
    exact accepts_identifier.andReturn
  | shift source target functions =>
    have list : Accepts (nameList "function name") (names .comma functions.toList)
        functions.toList ([sym .closeParen] ++ (sym .semicolon :: after)) :=
      accepts_names functions (begins_token.2 (by simp))
    refine accepts_peek.look ?_
    refine (accepts_advance (by simp)).step ?_
    refine accepts_identifier.step ?_
    refine (accepts_expect (by simp)).step ?_
    refine accepts_identifier.step ?_
    refine (accepts_expect (by simp)).step ?_
    exact list.bind ((accepts_expect (by simp)).step .pure)

theorem accepts_item (i : ItemNode) : Accepts item i.leaves i.item after :=
  (accepts_itemBody i).bind (accepts_semicolon.step .pure)

theorem begins_item (i : ItemNode) : Begins (· ≠ .symbol .closeBrace) i.leaves := by
  cases i <;> exact begins_token.2 (by simp)

theorem accepts_automaton (a : AutomatonNode) (ha : a.Admissible) :
    Accepts Automaton.parser a.leaves a.automaton after := by
  have type : Accepts SemanticType.parser a.type.leaves a.type.type
      ((sym .openBrace :: (a.items.flatMap ItemNode.leaves ++ [sym .closeBrace])) ++ after) :=
    SemanticType.accepts_type a.type (begins_token.2 (endsType_symbol (by simp)))
  have items : Accepts (upTo (.symbol .closeBrace) item)
      (a.items.flatMap ItemNode.leaves ++ [sym .closeBrace]) (a.items.map ItemNode.item)
      after :=
    accepts_upTo (F := fun _ => True) (by simp) a.items (fun i _ _ _ => accepts_item i)
      (fun i _ => (begins_item i).mono fun _ ht => ⟨trivial, ht⟩) trivial
  have sorted : ∀ place, ofItems a.type.type (a.items.map ItemNode.item) place
      = .ok a.automaton := by
    intro place
    rw [ofItems_eq, if_neg (Nat.not_lt_of_le ha)]
  rw [AutomatonNode.leaves, List.append_assoc]
  intro c st hs
  rw [Automaton.parser, bind_of_ok (place_apply c)]
  refine Accepts.step (accepts_expect (by simp)) ?_ c st hs
  refine type.bind ?_
  refine (accepts_expect (by simp)).step ?_
  rw [← List.append_nil (a.items.flatMap ItemNode.leaves ++ [sym .closeBrace])]
  refine Accepts.bind items ?_
  simp only [sorted]
  exact .pure

end Automaton

/-! ## Functions -/

namespace FunctionSpec

theorem accepts_annotations (marks : List String) (h : Begins (· ≠ .symbol .atSign) after) :
    Accepts annotations (markLeaves marks) marks after := by
  have whole : Accepts annotations
      (marks.flatMap fun mark => .token (.symbol .atSign) :: [ident mark]) (marks.map id) after :=
    accepts_afterEach (F := fun _ => True) (by simp) marks (fun _ _ _ _ => accepts_identifier)
      trivial (h.mono fun _ ht => ⟨trivial, ht⟩)
  rwa [List.map_id] at whole

theorem accepts_argument (a : ArgumentNode) (h : Begins EndsType after) :
    Accepts argument a.leaves a.argument after := by
  have marks : Accepts annotations (markLeaves a.marks) a.marks
      ((ident a.name :: sym .colon :: a.type.leaves) ++ after) :=
    accepts_annotations a.marks (begins_token.2 (by simp))
  refine marks.bind ?_
  refine accepts_identifier.step ?_
  exact (accepts_expect (by simp)).step (SemanticType.accepts_type a.type h).andReturn

theorem begins_argument (a : ArgumentNode) : Begins (· ≠ .symbol .closeParen) a.leaves := by
  obtain ⟨_ | ⟨mark, marks⟩, name, type⟩ := a
  · exact begins_token.2 (by simp)
  · exact begins_token.2 (by simp)

/-- The atoms in front of the arguments; there is at least one. -/
theorem accepts_head (first : TypeAtom) (more : List TypeAtom) :
    Accepts head ((first :: more).flatMap TypeAtom.leaves) ((first :: more).map TypeAtom.type)
      (sym .openParen :: after) := by
  have name : ∀ a ∈ more, Begins EndsAtom a.leaves :=
    fun a _ => a.begins (endsAtom_identifier a.name)
  have behind : Begins EndsAtom (sym .openParen :: after) :=
    begins_token.2 (by simp [EndsAtom])
  have goOn : ∀ a ∈ more, ∀ rest, Begins EndsAtom rest →
      Accepts (do if ← check (.symbol .openParen) then return none
                  else if ← atIdentifier then return some (← SemanticType.atom)
                  else fail "'(' after function name")
        a.leaves (some a.type) rest := by
    intro a _ rest hrest
    have notOpen : Accepts (check (.symbol .openParen)) [] false (a.leaves ++ rest) :=
      accepts_check_false ((a.begins (by simp)).append rest)
    have isName : Accepts atIdentifier [] true (a.leaves ++ rest) := accepts_atIdentifier
    refine notOpen.look (isName.look ?_)
    exact (SemanticType.accepts_atom a hrest).andReturn
  have done : Accepts (do if ← check (.symbol .openParen) then return none
                          else if ← atIdentifier then return some (← SemanticType.atom)
                          else fail "'(' after function name")
      [] (none : Option SemanticType) (sym .openParen :: after) :=
    accepts_check_true.look .pure
  have tail := accepts_repeat more goOn name behind done
  exact (SemanticType.accepts_atom first (begins_flatMap name behind)).bind tail.andReturn

theorem accepts_clause (opening : Keyword) (tree : Option Conjunction)
    (h : Begins (fun t => rank t < 1 ∧ t ≠ .keyword opening) after) :
    Accepts (clause opening) (FunctionNode.clauseLeaves opening tree)
      (tree.map Conjunction.contract) after := by
  cases tree with
  | none => exact (accepts_eat_false (h.mono fun _ ht => ht.2)).look .pure
  | some tree =>
    have contract := Contract.accepts_contract tree (h.mono fun _ ht => ht.1)
    exact (accepts_eat (by simp)).step contract.andReturn

theorem accepts_result (result : Option ResultNode) :
    Accepts resultParser (result.elim [] ResultNode.leaves) (result.map ResultNode.result)
      (sym .openBrace :: after) := by
  cases result with
  | none => exact (accepts_eat_false (begins_token.2 (by simp))).look .pure
  | some r =>
    have type : Accepts SemanticType.parser r.type.leaves r.type.type (sym .openBrace :: after) :=
      SemanticType.accepts_type r.type (begins_token.2 (endsType_symbol (by simp)))
    have marks : Accepts annotations (markLeaves r.marks) r.marks
        (r.type.leaves ++ sym .openBrace :: after) :=
      accepts_annotations r.marks ((r.type.begins (by simp)).append _)
    refine (accepts_eat (by simp)).step ?_
    exact marks.bind type.andReturn

theorem accepts_partBody (p : PropertyNode) (hp : p.Admissible) :
    Accepts partBody p.body p.part (sym .semicolon :: after) := by
  cases p with
  | action name arguments =>
    refine accepts_peek.look ?_
    refine (accepts_advance (by simp)).step ?_
    refine accepts_identifier.step ?_
    exact (accepts_expect (by simp)).step (accepts_nameArguments arguments).andReturn
  | static name =>
    refine accepts_peek.look ?_
    refine (accepts_advance (by simp)).step ?_
    cases name with
    | none =>
      have noName : Accepts atIdentifier [] false (sym .semicolon :: after) :=
        accepts_atIdentifier_false (begins_token.2 (by simp [NotName]))
      exact noName.look .pure
    | some name =>
      refine accepts_atIdentifier.look ?_
      exact accepts_identifier.andReturn
  | property key value =>
    refine accepts_peek.look ?_
    refine (accepts_advance (by simp)).step ?_
    refine accepts_identifier.step ?_
    exact (accepts_expect (by simp)).step (accepts_verbatim hp).andReturn
  | assignment name automaton arguments =>
    have type : Accepts SemanticType.parser automaton.leaves automaton.type
        ((sym .openParen :: (names .comma arguments ++ [sym .closeParen]))
          ++ (sym .semicolon :: after)) :=
      SemanticType.accepts_type automaton (begins_token.2 (endsType_symbol (by simp)))
    rw [PropertyNode.body, List.append_assoc]
    refine accepts_peek.look ?_
    refine (accepts_advance (by simp)).step ?_
    refine (accepts_expect (by simp)).step ?_
    refine (accepts_expect (by simp)).step ?_
    refine type.bind ?_
    exact (accepts_expect (by simp)).step (accepts_nameArguments arguments).andReturn

theorem accepts_part (p : PropertyNode) (hp : p.Admissible) :
    Accepts part p.leaves p.part after :=
  (accepts_partBody p hp).bind (accepts_semicolon.step .pure)

theorem begins_part (p : PropertyNode) : Begins (· ≠ .symbol .closeBrace) p.leaves := by
  cases p <;> exact begins_token.2 (by simp)

/-- What stands behind the contracts of a function. -/
theorem begins_result (result : Option ResultNode) {opening : Keyword} :
    Begins (fun t => rank t < 1 ∧ t ≠ .keyword opening)
      (result.elim [] ResultNode.leaves ++ sym .openBrace :: after) := by
  cases result <;> exact begins_token.2 ⟨by decide, by simp⟩

/-- What stands behind the first contract of a function. -/
theorem begins_ensures (tree : Option Conjunction) (result : Option ResultNode) :
    Begins (fun t => rank t < 1 ∧ t ≠ .keyword .requires)
      (FunctionNode.clauseLeaves .ensures tree
        ++ (result.elim [] ResultNode.leaves ++ sym .openBrace :: after)) := by
  cases tree with
  | none => exact begins_result result
  | some tree => exact begins_token.2 ⟨by decide, by simp⟩

theorem accepts_function (f : FunctionNode) (hf : f.Admissible) :
    Accepts FunctionSpec.parser f.leaves f.function after := by
  have parts : Accepts (upTo (.symbol .closeBrace) part)
      (f.properties.flatMap PropertyNode.leaves ++ [sym .closeBrace])
      (f.properties.map PropertyNode.part) ([] ++ after) :=
    accepts_upTo (F := fun _ => True) (by simp) f.properties
      (fun p hp _ _ => accepts_part p (hf.properties p hp))
      (fun p _ => (begins_part p).mono fun _ ht => ⟨trivial, ht⟩) trivial
  have sorted : ∀ place, ofParts (ownerOfAtoms (f.owner.map TypeAtom.type)) f.name
      (f.arguments.map ArgumentNode.argument)
      ⟨f.requires.map Conjunction.contract, f.ensures.map Conjunction.contract⟩
      (f.result.map ResultNode.result) (f.properties.map PropertyNode.part) place
        = .ok f.function :=
    fun place => ofParts_eq_ok.2 ⟨hf.handle, hf.statics, rfl⟩
  have arguments : ∀ rest, Accepts (inParens argument "')'")
      (separate .comma ArgumentNode.leaves f.arguments ++ [sym .closeParen])
      (f.arguments.map ArgumentNode.argument) rest :=
    fun rest => accepts_inParens (F := EndsType) f.arguments
      (fun a _ _ hm => accepts_argument a hm) (fun a _ => begins_argument a)
      (endsType_symbol (by simp)) (endsType_symbol (by simp))
  obtain ⟨first, more, atoms⟩ : ∃ first more, f.owner ++ [⟨f.name, []⟩] = first :: more := by
    cases f.owner with
    | nil => exact ⟨_, [], rfl⟩
    | cons a rest => exact ⟨a, rest ++ [⟨f.name, []⟩], rfl⟩
  have types : (first :: more).map TypeAtom.type
      = f.owner.map TypeAtom.type ++ [.simple f.name] := by
    rw [← atoms, List.map_append]
    rfl
  have leaves : f.leaves = (first :: more).flatMap TypeAtom.leaves
      ++ (sym .openParen :: ((separate .comma ArgumentNode.leaves f.arguments ++ [sym .closeParen])
        ++ (FunctionNode.clauseLeaves .requires f.requires
          ++ (FunctionNode.clauseLeaves .ensures f.ensures
            ++ (f.result.elim [] ResultNode.leaves
              ++ (sym .openBrace
                :: ((f.properties.flatMap PropertyNode.leaves ++ [sym .closeBrace]) ++ []))))))) := by
    rw [← atoms, List.flatMap_append, FunctionNode.leaves]
    simp [TypeAtom.leaves, TypeAtom.tokens, ident]
  rw [leaves]
  intro c st hs
  rw [FunctionSpec.parser, bind_of_ok (place_apply c)]
  refine (accepts_head first more).bind ?_ c st hs
  simp only [types, List.getLast?_concat, List.dropLast_concat]
  refine (accepts_expect (by simp)).step ?_
  refine (arguments _).bind ?_
  refine (accepts_clause .requires f.requires ?_).bind ?_
  · rw [List.append_assoc, List.append_assoc]
    exact begins_ensures f.ensures f.result
  refine (accepts_clause .ensures f.ensures ?_).bind ?_
  · rw [List.append_assoc]
    exact begins_result f.result
  refine (accepts_result f.result).bind ?_
  refine (accepts_expect (by simp)).step ?_
  refine parts.bind ?_
  simp only [sorted]
  exact .pure

theorem begins_function {F : Token → Prop} (f : FunctionNode) (h : ∀ name, F (.identifier name)) :
    Begins F f.leaves := by
  obtain ⟨_ | ⟨first, rest⟩, name, arguments, requires, ensures, result, properties⟩ := f
  · exact begins_token.2 (h name)
  · exact begins_token.2 (h first.name)

end FunctionSpec

/-! ## Libraries -/

namespace Library

theorem accepts_dottedNames {opening : Keyword} {wanted : String} (items : List (Chain String))
    (h : Begins (· ≠ .keyword opening) after) :
    Accepts (afterEach (.keyword opening) (do
        let n ← dottedName wanted
        semicolon
        return n))
      (Specification.namesLeaves opening items) (items.map fun n => ".".intercalate n.toList)
      after := by
  have item : ∀ n ∈ items, ∀ more, Begins (fun _ => True) more →
      Accepts (do
          let n ← dottedName wanted
          semicolon
          return n)
        (names .dot n.toList ++ [sym .semicolon]) (".".intercalate n.toList) more := by
    intro n _ more _
    have dotted : Accepts (dottedName wanted) (names .dot n.toList) (".".intercalate n.toList)
        ([sym .semicolon] ++ more) := accepts_dottedName n (begins_token.2 (by simp))
    exact dotted.bind (accepts_semicolon.step .pure)
  exact accepts_afterEach (by simp) items item trivial (h.mono fun _ ht => ⟨trivial, ht⟩)

theorem accepts_automata (automata : List AutomatonNode) (admissible : ∀ a ∈ automata, a.Admissible)
    (h : Begins (· ≠ .keyword .automaton) after) :
    Accepts (collect do
        if ← check (.keyword .automaton) then return some (← Automaton.parser) else return none)
      (automata.flatMap AutomatonNode.leaves) (automata.map AutomatonNode.automaton) after := by
  have goOn : ∀ a ∈ automata, ∀ more, Begins (fun _ => True) more →
      Accepts (do
          if ← check (.keyword .automaton) then return some (← Automaton.parser) else return none)
        a.leaves (some a.automaton) more := by
    intro a ha more _
    have isAutomaton : Accepts (check (.keyword .automaton)) [] true (a.leaves ++ more) :=
      accepts_check_true
    refine isAutomaton.look ?_
    exact (Automaton.accepts_automaton a (admissible a ha)).andReturn
  exact accepts_repeat automata goOn (fun _ _ => begins_token.2 trivial)
    (h.mono fun _ _ => trivial) ((accepts_check_false h).look .pure)

theorem accepts_functions (functions : List FunctionNode)
    (admissible : ∀ f ∈ functions, f.Admissible) :
    Accepts (collect do
        if ← check .eof then return none else return some (← FunctionSpec.parser))
      (functions.flatMap FunctionNode.leaves) (functions.map FunctionNode.function)
      [.token .eof] := by
  have goOn : ∀ f ∈ functions, ∀ more, Begins (fun _ => True) more →
      Accepts (do
          if ← check .eof then return none else return some (← FunctionSpec.parser))
        f.leaves (some f.function) more := by
    intro f hf more _
    have notEnd : Accepts (check .eof) [] false (f.leaves ++ more) :=
      accepts_check_false ((FunctionSpec.begins_function f (by simp)).append more)
    refine notEnd.look ?_
    exact (FunctionSpec.accepts_function f (admissible f hf)).andReturn
  exact accepts_repeat functions goOn (fun f _ => FunctionSpec.begins_function f fun _ => trivial)
    (begins_token.2 trivial) (accepts_check_true.look .pure)

/-- Keywords begin the sections, so a section that is missing leaves the next one's keyword. -/
theorem begins_functions {F : Token → Prop} (functions : List FunctionNode)
    (h : ∀ name, F (.identifier name)) (hend : F .eof) :
    Begins F (functions.flatMap FunctionNode.leaves ++ [.token .eof]) :=
  begins_flatMap (fun f _ => FunctionSpec.begins_function f h) (begins_token.2 hend)

theorem begins_converters {F : Token → Prop} (converters : Option (List ConverterNode))
    (functions : List FunctionNode) (h : ∀ name, F (.identifier name)) (hend : F .eof)
    (hkey : F (.keyword .converters)) :
    Begins F (Specification.convertersLeaves converters
      ++ (functions.flatMap FunctionNode.leaves ++ [.token .eof])) := by
  cases converters with
  | none => exact begins_functions functions h hend
  | some items => exact begins_token.2 hkey

theorem begins_names {F : Token → Prop} {opening : Keyword} (items : List (Chain String))
    (hkey : F (.keyword opening)) (h : Begins F after) :
    Begins F (Specification.namesLeaves opening items ++ after) :=
  begins_flatMap (fun _ _ => begins_token.2 hkey) h

theorem accepts_sections (s : Specification) (hs : s.Admissible) :
    Accepts parser
      (kw .library :: ident s.name :: sym .semicolon
        :: (Specification.namesLeaves .importName s.imports
          ++ (Specification.namesLeaves .includeName s.includes
            ++ ((kw .types :: sym .openBrace
                :: (s.types.flatMap DeclarationNode.leaves ++ [sym .closeBrace]))
              ++ (s.automata.flatMap AutomatonNode.leaves
                ++ (Specification.convertersLeaves s.converters
                  ++ (s.functions.flatMap FunctionNode.leaves ++ [])))))))
      s.library [.token .eof] := by
  refine (accepts_expect (by simp)).step ?_
  refine accepts_identifier.step ?_
  refine accepts_semicolon.step ?_
  refine (accepts_dottedNames s.imports ?_).bind ?_
  · rw [List.append_assoc]
    exact begins_names s.includes (by simp) (begins_token.2 (by simp))
  refine (accepts_dottedNames s.includes (begins_token.2 (by simp))).bind ?_
  refine (TypeTable.accepts_table s.types hs.types).bind ?_
  refine (accepts_automata s.automata hs.automata ?_).bind ?_
  · rw [List.append_nil, List.append_assoc]
    exact begins_converters s.converters s.functions (by simp) (by simp) (by simp)
  refine (Converter.accepts_section s.converters hs.converters ?_).bind ?_
  · rw [List.append_nil]
    exact begins_functions s.functions (by simp) (by simp)
  exact (accepts_functions s.functions hs.functions).bind .pure

/-- In front of what an admissible specification derives the parser answers its library, and stops
    in front of the end of the input. -/
theorem accepts_library (s : Specification) (hs : s.Admissible) {c : Cursor}
    (st : Stream c.ahead) (spelled : Spells s.leaves c.ahead) :
    ∃ c', parser c = .ok (s.library, c') ∧ Spells [.token .eof] c'.ahead := by
  have sections := accepts_sections s hs c st
  simp only [Specification.leaves, List.append_assoc, List.cons_append, List.nil_append]
    at spelled sections
  obtain ⟨c', hc', _, left⟩ := sections spelled
  exact ⟨c', hc', left⟩

end Library
end LibrarySpec
