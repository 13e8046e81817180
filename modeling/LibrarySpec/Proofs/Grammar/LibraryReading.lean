/-
  What the parser of libraries reads.

  One lemma stands beside each parser of declarations, in the order of the grammar.  A declaration
  whose parts are sorted after they are read has two lemmas: the parts read (`reads_item`,
  `reads_part`), and what the sorting makes of them (`ofItems_eq`, `ofParts_eq`).
-/
import LibrarySpec.Library.Parser
import LibrarySpec.Proofs.Grammar.ContractReading
import LibrarySpec.Proofs.Grammar.Declaration

namespace LibrarySpec

open Grammar LibrarySpec.Parser

/-! ## Names -/

namespace Parser

theorem reads_names (separator : Symbol) (wanted : String) :
    Reads (separated (.symbol separator) (identifier wanted))
      (fun c : Chain String => names separator c.toList) Chain.toList (fun _ => True) := by
  intro c a c' st h
  obtain ⟨items, _, hv, passed⟩ := separated_eq_ok (reads_identifier wanted) st h
  rw [List.map_id] at hv
  exact ⟨items, trivial, hv, passed⟩

theorem reads_dottedName (wanted : String) :
    Reads (dottedName wanted) (fun c : Chain String => names .dot c.toList)
      (fun c => ".".intercalate c.toList) (fun _ => True) := by
  intro c a c' st h
  obtain ⟨items, d, hi, hd⟩ := bind_eq_ok.1 h
  cases hd
  obtain ⟨chain, _, rfl, passed⟩ := reads_names .dot wanted _ _ _ st hi
  exact ⟨chain, trivial, rfl, passed⟩

theorem semicolon_eq_ok {c c' : Cursor} (st : Stream c.ahead) (h : semicolon c = .ok ((), c')) :
    Passed c c' [sym .semicolon] :=
  expect_eq_ok st (by simp) h

/-- Names in parentheses. -/
theorem nameArguments_eq_ok {wanted closing : String} {c c' : Cursor} {as : List String}
    (st : Stream c.ahead) (h : inParens (identifier wanted) closing c = .ok (as, c')) :
    Passed c c' (names .comma as ++ [sym .closeParen]) := by
  obtain ⟨items, _, rfl, passed⟩ := inParens_eq_ok (reads_identifier wanted) st h
  rw [List.map_id]
  exact passed

end Parser

/-! ## Types and converters -/

theorem TypeDecl.reads_decl :
    Reads TypeDecl.parser DeclarationNode.leaves DeclarationNode.decl
      DeclarationNode.Admissible := by
  intro c a c' st h
  obtain ⟨type, c₁, h₁, h⟩ := bind_eq_ok.1 h
  obtain ⟨_, c₂, h₂, h⟩ := bind_eq_ok.1 h
  obtain ⟨code, c₃, h₃, h⟩ := bind_eq_ok.1 h
  obtain ⟨_, c₄, h₄, h⟩ := bind_eq_ok.1 h
  obtain ⟨_, c₅, h₅, h⟩ := bind_eq_ok.1 h
  cases h
  obtain ⟨t, _, rfl, p₁⟩ := SemanticType.reads_type _ _ _ st h₁
  have p₂ := expect_eq_ok p₁.stream (by simp) h₂
  obtain ⟨r, hr, rfl, p₃⟩ := verbatim_eq_ok p₂.stream h₃
  have p₄ := expect_eq_ok p₃.stream (by simp) h₄
  have p₅ := semicolon_eq_ok p₄.stream h₅
  exact ⟨⟨t, r⟩, hr, rfl, p₁.trans (p₂.trans (p₃.trans (p₄.trans p₅)))⟩

theorem TypeTable.table_eq_ok {c c' : Cursor} {table : TypeTable} (st : Stream c.ahead)
    (h : TypeTable.parser c = .ok (table, c')) :
    ∃ types : List DeclarationNode, (∀ d ∈ types, d.Admissible)
      ∧ table = .ofList (types.map DeclarationNode.decl)
      ∧ Passed c c' (kw .types :: sym .openBrace
          :: (types.flatMap DeclarationNode.leaves ++ [sym .closeBrace])) := by
  obtain ⟨_, c₁, h₁, h⟩ := bind_eq_ok.1 h
  obtain ⟨_, c₂, h₂, h⟩ := bind_eq_ok.1 h
  obtain ⟨decls, c₃, h₃, h⟩ := bind_eq_ok.1 h
  cases h
  have p₁ := expect_eq_ok st (by simp) h₁
  have p₂ := expect_eq_ok p₁.stream (by simp) h₂
  obtain ⟨types, admissible, rfl, p₃⟩ := upTo_eq_ok (by simp) TypeDecl.reads_decl p₂.stream h₃
  exact ⟨types, admissible, rfl, p₁.trans (p₂.trans p₃)⟩

theorem Converter.reads_converter :
    Reads Converter.parser ConverterNode.leaves ConverterNode.converter
      ConverterNode.Admissible := by
  intro c a c' st h
  obtain ⟨type, c₁, h₁, h⟩ := bind_eq_ok.1 h
  obtain ⟨_, c₂, h₂, h⟩ := bind_eq_ok.1 h
  obtain ⟨_, c₃, h₃, h⟩ := bind_eq_ok.1 h
  obtain ⟨expression, c₄, h₄, h⟩ := bind_eq_ok.1 h
  obtain ⟨_, c₅, h₅, h⟩ := bind_eq_ok.1 h
  cases h
  obtain ⟨t, _, rfl, p₁⟩ := SemanticType.reads_type _ _ _ st h₁
  have p₂ := expect_eq_ok p₁.stream (by simp) h₂
  have p₃ := expect_eq_ok p₂.stream (by simp) h₃
  obtain ⟨r, hr, rfl, p₄⟩ := verbatim_eq_ok p₃.stream h₄
  have p₅ := semicolon_eq_ok p₄.stream h₅
  exact ⟨⟨t, r⟩, hr, rfl, p₁.trans (p₂.trans (p₃.trans (p₄.trans p₅)))⟩

theorem Converter.section_eq_ok {c c' : Cursor} {items : List Converter} (st : Stream c.ahead)
    (h : Converter.sectionParser c = .ok (items, c')) :
    ∃ converters : Option (List ConverterNode), (∀ x ∈ converters.getD [], x.Admissible)
      ∧ items = (converters.getD []).map ConverterNode.converter
      ∧ Passed c c' (Specification.convertersLeaves converters) := by
  obtain ⟨b, c₁, h₁, h⟩ := bind_eq_ok.1 h
  cases b with
  | false =>
    cases h
    obtain ⟨rfl, _⟩ := eat_eq_false h₁
    exact ⟨none, by simp, rfl, .refl st⟩
  | true =>
    obtain ⟨_, c₂, h₂, h₃⟩ := bind_eq_ok.1 h
    have p₁ := eat_eq_true st (by simp) h₁
    have p₂ := expect_eq_ok p₁.stream (by simp) h₂
    obtain ⟨items, admissible, rfl, p₃⟩ :=
      upTo_eq_ok (by simp) Converter.reads_converter p₂.stream h₃
    exact ⟨some items, admissible, rfl, p₁.trans (p₂.trans p₃)⟩

/-! ## Automata -/

/-- The parts of some kind, gathered from items. -/
theorem flatMap_eq_filterMap {α β γ : Type} {f : β → List γ} {g : α → Option γ} {h : α → β}
    (hfg : ∀ a, f (h a) = (g a).toList) (as : List α) :
    (as.map h).flatMap f = as.filterMap g := by
  induction as with
  | nil => rfl
  | cons a as ih =>
    rw [List.map_cons, List.flatMap_cons, ih, hfg]
    cases hg : g a with
    | none => rw [List.filterMap_cons_none hg, Option.toList_none, List.nil_append]
    | some c => rw [List.filterMap_cons_some hg, Option.toList_some, List.singleton_append]

namespace Grammar.ItemNode

/-- The item as the parser holds it. -/
def item : ItemNode → Automaton.Item
  | extendable => .extendable
  | package name => .package (".".intercalate name.toList)
  | variableItem name type => .variableItem ⟨name, type.type⟩
  | states names => .states names.toList
  | finalState name => .finalState name
  | shift source target functions => .shift ⟨source, target, functions.toList⟩

end Grammar.ItemNode

namespace Automaton

theorem reads_itemBody :
    Reads itemBody ItemNode.body ItemNode.item (fun _ => True) := by
  intro c a c' st h
  obtain ⟨t, d, ht, h⟩ := bind_eq_ok.1 h
  cases ht
  cases hc : c.current.token with
  | keyword k =>
    rw [hc] at h
    have front := Passed.next st hc (by simp)
    cases k with
    | extendable =>
      cases h
      exact ⟨.extendable, trivial, rfl, front⟩
    | javaPackage =>
      obtain ⟨_, c₁, h₁, h⟩ := bind_eq_ok.1 h
      cases h₁
      obtain ⟨name, c₂, h₂, h⟩ := bind_eq_ok.1 h
      cases h
      obtain ⟨chain, _, rfl, p₂⟩ := reads_dottedName _ _ _ _ front.stream h₂
      exact ⟨.package chain, trivial, rfl, front.trans p₂⟩
    | var =>
      obtain ⟨_, c₁, h₁, h⟩ := bind_eq_ok.1 h
      cases h₁
      obtain ⟨name, c₂, h₂, h⟩ := bind_eq_ok.1 h
      obtain ⟨_, c₃, h₃, h⟩ := bind_eq_ok.1 h
      obtain ⟨type, c₄, h₄, h⟩ := bind_eq_ok.1 h
      cases h
      have p₂ := identifier_eq_ok front.stream h₂
      have p₃ := expect_eq_ok p₂.stream (by simp) h₃
      obtain ⟨t, _, rfl, p₄⟩ := SemanticType.reads_type _ _ _ p₃.stream h₄
      exact ⟨.variableItem name t, trivial, rfl, front.trans (p₂.trans (p₃.trans p₄))⟩
    | states =>
      obtain ⟨_, c₁, h₁, h⟩ := bind_eq_ok.1 h
      cases h₁
      obtain ⟨items, c₂, h₂, h⟩ := bind_eq_ok.1 h
      cases h
      obtain ⟨chain, _, rfl, p₂⟩ := reads_names .comma _ _ _ _ front.stream h₂
      exact ⟨.states chain, trivial, rfl, front.trans p₂⟩
    | finishState =>
      obtain ⟨_, c₁, h₁, h⟩ := bind_eq_ok.1 h
      cases h₁
      obtain ⟨name, c₂, h₂, h⟩ := bind_eq_ok.1 h
      cases h
      exact ⟨.finalState name, trivial, rfl, front.trans (identifier_eq_ok front.stream h₂)⟩
    | shift =>
      obtain ⟨_, c₁, h₁, h⟩ := bind_eq_ok.1 h
      cases h₁
      obtain ⟨source, c₂, h₂, h⟩ := bind_eq_ok.1 h
      obtain ⟨_, c₃, h₃, h⟩ := bind_eq_ok.1 h
      obtain ⟨target, c₄, h₄, h⟩ := bind_eq_ok.1 h
      obtain ⟨_, c₅, h₅, h⟩ := bind_eq_ok.1 h
      obtain ⟨functions, c₆, h₆, h⟩ := bind_eq_ok.1 h
      obtain ⟨_, c₇, h₇, h⟩ := bind_eq_ok.1 h
      cases h
      have p₂ := identifier_eq_ok front.stream h₂
      have p₃ := expect_eq_ok p₂.stream (by simp) h₃
      have p₄ := identifier_eq_ok p₃.stream h₄
      have p₅ := expect_eq_ok p₄.stream (by simp) h₅
      obtain ⟨chain, _, rfl, p₆⟩ := reads_names .comma _ _ _ _ p₅.stream h₆
      have p₇ := expect_eq_ok p₆.stream (by simp) h₇
      exact ⟨.shift source target chain, trivial, rfl,
        front.trans (p₂.trans (p₃.trans (p₄.trans (p₅.trans (p₆.trans p₇)))))⟩
    | _ => exact absurd h fail_ne_ok
  | _ =>
    rw [hc] at h
    exact absurd h fail_ne_ok

theorem reads_item : Reads item ItemNode.leaves ItemNode.item (fun _ => True) := by
  intro c a c' st h
  obtain ⟨i, c₁, h₁, h⟩ := bind_eq_ok.1 h
  obtain ⟨_, c₂, h₂, h⟩ := bind_eq_ok.1 h
  cases h
  obtain ⟨node, _, rfl, p₁⟩ := reads_itemBody _ _ _ st h₁
  exact ⟨node, trivial, rfl, p₁.trans (semicolon_eq_ok p₁.stream h₂)⟩

theorem packages_eq (items : List ItemNode) :
    packages (items.map ItemNode.item) = items.filterMap ItemNode.package? := by
  rw [packages, List.filterMap_map]
  congr 1
  funext i
  cases i <;> rfl

/-- Sorting the items of a tree gives the automaton of the tree, unless there are two packages. -/
theorem ofItems_eq (type : TypeNode) (items : List ItemNode) (place : Text.Position) :
    ofItems type.type (items.map ItemNode.item) place =
      if 1 < (items.filterMap ItemNode.package?).length then
        .error (.duplicatePackage type.type.name place)
      else .ok (AutomatonNode.mk type items).automaton := by
  rw [ofItems, packages_eq]
  split
  · rfl
  · congr 1
    rw [AutomatonNode.automaton]
    congr 1
    · congr 1
      · rw [List.flatMap_map]
        congr 1
        funext i
        cases i <;> rfl
      · exact flatMap_eq_filterMap (fun i => by cases i <;> rfl) items
    · exact flatMap_eq_filterMap (fun i => by cases i <;> rfl) items
    · rw [List.any_map]
      congr 1
      funext i
      cases i <;> rfl
    · exact flatMap_eq_filterMap (fun i => by cases i <;> rfl) items

theorem reads_automaton :
    Reads Automaton.parser AutomatonNode.leaves AutomatonNode.automaton
      AutomatonNode.Admissible := by
  intro c a c' st h
  obtain ⟨start, c₀, h₀, h⟩ := bind_eq_ok.1 h
  cases h₀
  obtain ⟨_, c₁, h₁, h⟩ := bind_eq_ok.1 h
  obtain ⟨type, c₂, h₂, h⟩ := bind_eq_ok.1 h
  obtain ⟨_, c₃, h₃, h⟩ := bind_eq_ok.1 h
  obtain ⟨items, c₄, h₄, h⟩ := bind_eq_ok.1 h
  have p₁ := expect_eq_ok st (by simp) h₁
  obtain ⟨t, _, rfl, p₂⟩ := SemanticType.reads_type _ _ _ p₁.stream h₂
  have p₃ := expect_eq_ok p₂.stream (by simp) h₃
  obtain ⟨nodes, _, rfl, p₄⟩ := upTo_eq_ok (by simp) reads_item p₃.stream h₄
  by_cases double : 1 < (nodes.filterMap ItemNode.package?).length
  · simp only [ofItems_eq, if_pos double] at h
    exact absurd h reject_ne_ok
  · simp only [ofItems_eq, if_neg double] at h
    cases h
    refine ⟨⟨t, nodes⟩, Nat.le_of_not_lt double, rfl, ?_⟩
    have whole := p₁.trans (p₂.trans (p₃.trans p₄))
    rw [AutomatonNode.leaves, List.append_assoc]
    exact whole

end Automaton

/-! ## Functions -/

namespace Grammar

/-- Only an atom without marks is a name. -/
theorem TypeAtom.eq_of_type_eq_simple {a : TypeAtom} {name : String}
    (h : a.type = .simple name) : a = ⟨name, []⟩ := by
  obtain ⟨n, marks⟩ := a
  rcases List.eq_nil_or_concat marks with rfl | ⟨front, m, rfl⟩
  · cases h
    rfl
  · simp only [type, List.concat_eq_append, List.foldl_append, List.foldl_cons,
      List.foldl_nil] at h
    cases m <;> cases h

/-- The property as the parser holds it. -/
def PropertyNode.part : PropertyNode → FunctionSpec.Part
  | action name arguments => .action ⟨name, arguments⟩
  | static name => .static name
  | property key value => .property ⟨key, value.source⟩
  | assignment name automaton arguments => .assignment ⟨name, automaton.type, arguments⟩

end Grammar

namespace FunctionSpec

theorem annotations_eq_ok {c c' : Cursor} {marks : List String} (st : Stream c.ahead)
    (h : annotations c = .ok (marks, c')) : Passed c c' (markLeaves marks) := by
  obtain ⟨ts, _, hv, passed, _⟩ := afterEach_eq_ok (by simp) (reads_identifier _) st h
  rw [List.map_id] at hv
  subst hv
  exact passed

theorem reads_argument :
    Reads argument ArgumentNode.leaves ArgumentNode.argument (fun _ => True) := by
  intro c a c' st h
  obtain ⟨marks, c₁, h₁, h⟩ := bind_eq_ok.1 h
  obtain ⟨name, c₂, h₂, h⟩ := bind_eq_ok.1 h
  obtain ⟨_, c₃, h₃, h⟩ := bind_eq_ok.1 h
  obtain ⟨type, c₄, h₄, h⟩ := bind_eq_ok.1 h
  cases h
  have p₁ := annotations_eq_ok st h₁
  have p₂ := identifier_eq_ok p₁.stream h₂
  have p₃ := expect_eq_ok p₂.stream (by simp) h₃
  obtain ⟨t, _, rfl, p₄⟩ := SemanticType.reads_type _ _ _ p₃.stream h₄
  exact ⟨⟨marks, name, t⟩, trivial, rfl, p₁.trans (p₂.trans (p₃.trans p₄))⟩

theorem head_eq_ok {c c' : Cursor} {types : List SemanticType} (st : Stream c.ahead)
    (h : head c = .ok (types, c')) :
    ∃ atoms : List TypeAtom, types = atoms.map TypeAtom.type
      ∧ Passed c c' (atoms.flatMap TypeAtom.leaves) := by
  obtain ⟨first, c₁, h₁, h⟩ := bind_eq_ok.1 h
  obtain ⟨more, c₂, h₂, h⟩ := bind_eq_ok.1 h
  cases h
  obtain ⟨a, _, rfl, p₁⟩ := SemanticType.reads_atom _ _ _ st h₁
  have step : ∀ c t c', Stream c.ahead →
      (do if ← check (.symbol .openParen) then return none
          else if ← atIdentifier then return some (← SemanticType.atom)
          else fail "'(' after function name" : Parser (Option SemanticType)) c
        = .ok (some t, c') →
      ∃ b : TypeAtom, True ∧ b.type = t ∧ Passed c c' b.leaves := by
    intro c t c' st h
    obtain ⟨closed, d, hclosed, h⟩ := bind_eq_ok.1 h
    cases hclosed
    split at h
    · cases h
    · obtain ⟨isName, e, hn, h⟩ := bind_eq_ok.1 h
      obtain ⟨rfl, _⟩ := atIdentifier_eq_ok hn
      cases isName with
      | true =>
        obtain ⟨t', g, hg, h⟩ := bind_eq_ok.1 h
        cases h
        exact SemanticType.reads_atom _ _ _ st hg
      | false => exact absurd h fail_ne_ok
  have done : ∀ c c',
      (do if ← check (.symbol .openParen) then return none
          else if ← atIdentifier then return some (← SemanticType.atom)
          else fail "'(' after function name" : Parser (Option SemanticType)) c = .ok (none, c') →
      c' = c ∧ True := by
    intro c c' h
    obtain ⟨closed, d, hclosed, h⟩ := bind_eq_ok.1 h
    cases hclosed
    split at h
    · cases h
      exact ⟨rfl, trivial⟩
    · obtain ⟨isName, e, hn, h⟩ := bind_eq_ok.1 h
      cases isName with
      | true =>
        obtain ⟨t', g, hg, h⟩ := bind_eq_ok.1 h
        cases h
      | false => exact absurd h fail_ne_ok
  obtain ⟨atoms, _, rfl, p₂, _⟩ := repeat_eq_ok step done p₁.stream h₂
  exact ⟨a :: atoms, rfl, p₁.trans p₂⟩

theorem clause_eq_ok {opening : Keyword} {c c' : Cursor} {o : Option Contract}
    (st : Stream c.ahead) (h : clause opening c = .ok (o, c')) :
    ∃ tree : Option Conjunction, o = tree.map Conjunction.contract
      ∧ Passed c c' (FunctionNode.clauseLeaves opening tree) := by
  obtain ⟨b, c₁, h₁, h⟩ := bind_eq_ok.1 h
  cases b with
  | false =>
    cases h
    obtain ⟨rfl, _⟩ := eat_eq_false h₁
    exact ⟨none, rfl, .refl st⟩
  | true =>
    obtain ⟨k, c₂, h₂, h⟩ := bind_eq_ok.1 h
    cases h
    have p₁ := eat_eq_true st (by simp) h₁
    obtain ⟨tree, _, rfl, p₂⟩ := Contract.reads_contract _ _ _ p₁.stream h₂
    exact ⟨some tree, rfl, p₁.trans p₂⟩

theorem result_eq_ok {c c' : Cursor} {o : Option Result} (st : Stream c.ahead)
    (h : resultParser c = .ok (o, c')) :
    ∃ result : Option ResultNode, o = result.map ResultNode.result
      ∧ Passed c c' (result.elim [] ResultNode.leaves) := by
  obtain ⟨b, c₁, h₁, h⟩ := bind_eq_ok.1 h
  cases b with
  | false =>
    cases h
    obtain ⟨rfl, _⟩ := eat_eq_false h₁
    exact ⟨none, rfl, .refl st⟩
  | true =>
    obtain ⟨marks, c₂, h₂, h⟩ := bind_eq_ok.1 h
    obtain ⟨type, c₃, h₃, h⟩ := bind_eq_ok.1 h
    cases h
    have p₁ := eat_eq_true st (by simp) h₁
    have p₂ := annotations_eq_ok p₁.stream h₂
    obtain ⟨t, _, rfl, p₃⟩ := SemanticType.reads_type _ _ _ p₂.stream h₃
    exact ⟨some ⟨marks, t⟩, rfl, p₁.trans (p₂.trans p₃)⟩

theorem reads_partBody :
    Reads partBody PropertyNode.body PropertyNode.part PropertyNode.Admissible := by
  intro c a c' st h
  obtain ⟨t, d, ht, h⟩ := bind_eq_ok.1 h
  cases ht
  cases hc : c.current.token with
  | keyword k =>
    rw [hc] at h
    have front := Passed.next st hc (by simp)
    cases k with
    | action =>
      obtain ⟨_, c₁, h₁, h⟩ := bind_eq_ok.1 h
      cases h₁
      obtain ⟨name, c₂, h₂, h⟩ := bind_eq_ok.1 h
      obtain ⟨_, c₃, h₃, h⟩ := bind_eq_ok.1 h
      obtain ⟨arguments, c₄, h₄, h⟩ := bind_eq_ok.1 h
      cases h
      have p₂ := identifier_eq_ok front.stream h₂
      have p₃ := expect_eq_ok p₂.stream (by simp) h₃
      have p₄ := nameArguments_eq_ok p₃.stream h₄
      exact ⟨.action name arguments, trivial, rfl, front.trans (p₂.trans (p₃.trans p₄))⟩
    | static =>
      obtain ⟨_, c₁, h₁, h⟩ := bind_eq_ok.1 h
      cases h₁
      obtain ⟨isName, c₂, h₂, h⟩ := bind_eq_ok.1 h
      obtain ⟨rfl, _⟩ := atIdentifier_eq_ok h₂
      cases isName with
      | false =>
        cases h
        exact ⟨.static none, trivial, rfl, front⟩
      | true =>
        obtain ⟨name, c₃, h₃, h⟩ := bind_eq_ok.1 h
        cases h
        exact ⟨.static (some name), trivial, rfl, front.trans (identifier_eq_ok front.stream h₃)⟩
    | property =>
      obtain ⟨_, c₁, h₁, h⟩ := bind_eq_ok.1 h
      cases h₁
      obtain ⟨key, c₂, h₂, h⟩ := bind_eq_ok.1 h
      obtain ⟨_, c₃, h₃, h⟩ := bind_eq_ok.1 h
      obtain ⟨value, c₄, h₄, h⟩ := bind_eq_ok.1 h
      cases h
      have p₂ := identifier_eq_ok front.stream h₂
      have p₃ := expect_eq_ok p₂.stream (by simp) h₃
      obtain ⟨r, hr, rfl, p₄⟩ := verbatim_eq_ok p₃.stream h₄
      exact ⟨.property key r, hr, rfl, front.trans (p₂.trans (p₃.trans p₄))⟩
    | _ => exact absurd h fail_ne_ok
  | identifier name =>
    rw [hc] at h
    have front := Passed.next st hc (by simp)
    obtain ⟨_, c₁, h₁, h⟩ := bind_eq_ok.1 h
    cases h₁
    obtain ⟨_, c₂, h₂, h⟩ := bind_eq_ok.1 h
    obtain ⟨_, c₃, h₃, h⟩ := bind_eq_ok.1 h
    obtain ⟨automaton, c₄, h₄, h⟩ := bind_eq_ok.1 h
    obtain ⟨_, c₅, h₅, h⟩ := bind_eq_ok.1 h
    obtain ⟨arguments, c₆, h₆, h⟩ := bind_eq_ok.1 h
    cases h
    have p₂ := expect_eq_ok front.stream (by simp) h₂
    have p₃ := expect_eq_ok p₂.stream (by simp) h₃
    obtain ⟨t, _, rfl, p₄⟩ := SemanticType.reads_type _ _ _ p₃.stream h₄
    have p₅ := expect_eq_ok p₄.stream (by simp) h₅
    have p₆ := nameArguments_eq_ok p₅.stream h₆
    have whole := front.trans (p₂.trans (p₃.trans (p₄.trans (p₅.trans p₆))))
    refine ⟨.assignment name t arguments, trivial, rfl, ?_⟩
    rw [PropertyNode.body, List.append_assoc]
    exact whole
  | _ =>
    rw [hc] at h
    exact absurd h fail_ne_ok

theorem reads_part : Reads part PropertyNode.leaves PropertyNode.part PropertyNode.Admissible := by
  intro c a c' st h
  obtain ⟨p, c₁, h₁, h⟩ := bind_eq_ok.1 h
  obtain ⟨_, c₂, h₂, h⟩ := bind_eq_ok.1 h
  cases h
  obtain ⟨node, hnode, rfl, p₁⟩ := reads_partBody _ _ _ st h₁
  exact ⟨node, hnode, rfl, p₁.trans (semicolon_eq_ok p₁.stream h₂)⟩

/-! ### The owner and the sorted parts -/

theorem statics_eq (properties : List PropertyNode) :
    statics (properties.map PropertyNode.part) = properties.filterMap PropertyNode.static? := by
  rw [statics, List.filterMap_map]
  congr 1
  funext p
  cases p <;> rfl

/-- Atoms joined from the last one on are nested to the right. -/
theorem ownerOfAtoms_cons (first : SemanticType) (rest : List SemanticType) :
    ownerOfAtoms (first :: rest) = some (.nest first rest) := by
  induction rest generalizing first with
  | nil => rfl
  | cons second rest ih =>
    have inner := ih second
    unfold ownerOfAtoms at inner ⊢
    rw [List.reverse_cons]
    cases behind : (second :: rest).reverse with
    | nil => exact absurd behind (by simp)
    | cons last before =>
      rw [behind] at inner
      rw [List.cons_append]
      show some ((before ++ [first]).foldl (fun inner outer => SemanticType.generic outer inner) last)
        = some (.generic first (.nest second rest))
      rw [List.foldl_append, ← Option.some.inj inner]
      rfl

/-- The owner of a function is found exactly if a type stands before its name or it has a single
    handle. -/
theorem findOwner_eq_ok {f : FunctionNode} {owned : SemanticType × Ownership} :
    findOwner (ownerOfAtoms (f.owner.map TypeAtom.type)) f.name
        (f.arguments.map ArgumentNode.argument) = .ok owned
      ↔ (f.owner = [] → f.handles.length = 1) ∧ owned = f.owned := by
  have marked : (f.arguments.map ArgumentNode.argument).filter (·.isMarked handleMark)
      = f.handles.map ArgumentNode.argument := by
    rw [List.filter_map]
    rfl
  cases howner : f.owner with
  | cons first rest =>
    simp only [List.map_cons, ownerOfAtoms_cons, findOwner, FunctionNode.owned, howner,
      TypeNode.type_ofAtoms, Except.ok.injEq]
    simp [eq_comm]
  | nil =>
    have none : ownerOfAtoms [] = none := rfl
    simp only [List.map_nil, none, findOwner, marked, FunctionNode.owned, howner]
    rcases f.handles with _ | ⟨handle, _ | ⟨other, rest⟩⟩
    · simp
    · simp [ArgumentNode.argument, eq_comm]
    · simp

/-- Sorting the parts of a tree gives the function of the tree, under the conditions on it. -/
theorem ofParts_eq_ok {f : FunctionNode} {place : Text.Position} {spec : FunctionSpec} :
    ofParts (ownerOfAtoms (f.owner.map TypeAtom.type)) f.name
        (f.arguments.map ArgumentNode.argument)
        ⟨f.requires.map Conjunction.contract, f.ensures.map Conjunction.contract⟩
        (f.result.map ResultNode.result) (f.properties.map PropertyNode.part) place = .ok spec
      ↔ (f.owner = [] → f.handles.length = 1)
        ∧ (f.properties.filterMap PropertyNode.static?).length ≤ 1 ∧ spec = f.function := by
  unfold ofParts
  cases howner : findOwner (ownerOfAtoms (f.owner.map TypeAtom.type)) f.name
      (f.arguments.map ArgumentNode.argument) with
  | error e =>
    have missing : ¬(f.owner = [] → f.handles.length = 1) := by
      intro h
      rw [findOwner_eq_ok.2 ⟨h, rfl⟩] at howner
      cases howner
    simp [missing]
  | ok owned =>
    obtain ⟨found, rfl⟩ := findOwner_eq_ok.1 howner
    rw [statics_eq]
    by_cases double : 1 < (f.properties.filterMap PropertyNode.static?).length
    · simp [if_pos double, Nat.not_le_of_lt double]
    · simp only [if_neg double, Except.ok.injEq]
      have settled : ∀ sorted : FunctionSpec, sorted = f.function →
          (sorted = spec ↔ (f.owner = [] → f.handles.length = 1)
            ∧ (f.properties.filterMap PropertyNode.static?).length ≤ 1 ∧ spec = f.function) := by
        rintro _ rfl
        exact ⟨fun same => ⟨found, Nat.le_of_not_lt double, same.symm⟩, fun h => h.2.2.symm⟩
      refine settled _ ?_
      rw [FunctionNode.function]
      congr 1
      · exact flatMap_eq_filterMap (fun p => by cases p <;> rfl) f.properties
      · exact flatMap_eq_filterMap (fun p => by cases p <;> rfl) f.properties
      · exact flatMap_eq_filterMap (fun p => by cases p <;> rfl) f.properties

theorem reads_function :
    Reads FunctionSpec.parser FunctionNode.leaves FunctionNode.function
      FunctionNode.Admissible := by
  intro c a c' st h
  obtain ⟨start, c₀, h₀, h⟩ := bind_eq_ok.1 h
  cases h₀
  obtain ⟨types, c₁, h₁, h⟩ := bind_eq_ok.1 h
  obtain ⟨atoms, rfl, p₁⟩ := head_eq_ok st h₁
  rcases List.eq_nil_or_concat atoms with rfl | ⟨owner, last, rfl⟩
  · exact absurd h fail_ne_ok
  · rw [List.concat_eq_append, List.map_append, List.map_singleton, List.getLast?_concat,
      List.dropLast_concat] at h
    rw [List.concat_eq_append, List.flatMap_append, List.flatMap_singleton] at p₁
    cases htype : last.type with
    | complex display enclosing inner =>
      simp only [htype] at h
      exact absurd h reject_ne_ok
    | simple name =>
      obtain rfl := TypeAtom.eq_of_type_eq_simple htype
      obtain ⟨_, c₂, h₂, h⟩ := bind_eq_ok.1 h
      obtain ⟨arguments, c₃, h₃, h⟩ := bind_eq_ok.1 h
      obtain ⟨requires, c₄, h₄, h⟩ := bind_eq_ok.1 h
      obtain ⟨ensures, c₅, h₅, h⟩ := bind_eq_ok.1 h
      obtain ⟨result, c₆, h₆, h⟩ := bind_eq_ok.1 h
      obtain ⟨_, c₇, h₇, h⟩ := bind_eq_ok.1 h
      obtain ⟨parts, c₈, h₈, h⟩ := bind_eq_ok.1 h
      have p₂ := expect_eq_ok p₁.stream (by simp) h₂
      obtain ⟨args, _, rfl, p₃⟩ := inParens_eq_ok reads_argument p₂.stream h₃
      obtain ⟨req, rfl, p₄⟩ := clause_eq_ok p₃.stream h₄
      obtain ⟨ens, rfl, p₅⟩ := clause_eq_ok p₄.stream h₅
      obtain ⟨res, rfl, p₆⟩ := result_eq_ok p₅.stream h₆
      have p₇ := expect_eq_ok p₆.stream (by simp) h₇
      obtain ⟨props, hprops, rfl, p₈⟩ := upTo_eq_ok (by simp) reads_part p₇.stream h₈
      cases hparts : ofParts (ownerOfAtoms (owner.map TypeAtom.type)) name
          (args.map ArgumentNode.argument)
          ⟨req.map Conjunction.contract, ens.map Conjunction.contract⟩
          (res.map ResultNode.result) (props.map PropertyNode.part) c.current.start with
      | error fault =>
        simp only [hparts] at h
        cases h
      | ok spec =>
        simp only [hparts] at h
        cases h
        obtain ⟨found, single, rfl⟩ :=
          (ofParts_eq_ok (f := ⟨owner, name, args, req, ens, res, props⟩)).1 hparts
        refine ⟨⟨owner, name, args, req, ens, res, props⟩, ⟨single, hprops, found⟩, rfl, ?_⟩
        have whole := p₁.trans (p₂.trans (p₃.trans (p₄.trans (p₅.trans (p₆.trans
          (p₇.trans p₈))))))
        simp only [FunctionNode.leaves, List.append_assoc, List.cons_append,
          List.nil_append] at whole ⊢
        exact whole

end FunctionSpec

/-! ## Libraries -/

namespace Library

theorem dottedNames_eq_ok {opening : Keyword} {wanted : String} {c c' : Cursor}
    {items : List String} (st : Stream c.ahead)
    (h : afterEach (.keyword opening) (do
      let n ← dottedName wanted
      semicolon
      return n) c = .ok (items, c')) :
    ∃ chains : List (Chain String), items = chains.map (fun n => ".".intercalate n.toList)
      ∧ Passed c c' (Specification.namesLeaves opening chains) := by
  have item : Reads (do
        let n ← dottedName wanted
        semicolon
        return n)
      (fun n : Chain String => names .dot n.toList ++ [sym .semicolon])
      (fun n => ".".intercalate n.toList) (fun _ => True) := by
    intro c a c' st h
    obtain ⟨n, c₁, h₁, h⟩ := bind_eq_ok.1 h
    obtain ⟨_, c₂, h₂, h⟩ := bind_eq_ok.1 h
    cases h
    obtain ⟨chain, _, rfl, p₁⟩ := reads_dottedName _ _ _ _ st h₁
    exact ⟨chain, trivial, rfl, p₁.trans (semicolon_eq_ok p₁.stream h₂)⟩
  obtain ⟨chains, _, rfl, passed, _⟩ := afterEach_eq_ok (by simp) item st h
  exact ⟨chains, rfl, passed⟩

theorem automata_eq_ok {c c' : Cursor} {automata : List Automaton} (st : Stream c.ahead)
    (h : collect (do
        if ← check (.keyword .automaton) then return some (← Automaton.parser) else return none) c
      = .ok (automata, c')) :
    ∃ nodes : List AutomatonNode, (∀ n ∈ nodes, n.Admissible)
      ∧ automata = nodes.map AutomatonNode.automaton
      ∧ Passed c c' (nodes.flatMap AutomatonNode.leaves) := by
  have automaton : ∀ c a c', Stream c.ahead →
      (do if ← check (.keyword .automaton) then return some (← Automaton.parser)
          else return none : Parser (Option Automaton)) c = .ok (some a, c') →
      ∃ n : AutomatonNode, n.Admissible ∧ n.automaton = a ∧ Passed c c' n.leaves := by
    intro c a c' st h
    obtain ⟨b, d, hb, h⟩ := bind_eq_ok.1 h
    cases hb
    split at h
    · obtain ⟨a', e, he, h⟩ := bind_eq_ok.1 h
      cases h
      exact Automaton.reads_automaton _ _ _ st he
    · cases h
  have noAutomaton : ∀ c c',
      (do if ← check (.keyword .automaton) then return some (← Automaton.parser)
          else return none : Parser (Option Automaton)) c = .ok (none, c') → c' = c ∧ True := by
    intro c c' h
    obtain ⟨b, d, hb, h⟩ := bind_eq_ok.1 h
    cases hb
    split at h
    · obtain ⟨a', e, he, h⟩ := bind_eq_ok.1 h
      cases h
    · cases h
      exact ⟨rfl, trivial⟩
  obtain ⟨nodes, admissible, rfl, passed, _⟩ := repeat_eq_ok automaton noAutomaton st h
  exact ⟨nodes, admissible, rfl, passed⟩

/-- The functions are the last section: they are read up to the end of the input. -/
theorem functions_eq_ok {c c' : Cursor} {functions : List FunctionSpec} (st : Stream c.ahead)
    (h : collect (do
        if ← check .eof then return none else return some (← FunctionSpec.parser)) c
      = .ok (functions, c')) :
    ∃ nodes : List FunctionNode, (∀ n ∈ nodes, n.Admissible)
      ∧ functions = nodes.map FunctionNode.function
      ∧ Passed c c' (nodes.flatMap FunctionNode.leaves) ∧ c'.current.token = .eof := by
  have function : ∀ c a c', Stream c.ahead →
      (do if ← check .eof then return none
          else return some (← FunctionSpec.parser) : Parser (Option FunctionSpec)) c
        = .ok (some a, c') →
      ∃ n : FunctionNode, n.Admissible ∧ n.function = a ∧ Passed c c' n.leaves := by
    intro c a c' st h
    obtain ⟨b, d, hb, h⟩ := bind_eq_ok.1 h
    cases hb
    split at h
    · cases h
    · obtain ⟨a', e, he, h⟩ := bind_eq_ok.1 h
      cases h
      exact FunctionSpec.reads_function _ _ _ st he
  have noFunction : ∀ c c',
      (do if ← check .eof then return none
          else return some (← FunctionSpec.parser) : Parser (Option FunctionSpec)) c
        = .ok (none, c') → c' = c ∧ c.current.token = .eof := by
    intro c c' h
    obtain ⟨b, d, hb, h⟩ := bind_eq_ok.1 h
    cases hb
    split at h
    · rename_i hend
      cases h
      exact ⟨rfl, of_decide_eq_true hend⟩
    · obtain ⟨a', e, he, h⟩ := bind_eq_ok.1 h
      cases h
  obtain ⟨nodes, admissible, rfl, passed, finished⟩ := repeat_eq_ok function noFunction st h
  exact ⟨nodes, admissible, rfl, passed, finished⟩

/-- The parser of libraries reads specifications, and it ends in front of the end of the input. -/
theorem library_eq_ok {c c' : Cursor} {library : Library} (st : Stream c.ahead)
    (h : parser c = .ok (library, c')) :
    ∃ s : Specification, s.Admissible ∧ s.library = library ∧ Spells s.leaves c.ahead := by
  obtain ⟨_, c₁, h₁, h⟩ := bind_eq_ok.1 h
  obtain ⟨name, c₂, h₂, h⟩ := bind_eq_ok.1 h
  obtain ⟨_, c₃, h₃, h⟩ := bind_eq_ok.1 h
  obtain ⟨imports, c₄, h₄, h⟩ := bind_eq_ok.1 h
  obtain ⟨includes, c₅, h₅, h⟩ := bind_eq_ok.1 h
  obtain ⟨types, c₆, h₆, h⟩ := bind_eq_ok.1 h
  obtain ⟨automata, c₇, h₇, h⟩ := bind_eq_ok.1 h
  obtain ⟨converters, c₈, h₈, h⟩ := bind_eq_ok.1 h
  obtain ⟨functions, c₉, h₉, h⟩ := bind_eq_ok.1 h
  cases h
  have p₁ := expect_eq_ok st (by simp) h₁
  have p₂ := identifier_eq_ok p₁.stream h₂
  have p₃ := semicolon_eq_ok p₂.stream h₃
  obtain ⟨imps, rfl, p₄⟩ := dottedNames_eq_ok p₃.stream h₄
  obtain ⟨incs, rfl, p₅⟩ := dottedNames_eq_ok p₄.stream h₅
  obtain ⟨decls, hdecls, rfl, p₆⟩ := TypeTable.table_eq_ok p₅.stream h₆
  obtain ⟨auts, hauts, rfl, p₇⟩ := automata_eq_ok p₆.stream h₇
  obtain ⟨convs, hconvs, rfl, p₈⟩ := Converter.section_eq_ok p₇.stream h₈
  obtain ⟨funs, hfuns, rfl, p₉, hend⟩ := functions_eq_ok p₈.stream h₉
  -- what is left is the end of the input
  have ending : Spells [.token .eof] c'.ahead := by
    have st' := p₉.stream
    cases hahead : c'.ahead with
    | nil => exact absurd hahead st'.ne_nil
    | cons l rest =>
      rw [current_eq hahead] at hend
      rw [hahead] at st'
      obtain rfl := st'.eq_of_eof hend
      rw [← hend]
      exact .token l .nil
  have whole := (p₁.trans (p₂.trans (p₃.trans (p₄.trans (p₅.trans (p₆.trans (p₇.trans
    (p₈.trans p₉)))))))).spells _ ending
  refine ⟨⟨name, imps, incs, decls, auts, convs, funs⟩, ⟨hdecls, hauts, hconvs, hfuns⟩, rfl, ?_⟩
  simp only [Specification.leaves, List.append_assoc, List.cons_append, List.nil_append] at whole ⊢
  exact whole

end Library
end LibrarySpec
