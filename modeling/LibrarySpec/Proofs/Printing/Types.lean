/-
  Printed names, types and verbatim texts, scanned again.

  What is said here of a part of a library does not speak of the text it was read from:

    1. `Dotted`: identifiers with dots between them;
    2. `SemanticType.Written`: the name of the type is the text of a type with that meaning;
    3. `Verbatim`: a source text that the grammar takes in up to a stop symbol;
    4. `TypeDecl.Written` and `Converter.Written`.

  For each of them there are two lemmas: what a tree over legible leaves means has the property, and
  what has the property prints as the text of a tree with that meaning.  A library that is put
  together otherwise can have the properties as well.
-/
import LibrarySpec.Library.Printer
import LibrarySpec.Proofs.Grammar.Types
import LibrarySpec.Proofs.Printing.Basic

namespace LibrarySpec.Grammar

/-- The leaves stand in some text. -/
def LegibleLeaves (leaves : List Leaf) : Prop := ∀ leaf ∈ leaves, leaf.Legible

@[simp] theorem legibleLeaves_cons (leaf : Leaf) (leaves : List Leaf) :
    LegibleLeaves (leaf :: leaves) ↔ leaf.Legible ∧ LegibleLeaves leaves := List.forall_mem_cons

@[simp] theorem legibleLeaves_append (a b : List Leaf) :
    LegibleLeaves (a ++ b) ↔ LegibleLeaves a ∧ LegibleLeaves b := List.forall_mem_append

theorem LegibleLeaves.of_flatMap {α : Type} {items : List α} {leaves : α → List Leaf}
    (h : LegibleLeaves (items.flatMap leaves)) {a : α} (ha : a ∈ items) :
    LegibleLeaves (leaves a) :=
  fun leaf hleaf => h leaf (List.mem_flatMap.2 ⟨a, ha, hleaf⟩)

/-! ## Names -/

theorem prints_name {name : String} (h : IsName name) : Prints name [ident name] := .token h

/-- A name in front of a piece that does not go on with it. -/
theorem prints_name_append {name b : String} {more : List Leaf} (h : IsName name)
    (hb : Prints b more) (ends : ∀ c ∈ b.toList.head?, Token.isWordPart c = false) :
    Prints (name ++ b) (ident name :: more) := by
  intro after rest hn hs
  rw [String.toList_append, List.append_assoc]
  refine (hb after rest hn hs).name h ?_
  cases text : b.toList with
  | nil => exact fun c hc => (hn c hc).1
  | cons c chars =>
    rw [text] at ends
    exact ends

/-- A keyword and a space in front of a piece. -/
theorem prints_keyword (k : Keyword) {b : String} {more : List Leaf} (hb : Prints b more) :
    Prints (k.text ++ (" " ++ b)) (kw k :: more) := by
  intro after rest hn hs
  rw [String.toList_append, String.toList_append, List.append_assoc, List.append_assoc]
  refine (hb after rest hn hs).space.keyword k ?_
  intro c hc
  cases hc
  decide

/-- Pieces with separators between them. -/
theorem prints_separate {α : Type} {separator : String} {s : Symbol} (joint : Joint separator s)
    (h : separator.toList ≠ [] ∧ Neutral separator.toList) {print : α → String}
    {leaves : α → List Leaf} {items : List α} (each : ∀ a ∈ items, Prints (print a) (leaves a)) :
    Prints (separator.intercalate (items.map print)) (separate s leaves items) := by
  have rest : ∀ items : List α, (∀ a ∈ items, Prints (print a) (leaves a)) →
      Prints (following separator (items.map print))
        (items.flatMap fun b => sym s :: leaves b) := by
    intro items
    induction items with
    | nil => exact fun _ => .empty
    | cons a items ih =>
      intro each
      obtain ⟨first, each⟩ := List.forall_mem_cons.1 each
      exact joint.following_cons h first (ih each)
  cases items with
  | nil => exact .empty
  | cons a items =>
    obtain ⟨first, each⟩ := List.forall_mem_cons.1 each
    rw [List.map_cons, intercalate_cons, separate]
    exact first.append (neutral_following _ h) (rest items each)

/-- Names with commas between them. -/
theorem prints_names {items : List String} (h : ∀ name ∈ items, IsName name) :
    Prints (printedNames items) (names .comma items) := by
  have joined : Prints (", ".intercalate (items.map id)) (names .comma items) :=
    prints_separate joint_comma (by decide) fun name hname => prints_name (h name hname)
  rw [List.map_id] at joined
  exact joined

theorem LegibleLeaves.of_separate {α : Type} {separator : Symbol} {leaves : α → List Leaf}
    {items : List α} (h : LegibleLeaves (separate separator leaves items)) {a : α}
    (ha : a ∈ items) : LegibleLeaves (leaves a) := by
  cases items with
  | nil => cases ha
  | cons b rest =>
    rw [separate, legibleLeaves_append] at h
    rcases List.mem_cons.1 ha with rfl | ha
    · exact h.1
    · have behind := h.2.of_flatMap ha
      rw [legibleLeaves_cons] at behind
      exact behind.2

theorem isName_of_names {separator : Symbol} {items : List String}
    (h : LegibleLeaves (names separator items)) : ∀ name ∈ items, IsName name := by
  intro name hname
  have leaves := h.of_separate hname
  rw [legibleLeaves_cons] at leaves
  exact isName_of_legible leaves.1

/-- Identifiers with dots between them. -/
def Dotted (text : String) : Prop :=
  ∃ c : Chain String, ".".intercalate c.toList = text ∧ ∀ name ∈ c.toList, IsName name

theorem dotted_of_chain {c : Chain String} (h : LegibleLeaves (names .dot c.toList)) :
    Dotted (".".intercalate c.toList) :=
  ⟨c, rfl, isName_of_names h⟩

theorem prints_dotted {c : Chain String} (h : ∀ name ∈ c.toList, IsName name) :
    Prints (".".intercalate c.toList) (names .dot c.toList) := by
  have dot : Joint "." .dot := fun hb => hb.behind .dot
  have ends : ∀ items : List String, ∀ ch ∈ (following "." items).toList.head?,
      Token.isWordPart ch = false := by
    intro items
    cases items with
    | nil => exact fun _ hc => by cases hc
    | cons a items =>
      rw [following_cons, String.append_assoc, String.toList_append]
      intro ch hc
      cases hc
      decide
  have rest : ∀ items : List String, (∀ name ∈ items, IsName name) →
      Prints (following "." items) (items.flatMap fun name => [sym .dot, ident name]) := by
    intro items
    induction items with
    | nil => exact fun _ => .empty
    | cons a items ih =>
      intro each
      obtain ⟨first, each⟩ := List.forall_mem_cons.1 each
      rw [following_cons, String.append_assoc]
      exact dot (prints_name_append first (ih each) (ends items))
  obtain ⟨first, rest'⟩ := c
  obtain ⟨hfirst, hrest⟩ := List.forall_mem_cons.1 h
  show Prints (".".intercalate (first :: rest')) _
  rw [intercalate_cons]
  exact prints_name_append hfirst (rest rest' hrest) (ends rest')

/-! ## Types -/

/-- The spelling of a mark. -/
def TypeMark.text : TypeMark → String
  | .array => "[]"
  | .pointer => "*"

theorem prints_marks (marks : List TypeMark) :
    Prints (String.join (marks.map TypeMark.text)) (plain (marks.flatMap TypeMark.tokens)) := by
  induction marks with
  | nil => exact .empty
  | cons m marks ih =>
    rw [List.map_cons, String.join_cons, List.flatMap_cons, plain_append]
    cases m with
    | array => exact (ih.behind .closeBracket).behind .openBracket
    | pointer => exact ih.behind .star

theorem TypeAtom.name_type (a : TypeAtom) :
    a.type.name = a.name ++ String.join (a.marks.map TypeMark.text) := by
  have fold : ∀ (marks : List TypeMark) (t : SemanticType),
      (marks.foldl (fun t m => m.wrap t) t).name = t.name ++ String.join (marks.map TypeMark.text) := by
    intro marks
    induction marks with
    | nil => exact fun t => String.append_empty.symm
    | cons m marks ih =>
      intro t
      rw [List.foldl_cons, ih, List.map_cons, String.join_cons, ← String.append_assoc]
      cases m <;> rfl
  exact fold a.marks (.simple a.name)

theorem prints_atom {a : TypeAtom} (h : LegibleLeaves a.leaves) : Prints a.type.name a.leaves := by
  rw [TypeAtom.leaves, TypeAtom.tokens, plain_cons, legibleLeaves_cons] at h
  rw [TypeAtom.name_type, TypeAtom.leaves, TypeAtom.tokens, plain_cons]
  refine prints_name_append (isName_of_legible h.1) (prints_marks a.marks) ?_
  cases a.marks with
  | nil => exact fun _ hc => by cases hc
  | cons m marks =>
    rw [List.map_cons, String.join_cons, String.toList_append]
    intro c hc
    cases m <;> cases hc <;> decide

/-- A type prints as its name. -/
theorem prints_typeNode {n : TypeNode} (h : LegibleLeaves n.leaves) :
    Prints n.type.name n.leaves := by
  induction n with
  | atom a => exact prints_atom h
  | adjacent outer inner ih =>
    rw [TypeNode.leaves, TypeNode.tokens, plain_append, legibleLeaves_append] at h
    show Prints (outer.type.name ++ " " ++ inner.type.name) (plain (outer.tokens ++ inner.tokens))
    rw [plain_append, String.append_assoc]
    refine (prints_atom h.1).append (neutral_text _) ?_
    intro after rest hn hs
    rw [String.toList_append]
    exact (ih h.2 after rest hn hs).space

end Grammar

open Grammar

/-- The name of the type is the text of a type with that meaning. -/
def SemanticType.Written (t : SemanticType) : Prop :=
  ∃ n : TypeNode, n.type = t ∧ Prints t.name n.leaves

theorem Grammar.TypeNode.written {n : TypeNode} (h : LegibleLeaves n.leaves) : n.type.Written :=
  ⟨n, rfl, prints_typeNode h⟩

/-! ## Verbatim texts -/

/-- The text is a run of tokens that ends at the stop symbol. -/
def Verbatim (stop : Symbol) (source : String) : Prop :=
  ∃ r : RawText, r.source = source ∧ r.EndsAt stop ∧ Prints source [r.leaf]

theorem Grammar.RawText.verbatim {r : RawText} {stop : Symbol} (ends : r.EndsAt stop)
    (h : r.leaf.Legible) : Verbatim stop r.source :=
  ⟨r, rfl, ends, h⟩

/-- The parts of the declaration are written. -/
structure TypeDecl.Written (d : TypeDecl) : Prop where
  type : d.semanticType.Written
  code : Verbatim .closeParen d.codeType

theorem Grammar.DeclarationNode.written {n : DeclarationNode} (admissible : n.Admissible)
    (h : LegibleLeaves n.leaves) : n.decl.Written := by
  simp only [DeclarationNode.leaves, legibleLeaves_append, legibleLeaves_cons] at h
  exact ⟨TypeNode.written h.1, RawText.verbatim admissible h.2.2.1⟩

theorem TypeDecl.Written.exists_node {d : TypeDecl} (h : d.Written) :
    ∃ n : DeclarationNode, n.decl = d ∧ n.Admissible ∧ Prints d.print n.leaves := by
  obtain ⟨t, htype, printsType⟩ := h.type
  obtain ⟨r, hsource, ends, printsCode⟩ := h.code
  refine ⟨⟨t, r⟩, ?_, ends, ?_⟩
  · rw [DeclarationNode.decl, htype, hsource]
  · have tail : Prints ("(" ++ (d.codeType ++ ");"))
        [sym .openParen, r.leaf, sym .closeParen, sym .semicolon] :=
      (printsCode.append (by decide)
        ((Prints.token (.symbol .semicolon)).behind .closeParen)).behind .openParen
    have text : d.print = d.semanticType.name ++ (" " ++ ("(" ++ (d.codeType ++ ");"))) := by
      simp only [TypeDecl.print, String.append_assoc]
      rfl
    rw [text]
    exact printsType.append (neutral_text _) tail.spaced

/-- The parts of the converter are written. -/
structure Converter.Written (c : Converter) : Prop where
  type : c.type.Written
  expression : Verbatim .semicolon c.expression

theorem Grammar.ConverterNode.written {n : ConverterNode} (admissible : n.Admissible)
    (h : LegibleLeaves n.leaves) : n.converter.Written := by
  simp only [ConverterNode.leaves, legibleLeaves_append, legibleLeaves_cons] at h
  exact ⟨TypeNode.written h.1, RawText.verbatim admissible h.2.2.2.1⟩

theorem Converter.Written.exists_node {c : Converter} (h : c.Written) :
    ∃ n : ConverterNode, n.converter = c ∧ n.Admissible ∧ Prints c.print n.leaves := by
  obtain ⟨t, htype, printsType⟩ := h.type
  obtain ⟨r, hsource, ends, printsExpression⟩ := h.expression
  refine ⟨⟨t, r⟩, ?_, ends, ?_⟩
  · rw [ConverterNode.converter, htype, hsource]
  · have tail : Prints ("-" ++ (" " ++ (c.expression ++ ";")))
        [sym .minus, r.leaf, sym .semicolon] :=
      (printsExpression.append (by decide) (Prints.token (.symbol .semicolon))).apart .minus
    -- a less-than sign goes on with an equals sign only
    have arrow : Prints ("<" ++ ("-" ++ (" " ++ (c.expression ++ ";"))))
        [sym .less, sym .minus, r.leaf, sym .semicolon] := by
      intro after rest hn hs
      rw [String.toList_append, List.append_assoc]
      refine (tail after rest hn hs).symbol .less ?_
      intro c hc
      rw [String.toList_append] at hc
      cases hc
      rfl
    have text : c.print
        = c.type.name ++ (" " ++ ("<" ++ ("-" ++ (" " ++ (c.expression ++ ";"))))) := by
      simp only [Converter.print, String.append_assoc]
      rfl
    rw [text]
    exact printsType.append (neutral_text _) arrow.spaced

end LibrarySpec
