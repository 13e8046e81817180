/-
  Code types are nested templates.

  A composite type has a spine: its enclosing types from the outside in, and the simple type inside of
  them all.  Its code type is made from the spine alone.

    1. `Template.Filled` says what filling a template means, by what stands before and behind the first
       placeholder.  Nothing is said of the item, which may well have placeholders of its own.
    2. `Rules.Nested` fills the template of each name with what is made of the names inside of it.  The
       innermost template is filled with the code type of the leaf.
    3. A type is rendered exactly as its nested templates (`render_eq_ok_iff`).  The rules are asked
       from the outside in and before the table is, so a name without a rule is reported rather than
       a leaf without a declaration (`render_eq_error_iff`).

  Only simple types are looked up in the table, so its other declarations make no difference.

  Main statement: `render_nested`.
-/
import LibrarySpec.Completion.Rules
import LibrarySpec.Proofs.TypeTable

namespace LibrarySpec

/-! ## Templates -/

namespace Template

/-- The mark of the place where the item goes. -/
def placeholder : List Char := ['\x7b', '\x7d']

/-- A text that is the template with the item in place of the first placeholder, or that is the
    template where there is no placeholder. -/
inductive Filled (template item : String) : String → Prop where
  | whole (none : ¬placeholder <:+: template.toList) : Filled template item template
  | first {front back : List Char} (split : template.toList = front ++ placeholder ++ back)
      (none : ¬placeholder <:+: front) :
      Filled template item (String.ofList (front ++ item.toList ++ back))

theorem fillChars_of_none {item cs : List Char} (none : ¬placeholder <:+: cs) :
    fillChars item cs = cs := by
  fun_induction fillChars item cs with
  | case1 => rfl
  | case2 rest => exact absurd (List.prefix_append placeholder rest).isInfix none
  | case3 c rest _ ih => rw [ih fun inside => none (List.infix_cons inside)]

theorem fillChars_first {item front back : List Char} (none : ¬placeholder <:+: front) :
    fillChars item (front ++ placeholder ++ back) = front ++ item ++ back := by
  induction front with
  | nil => rfl
  | cons c front ih =>
    have later := ih fun inside => none (List.infix_cons inside)
    -- a placeholder that begins with `c` would end in front as well
    have other : ∀ rest, c = '\x7b' → front ++ placeholder ++ back = '\x7d' :: rest → False := by
      rintro rest rfl same
      cases front with
      | nil => cases same
      | cons d front =>
        obtain ⟨rfl, _⟩ := List.cons.inj same
        exact none (List.prefix_append placeholder front).isInfix
    rw [List.cons_append, List.cons_append, fillChars.eq_3 _ _ _ other, later]
    rfl

/-- A text without a placeholder, or the first placeholder of a text. -/
theorem none_or_first (cs : List Char) : ¬placeholder <:+: cs
    ∨ ∃ front back, cs = front ++ placeholder ++ back ∧ ¬placeholder <:+: front := by
  induction cs with
  | nil => exact .inl (by decide)
  | cons c cs ih =>
    by_cases here : placeholder <+: c :: cs
    · obtain ⟨back, same⟩ := here
      exact .inr ⟨[], back, same.symm, by decide⟩
    · rcases ih with none | ⟨front, back, rfl, none⟩
      · exact .inl fun inside => (List.infix_cons_iff.1 inside).elim here none
      · refine .inr ⟨c :: front, back, rfl, fun inside => ?_⟩
        refine (List.infix_cons_iff.1 inside).elim (fun start => here ?_) none
        exact start.trans ⟨placeholder ++ back, by simp⟩

/-- A template is filled in one way. -/
theorem filled_iff {template item text : String} :
    Filled template item text ↔ text = fill template item := by
  constructor
  · intro h
    cases h with
    | whole none => rw [fill, fillChars_of_none none, String.ofList_toList]
    | first split none => rw [fill, split, fillChars_first none]
  · rintro rfl
    rcases none_or_first template.toList with none | ⟨front, back, split, none⟩
    · have same : fill template item = template := by
        rw [fill, fillChars_of_none none, String.ofList_toList]
      rw [same]
      exact .whole none
    · rw [fill, split, fillChars_first none]
      exact .first split none

end Template

/-! ## Spines -/

namespace SemanticType

/-- The enclosing types, the outermost first. -/
def enclosingTypes : SemanticType → List SemanticType
  | simple _ => []
  | complex _ enclosing inner => enclosing :: inner.enclosingTypes

/-- The names of the enclosing types, the outermost first. -/
def enclosingNames (t : SemanticType) : List String := t.enclosingTypes.map name

/-- The name of the simple type inside of all enclosing types. -/
def leaf : SemanticType → String
  | simple name => name
  | complex _ _ inner => inner.leaf

@[simp] theorem enclosingNames_simple (name : String) : (simple name).enclosingNames = [] := rfl

@[simp] theorem enclosingNames_complex (display : String) (enclosing inner : SemanticType) :
    (complex display enclosing inner).enclosingNames = enclosing.name :: inner.enclosingNames := rfl

theorem beq_simple (t : SemanticType) (name : String) :
    (t == simple name) = decide (t = simple name) := by
  cases t with
  | simple other =>
    rw [simple_beq_simple, Bool.eq_iff_iff, beq_iff_eq, decide_eq_true_iff, simple.injEq]
  | complex => rfl

end SemanticType

namespace TypeTable

/-- The first declaration of a simple type. -/
def firstOf? (table : TypeTable) (name : String) : Option TypeDecl :=
  table.decls.find? (·.semanticType = .simple name)

theorem get_simple (table : TypeTable) (name : String) :
    table.get (.simple name) = match table.firstOf? name with
      | some d => .ok d
      | none => .error (.missingTypeDecl name) := by
  rw [get, get?_eq, firstOf?]
  simp only [SemanticType.beq_simple]
  rfl

theorem firstOf?_eq_none {table : TypeTable} {name : String} :
    table.firstOf? name = none ↔ ∀ d ∈ table.decls, d.semanticType ≠ .simple name := by
  simp [firstOf?]

/-- A composite type that is declared is not found for a simple one. -/
theorem firstOf?_push {table : TypeTable} {d : TypeDecl}
    (composite : d.semanticType.isComplex = true) (name : String) :
    (table.push d).firstOf? name = table.firstOf? name := by
  have other : d.semanticType ≠ .simple name := by
    intro same
    rw [same] at composite
    cases composite
  have missed : [d].find? (·.semanticType = .simple name) = none := by simp [other]
  rw [firstOf?, decls_push, List.find?_append, missed, Option.or_none, firstOf?]

/-- A table without its composite types. -/
def simples (table : TypeTable) : TypeTable :=
  .ofList (table.decls.filter fun d => !d.semanticType.isComplex)

theorem firstOf?_simples (table : TypeTable) (name : String) :
    table.simples.firstOf? name = table.firstOf? name := by
  rw [firstOf?, simples, decls_ofList, List.find?_filter, firstOf?]
  congr 1
  funext d
  cases d.semanticType <;> simp [SemanticType.isComplex]

end TypeTable

/-! ## Rendering -/

namespace Rules

variable {rules : Rules} {table : TypeTable} {code text name : String} {names : List String}
  {t : SemanticType} {fault : Fault}

/-- The templates of the names around a code type, each filled with what is inside of it. -/
inductive Nested (rules : Rules) (code : String) : List String → String → Prop where
  | inside : Nested rules code [] code
  | around {name template inner text : String} {names : List String}
      (rule : rules.rule? name = some template) (rest : Nested rules code names inner)
      (filled : Template.Filled template inner text) : Nested rules code (name :: names) text

theorem nested_nil : rules.Nested code [] text ↔ text = code := by
  constructor
  · intro h
    cases h
    rfl
  · rintro rfl
    exact .inside

theorem nested_cons : rules.Nested code (name :: names) text ↔ ∃ template inner,
    rules.rule? name = some template ∧ rules.Nested code names inner
      ∧ text = Template.fill template inner := by
  constructor
  · intro h
    cases h with
    | around rule rest filled => exact ⟨_, _, rule, rest, Template.filled_iff.1 filled⟩
  · rintro ⟨template, inner, rule, rest, same⟩
    exact .around rule rest (Template.filled_iff.2 same)

/-- Templates are nested wherever every name has one. -/
theorem exists_nested : (∃ text, rules.Nested code names text)
    ↔ ∀ name ∈ names, (rules.rule? name).isSome = true := by
  induction names with
  | nil => exact ⟨fun _ => List.forall_mem_nil _, fun _ => ⟨code, .inside⟩⟩
  | cons name names ih =>
    rw [List.forall_mem_cons, ← ih, Option.isSome_iff_exists]
    simp only [nested_cons]
    constructor
    · rintro ⟨_, template, inner, rule, rest, _⟩
      exact ⟨⟨template, rule⟩, inner, rest⟩
    · rintro ⟨⟨template, rule⟩, inner, rest⟩
      exact ⟨_, template, inner, rule, rest, rfl⟩

theorem render_simple (name : String) : rules.render table (.simple name)
    = (table.get (.simple name)).map (·.codeType) := rfl

theorem render_complex (display : String) (enclosing inner : SemanticType) :
    rules.render table (.complex display enclosing inner) = match rules.rule? enclosing.name with
      | none => .error (.missingConversionRule enclosing.name)
      | some template => (rules.render table inner).map (Template.fill template) := rfl

/-- The first of some names that has no rule. -/
def missing? (rules : Rules) (names : List String) : Option String :=
  names.find? fun name => (rules.rule? name).isNone

theorem missing?_eq_none :
    rules.missing? names = none ↔ ∀ name ∈ names, (rules.rule? name).isSome = true := by
  simp [missing?, Option.isSome_iff_ne_none]

theorem missing?_of_none (none : rules.rule? name = none) :
    rules.missing? (name :: names) = some name := by
  rw [missing?, List.find?_cons, none]
  rfl

theorem missing?_of_some {template : String} (rule : rules.rule? name = some template) :
    rules.missing? (name :: names) = rules.missing? names := by
  rw [missing?, List.find?_cons, rule]
  rfl

/-- A type is rendered as its nested templates. -/
theorem render_eq_ok_iff : rules.render table t = .ok text ↔ ∃ d,
    table.firstOf? t.leaf = some d ∧ rules.Nested d.codeType t.enclosingNames text := by
  induction t generalizing text with
  | simple name =>
    rw [render_simple, TypeTable.get_simple, SemanticType.enclosingNames_simple, SemanticType.leaf]
    cases table.firstOf? name with
    | none => simp [Except.map]
    | some d => simp [Except.map, nested_nil, eq_comm]
  | complex display enclosing inner _ ih =>
    rw [render_complex, SemanticType.enclosingNames_complex, SemanticType.leaf]
    simp only [nested_cons]
    cases rules.rule? enclosing.name with
    | none => simp
    | some template =>
      have filled : (rules.render table inner).map (Template.fill template) = .ok text
          ↔ ∃ item, rules.render table inner = .ok item ∧ text = Template.fill template item := by
        cases rules.render table inner <;> simp [Except.map, eq_comm]
      rw [filled]
      constructor
      · rintro ⟨item, rendered, same⟩
        obtain ⟨d, first, nested⟩ := ih.1 rendered
        exact ⟨d, first, template, item, rfl, nested, same⟩
      · rintro ⟨d, first, _, item, rule, nested, same⟩
        obtain rfl := Option.some.inj rule
        exact ⟨item, ih.2 ⟨d, first, nested⟩, same⟩

/-- A type that is not rendered lacks a rule, or all the rules are there and the leaf is not. -/
theorem render_eq_error_iff : rules.render table t = .error fault
    ↔ (∃ name, rules.missing? t.enclosingNames = some name ∧ fault = .missingConversionRule name)
      ∨ rules.missing? t.enclosingNames = none ∧ table.firstOf? t.leaf = none
        ∧ fault = .missingTypeDecl t.leaf := by
  induction t with
  | simple name =>
    rw [render_simple, TypeTable.get_simple, SemanticType.enclosingNames_simple, SemanticType.leaf]
    cases table.firstOf? name <;> simp [Except.map, missing?, eq_comm]
  | complex display enclosing inner _ ih =>
    rw [render_complex, SemanticType.enclosingNames_complex, SemanticType.leaf]
    cases rule : rules.rule? enclosing.name with
    | none => simp [missing?_of_none rule, eq_comm]
    | some template =>
      -- the fault is one of what is inside
      have passed : (rules.render table inner).map (Template.fill template) = .error fault
          ↔ rules.render table inner = .error fault := by
        cases rules.render table inner <;> simp [Except.map]
      rw [missing?_of_some rule, ← ih]
      exact passed

/-- What is rendered depends on the spine and on the first declaration of the leaf only. -/
theorem render_congr {table' : TypeTable} {u : SemanticType}
    (names : t.enclosingNames = u.enclosingNames) (leaf : t.leaf = u.leaf)
    (first : table.firstOf? u.leaf = table'.firstOf? u.leaf) :
    rules.render table t = rules.render table' u := by
  cases rendered : rules.render table' u with
  | ok text => rw [render_eq_ok_iff, names, leaf, first, ← render_eq_ok_iff, rendered]
  | error fault => rw [render_eq_error_iff, names, leaf, first, ← render_eq_error_iff, rendered]

/-- A type is rendered exactly if every enclosing name has a rule and the leaf is declared, and then
    to its templates nested around the code type of the first declaration of the leaf.  Otherwise the
    first name without a rule is reported, and the leaf only if there is no such name.  Declarations
    of composite types make no difference. -/
theorem render_nested (rules : Rules) (table : TypeTable) (t : SemanticType) :
    ((∃ text, rules.render table t = .ok text)
        ↔ (∀ name ∈ t.enclosingNames, (rules.rule? name).isSome = true)
          ∧ ∃ d ∈ table.decls, d.semanticType = .simple t.leaf)
      ∧ (∀ text, rules.render table t = .ok text ↔ ∃ d, table.firstOf? t.leaf = some d
          ∧ rules.Nested d.codeType t.enclosingNames text)
      ∧ (∀ fault, rules.render table t = .error fault
        ↔ (∃ name, rules.missing? t.enclosingNames = some name
            ∧ fault = .missingConversionRule name)
          ∨ (∀ name ∈ t.enclosingNames, (rules.rule? name).isSome = true)
            ∧ (∀ d ∈ table.decls, d.semanticType ≠ .simple t.leaf)
            ∧ fault = .missingTypeDecl t.leaf)
      ∧ rules.render table.simples t = rules.render table t := by
  refine ⟨?_, fun text => render_eq_ok_iff, fun fault => ?_,
    render_congr rfl rfl (table.firstOf?_simples t.leaf)⟩
  · simp only [render_eq_ok_iff]
    have declared : (∃ d, table.firstOf? t.leaf = some d)
        ↔ ∃ d ∈ table.decls, d.semanticType = .simple t.leaf := by
      rw [← Option.isSome_iff_exists, TypeTable.firstOf?, List.find?_isSome]
      simp only [decide_eq_true_eq]
    rw [← declared]
    constructor
    · rintro ⟨text, d, first, nested⟩
      exact ⟨exists_nested.1 ⟨text, nested⟩, d, first⟩
    · rintro ⟨covered, d, first⟩
      obtain ⟨text, nested⟩ := exists_nested.2 covered
      exact ⟨text, d, first, nested⟩
  · rw [render_eq_error_iff, missing?_eq_none, TypeTable.firstOf?_eq_none]

/-- The first placeholder of a template is filled, and no other, wherever it comes from; of two names
    without a rule the outer one is reported, although the leaf is not declared either. -/
theorem render_nested_map :
    let rules := ofList [("Map", "Map<\x7b\x7d, \x7b\x7d>")]
    let table := TypeTable.ofList [⟨.simple "Key", "K\x7b\x7d"⟩]
    let keys := SemanticType.generic (.simple "Map") (.simple "Key")
    let bags := SemanticType.generic (.simple "Map") (.generic (.simple "Bag")
      (.array (.simple "Word")))
    rules.render table keys = .ok "Map<K\x7b\x7d, \x7b\x7d>"
      ∧ rules.render table bags = .error (.missingConversionRule "Bag") := by
  intro rules table keys bags
  have filled : Template.Filled "Map<\x7b\x7d, \x7b\x7d>" "K\x7b\x7d" "Map<K\x7b\x7d, \x7b\x7d>" :=
    Template.filled_iff.2 (by decide)
  obtain ⟨_, success, _, _⟩ := render_nested rules table keys
  obtain ⟨_, _, failure, _⟩ := render_nested rules table bags
  have first : table.firstOf? keys.leaf = some ⟨.simple "Key", "K\x7b\x7d"⟩ := by decide
  exact ⟨(success _).2 ⟨_, first, .around (by decide) .inside filled⟩,
    (failure _).2 (.inl ⟨"Bag", by decide, rfl⟩)⟩

end Rules
end LibrarySpec
