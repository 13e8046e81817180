/-
  What the display of a type decides.

  Types of one structure have the same simple types at the same places; they differ in the texts by
  which their composite parts are displayed, and in nothing else.  Declarations, owners and automata
  are matched by structure, so there it makes no difference which of the types is taken.  But a rule
  is found by the name of an enclosing type, arrays and pointers are told by that name too, and the
  primitive types by their own.  The name of a composite type is its display.

    1. Where the types have one structure, names are the same if displays are, and the other way
       round (`name_eq_iff`), so it is enough to compare the displays of composite parts.
    2. What is rendered depends on the names along the spine and on the leaf (`render_congr`).
    3. It depends on each of these names: some rules tell two lists of names apart by what they
       render (`separating`), and then the lists are the same if all rules render alike
       (`enclosingNames_eq`).

  Main statement: `agree_of_beq`.
-/
import LibrarySpec.Proofs.Completion.Rendering
import Mathlib.Data.List.Forall2

namespace LibrarySpec

/-! ## Rules for some names -/

namespace Rules

variable {rules : Rules} {k : String}

theorem lookup_cons_pair (first template : String) (entries : List (String × String)) :
    ((first, template) :: entries).lookup k
      = if k = first then some template else entries.lookup k := by
  rw [List.lookup_cons]
  by_cases same : k = first
  · rw [if_pos same, beq_iff_eq.2 same]
  · rw [if_neg same, beq_eq_false_iff_ne.2 same]

theorem lookup_insertInto (key template k : String) (entries : List (String × String)) :
    (insertInto key template entries).lookup k
      = if k = key then some template else entries.lookup k := by
  induction entries with
  | nil => exact lookup_cons_pair key template []
  | cons e entries ih =>
    obtain ⟨first, t⟩ := e
    unfold insertInto
    split
    · exact lookup_cons_pair key template _
    · split
      · rename_i same
        subst same
        rw [lookup_cons_pair, lookup_cons_pair]
        split <;> rfl
      · rename_i different
        rw [lookup_cons_pair, lookup_cons_pair, ih]
        by_cases same : k = key
        · rw [if_pos same, if_pos same, same, if_neg different]
        · rw [if_neg same, if_neg same]

theorem rule?_insert (rules : Rules) (key template k : String) :
    (rules.insert key template).rule? k = if k = key then some template else rules.rule? k :=
  lookup_insertInto key template k rules.entries

/-- Of rules made for some names, each name has the one that was made for it. -/
theorem rule?_ofList_map {make : String → String} {names : List String} (h : k ∈ names) :
    (ofList (names.map fun name => (name, make name))).rule? k = some (make k) := by
  have behind : ∀ (names : List String) (rules : Rules),
      (rules.insertAll (names.map fun name => (name, make name))).rule? k
        = if k ∈ names then some (make k) else rules.rule? k := by
    intro names
    induction names with
    | nil => exact fun rules => by simp [insertAll]
    | cons name names ih =>
      intro rules
      have later := ih (rules.insert name (make name))
      rw [rule?_insert] at later
      refine later.trans ?_
      by_cases same : k = name
      · subst same
        simp
      · simp [same]
  rw [ofList, behind, if_pos h]

/-- Rules for these names that render one of them unlike the others. -/
def separating (names : List String) (key : String) : Rules :=
  ofList (names.map fun name => (name, if name = key then "+\x7b\x7d" else "-\x7b\x7d"))

/-- What stands for each name in a text that is rendered by separating rules. -/
def mark (key name : String) : Char := if name = key then '+' else '-'

/-- Separating rules put a mark for each name in front. -/
theorem nested_separating (key code : String) {all names : List String}
    (known : ∀ name ∈ names, name ∈ all) : (separating all key).Nested code names
      (String.ofList (names.map (mark key) ++ code.toList)) := by
  induction names with
  | nil =>
    rw [List.map_nil, List.nil_append, String.ofList_toList]
    exact .inside
  | cons name names ih =>
    obtain ⟨first, rest⟩ := List.forall_mem_cons.1 known
    refine nested_cons.2 ⟨_, _, rule?_ofList_map first, ih rest, ?_⟩
    by_cases same : name = key <;> simp [same, mark, Template.fill, Template.fillChars]

/-- The marks tell the names. -/
theorem eq_of_marks {names names' : List String}
    (h : ∀ key, names.map (mark key) = names'.map (mark key)) : names = names' := by
  induction names generalizing names' with
  | nil => exact (List.map_eq_nil_iff.1 (h "").symm).symm
  | cons name names ih =>
    cases names' with
    | nil => cases h ""
    | cons name' names' =>
      have both := fun key => List.cons.inj (h key)
      have first : name = name' := by
        have marked : mark name name = mark name name' := (both name).1
        rw [mark, mark, if_pos rfl] at marked
        split at marked
        · rename_i same
          exact same.symm
        · exact absurd marked (by decide)
      rw [first, ih fun key => (both key).2]

end Rules

namespace SemanticType

variable {s t : SemanticType}

/-! ## Types of one structure -/

/-- The types differ at most in how their composite parts are displayed. -/
inductive Alike : SemanticType → SemanticType → Prop where
  | simple (name : String) : Alike (simple name) (simple name)
  | complex {display display' : String} {enclosing enclosing' inner inner' : SemanticType}
      (outside : Alike enclosing enclosing') (inside : Alike inner inner') :
      Alike (complex display enclosing inner) (complex display' enclosing' inner')

theorem beq_iff_alike : (s == t) = true ↔ Alike s t := by
  constructor
  · intro h
    induction s generalizing t with
    | simple name =>
      cases t with
      | simple other =>
        rw [simple_beq_simple, beq_iff_eq] at h
        rw [h]
        exact .simple other
      | complex => cases h
    | complex _ _ _ outside inside =>
      cases t with
      | simple => cases h
      | complex =>
        rw [complex_beq_complex, Bool.and_eq_true] at h
        exact .complex (outside h.1) (inside h.2)
  · intro h
    induction h with
    | simple => exact BEq.rfl
    | complex _ _ outside inside => rw [complex_beq_complex, outside, inside, Bool.and_self]

namespace Alike

theorem isComplex (h : Alike s t) : s.isComplex = t.isComplex := by
  cases h <;> rfl

/-- The parts are of one structure as well. -/
theorem parts (h : Alike s t) :
    (s.enclosing? == t.enclosing?) = true ∧ (s.inner? == t.inner?) = true := by
  cases h with
  | simple => exact ⟨rfl, rfl⟩
  | complex outside inside => exact ⟨beq_iff_alike.2 outside, beq_iff_alike.2 inside⟩

theorem leaf (h : Alike s t) : s.leaf = t.leaf := by
  induction h with
  | simple => rfl
  | complex _ _ _ ih => exact ih

theorem enclosingTypes (h : Alike s t) : List.Forall₂ Alike s.enclosingTypes t.enclosingTypes := by
  induction h with
  | simple => exact .nil
  | complex outside _ _ ih => exact .cons outside ih

end Alike

/-! ## Displays -/

/-- The text by which a composite type is displayed. -/
def display? : SemanticType → Option String
  | simple _ => none
  | complex display _ _ => some display

namespace Alike

/-- The names are the same exactly if the types are displayed alike. -/
theorem name_eq_iff (h : Alike s t) : s.name = t.name ↔ s.display? = t.display? := by
  cases h with
  | simple => exact iff_of_true rfl rfl
  | complex => exact Option.some_inj.symm

theorem names_eq_iff {ts us : List SemanticType} (h : List.Forall₂ Alike ts us) :
    ts.map name = us.map name ↔ ts.map display? = us.map display? := by
  induction h with
  | nil => exact iff_of_true rfl rfl
  | cons first _ ih =>
    rw [List.map_cons, List.map_cons, List.map_cons, List.map_cons, List.cons.injEq, List.cons.injEq,
      first.name_eq_iff, ih]

/-- Types whose enclosing types are displayed alike are arrays together, and pointers together. -/
theorem kinds (h : Alike s t)
    (displays : s.enclosing?.bind display? = t.enclosing?.bind display?) :
    s.isArray = t.isArray ∧ s.isPointer = t.isPointer := by
  have names : s.enclosing?.map name = t.enclosing?.map name := by
    cases h with
    | simple => rfl
    | complex outside _ => exact congrArg some (outside.name_eq_iff.2 displays)
  rw [isArray, isArray, isPointer, isPointer, names]
  exact ⟨rfl, rfl⟩

/-- If all rules render the types alike, then the names along the spine are the same. -/
theorem enclosingNames_eq (h : Alike s t) (same : ∀ (rules : Rules) (table : TypeTable) text,
    rules.render table s = .ok text ↔ rules.render table t = .ok text) :
    s.enclosingNames = t.enclosingNames := by
  refine Rules.eq_of_marks fun key => ?_
  let all := s.enclosingNames ++ t.enclosingNames
  let table : TypeTable := .ofList [⟨.simple s.leaf, ""⟩]
  -- either type is rendered as the marks of its own names
  have rendered : ∀ u : SemanticType, u.leaf = s.leaf → (∀ name ∈ u.enclosingNames, name ∈ all) →
      (Rules.separating all key).render table u
        = .ok (String.ofList (u.enclosingNames.map (Rules.mark key))) := by
    intro u leaf known
    have first : table.firstOf? u.leaf = some ⟨.simple s.leaf, ""⟩ := by
      rw [leaf, TypeTable.firstOf?, TypeTable.decls_ofList, List.find?_cons, decide_eq_true rfl]
    have nested := Rules.nested_separating key "" known
    rw [String.toList_empty, List.append_nil] at nested
    exact Rules.render_eq_ok_iff.2 ⟨_, first, nested⟩
  have left := rendered s rfl fun name hn => List.mem_append_left _ hn
  have right := rendered t h.leaf.symm fun name hn => List.mem_append_right _ hn
  rw [(same _ _ _).1 left] at right
  exact String.ofList_injective (Except.ok.inj right)

end Alike

/-- Types of one structure are composite together, and their parts are of one structure.  They are
    arrays and pointers together unless their enclosing types are composite and displayed by different
    texts, and references together unless they are themselves.  They are rendered alike by all rules
    exactly if no enclosing type along the spine is displayed by different texts. -/
theorem agree_of_beq (h : (s == t) = true) :
    (s.isComplex = t.isComplex ∧ (s.enclosing? == t.enclosing?) = true
        ∧ (s.inner? == t.inner?) = true)
      ∧ (s.enclosing?.bind display? = t.enclosing?.bind display? →
        s.isArray = t.isArray ∧ s.isPointer = t.isPointer)
      ∧ (s.display? = t.display? → s.isReference = t.isReference)
      ∧ ((∀ (rules : Rules) (table : TypeTable) text,
            rules.render table s = .ok text ↔ rules.render table t = .ok text)
          ↔ s.enclosingTypes.map display? = t.enclosingTypes.map display?) := by
  have alike := beq_iff_alike.1 h
  refine ⟨⟨alike.isComplex, alike.parts⟩, alike.kinds, fun displays => ?_, fun same => ?_,
    fun displays rules table text => ?_⟩
  · rw [isReference, isReference, alike.name_eq_iff.2 displays]
  · exact (Alike.names_eq_iff alike.enclosingTypes).1 (alike.enclosingNames_eq same)
  · have names : s.enclosingNames = t.enclosingNames :=
      (Alike.names_eq_iff alike.enclosingTypes).2 displays
    rw [Rules.render_congr names alike.leaf rfl]

/-- An array, and the same structure displayed by another text. -/
theorem agree_of_beq_row :
    let row := array (simple "Byte")
    let other := complex "bytes" (simple "[]") (simple "Byte")
    (row == other) = true ∧ row ≠ other ∧ row.isArray = other.isArray
      ∧ ∀ (rules : Rules) (table : TypeTable) text,
        rules.render table row = .ok text ↔ rules.render table other = .ok text := by
  intro row other
  have same : (row == other) = true := by decide
  obtain ⟨_, kinds, _, rendered⟩ := agree_of_beq same
  exact ⟨same, by decide, (kinds rfl).1, rendered.2 rfl⟩

/-- Types of one structure of which one is an array and no reference and is rendered by a rule for
    arrays, and the other is a reference and no array and is not rendered. -/
theorem agree_of_beq_fails :
    let one := complex "Int" (complex "[]" (simple "A") (simple "B")) (simple "Byte")
    let other := complex "A B Byte" (complex "A B" (simple "A") (simple "B")) (simple "Byte")
    let rules := Rules.ofList [("[]", "\x7b\x7d[]")]
    let table := TypeTable.ofList [⟨simple "Byte", "u8"⟩]
    (one == other) = true
      ∧ one.isArray = true ∧ other.isArray = false
      ∧ one.isReference = false ∧ other.isReference = true
      ∧ rules.render table one = .ok "u8[]"
      ∧ rules.render table other = .error (.missingConversionRule "A B") := by
  decide

end SemanticType
end LibrarySpec
