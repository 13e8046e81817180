/-
  Lookups in the types section.

  The table answers from positions that it keeps beside its declarations.  Here the answers are
  stated of the declarations alone: a type is declared if a declaration has it, up to the structure
  of types, and a lookup finds the first such declaration (`get?_eq`).  So what is declared keeps its
  declaration when a table is extended (`get_extend`).
-/
import LibrarySpec.TypeTable

namespace LibrarySpec

namespace TypeTable

theorem any_note (firsts : List (SemanticType × Nat)) (t u : SemanticType) (position : Nat) :
    (note firsts t position).any (·.1 == u) = (firsts.any (·.1 == u) || t == u) := by
  unfold note
  split
  · rename_i h
    cases htu : t == u with
    | false => rw [Bool.or_false]
    | true =>
      obtain ⟨e, he, heq⟩ := List.any_eq_true.1 h
      rw [Bool.or_true, List.any_eq_true]
      exact ⟨e, he, BEq.trans heq htu⟩
  · simp

/-- A position is kept for every declared type. -/
theorem any_firstPositions (decls : List TypeDecl) (t : SemanticType) :
    (firstPositions decls).any (·.1 == t) = decls.any (·.semanticType == t) := by
  induction h : decls.length generalizing decls with
  | zero =>
    rw [List.length_eq_zero_iff.1 h]
    rfl
  | succ n ih =>
    rcases List.eq_nil_or_concat decls with rfl | ⟨front, d, rfl⟩
    · cases h
    · rw [List.concat_eq_append, List.length_append, List.length_singleton] at h
      rw [List.concat_eq_append, firstPositions_append, any_note, ih front (by omega),
        List.any_append, List.any_cons, List.any_nil, Bool.or_false]

/-- A type is declared if a declaration has it. -/
theorem contains_eq (table : TypeTable) (t : SemanticType) :
    table.contains t = table.decls.any (·.semanticType == t) := by
  rw [contains, position?, Option.isSome_map, List.isSome_find?, table.firsts_eq,
    any_firstPositions]

theorem contains_push (table : TypeTable) (d : TypeDecl) (t : SemanticType) :
    (table.push d).contains t = (table.contains t || d.semanticType == t) := by
  rw [contains_eq, contains_eq, decls_push, List.any_append, List.any_cons, List.any_nil,
    Bool.or_false]

/-- Types of the same structure are declared together. -/
theorem contains_congr {table : TypeTable} {t u : SemanticType} (h : (t == u) = true) :
    table.contains t = table.contains u := by
  rw [contains_eq, contains_eq]
  congr 1
  funext d
  exact BEq.congr_right h

/-- The position kept for a type is that of its first declaration. -/
theorem position?_eq (table : TypeTable) (t : SemanticType) :
    table.position? t = table.decls.findIdx? (·.semanticType == t) := by
  have positions : ∀ decls : List TypeDecl,
      ((firstPositions decls).find? (·.1 == t)).map (·.2)
        = decls.findIdx? (·.semanticType == t) := by
    intro decls
    induction h : decls.length generalizing decls with
    | zero =>
      rw [List.length_eq_zero_iff.1 h]
      rfl
    | succ n ih =>
      rcases List.eq_nil_or_concat decls with rfl | ⟨front, d, rfl⟩
      · cases h
      · rw [List.concat_eq_append, List.length_append, List.length_singleton] at h
        have before := ih front (by omega)
        rw [List.concat_eq_append, firstPositions_append, note, List.findIdx?_append, ← before]
        split
        · rename_i known
          obtain ⟨e, he, heq⟩ := List.any_eq_true.1 known
          cases htd : d.semanticType == t with
          | false => simp [htd]
          | true =>
            have some : ((firstPositions front).find? (·.1 == t)).isSome = true := by
              rw [List.isSome_find?, List.any_eq_true]
              exact ⟨e, he, BEq.trans heq htd⟩
            obtain ⟨x, hx⟩ := Option.isSome_iff_exists.1 some
            simp [hx]
        · rw [List.find?_append]
          cases (firstPositions front).find? (·.1 == t) with
          | some x => simp
          | none => cases htd : d.semanticType == t <;> simp [htd]
  rw [position?, table.firsts_eq, positions]

/-- A lookup answers the first declaration of the type. -/
theorem get?_eq (table : TypeTable) (t : SemanticType) :
    table.get? t = table.decls.find? (·.semanticType == t) := by
  have found : ∀ decls : List TypeDecl, (decls.findIdx? (·.semanticType == t)).bind (decls[·]?)
      = decls.find? (·.semanticType == t) := by
    intro decls
    induction decls with
    | nil => rfl
    | cons d decls ih =>
      rw [List.findIdx?_cons, List.find?_cons]
      cases d.semanticType == t with
      | true => rfl
      | false =>
        rw [← ih]
        cases decls.findIdx? (·.semanticType == t) <;> simp
  rw [get?, position?_eq, found]

theorem get_eq_ok {table : TypeTable} {t : SemanticType} {d : TypeDecl} :
    table.get t = .ok d ↔ table.get? t = some d := by
  unfold get
  split <;> simp_all

/-- What is declared is what a lookup finds. -/
theorem contains_eq_isSome (table : TypeTable) (t : SemanticType) :
    table.contains t = (table.get? t).isSome := by
  rw [contains_eq, get?_eq, List.isSome_find?]

/-- A lookup succeeds exactly if the type is declared. -/
theorem exists_get? {table : TypeTable} {t : SemanticType} :
    (∃ d, table.get? t = some d) ↔ table.contains t = true := by
  rw [← Option.isSome_iff_exists, contains_eq_isSome]

theorem get?_of_not_contains {table : TypeTable} {t : SemanticType}
    (undeclared : table.contains t = false) : table.get? t = none := by
  cases found : table.get? t with
  | none => rfl
  | some d =>
    rw [exists_get?.1 ⟨d, found⟩] at undeclared
    cases undeclared

/-- Types of the same structure have the same declaration. -/
theorem get?_congr {table : TypeTable} {t u : SemanticType} (h : (t == u) = true) :
    table.get? t = table.get? u := by
  rw [get?_eq, get?_eq]
  congr 1
  funext d
  exact BEq.congr_right h

/-- A new declaration is found where there was none. -/
theorem get?_push (table : TypeTable) (d : TypeDecl) (t : SemanticType) :
    (table.push d).get? t = (table.get? t).or (if d.semanticType == t then some d else none) := by
  rw [get?_eq, get?_eq, decls_push, List.find?_append, List.find?_cons]
  cases d.semanticType == t <;> rfl

/-- What is declared keeps its declaration when more declarations follow. -/
theorem get_extend {table : TypeTable} {t : SemanticType} {d : TypeDecl} (h : table.get t = .ok d)
    (more : List TypeDecl) : (table.extend more).get t = .ok d := by
  rw [get_eq_ok, get?_eq] at h
  rw [get_eq_ok, get?_eq, decls_extend, List.find?_append, h]
  rfl

end TypeTable
end LibrarySpec
