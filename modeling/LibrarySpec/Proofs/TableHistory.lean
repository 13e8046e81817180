/-
  Tables as they come about.

  A table is made from a list of declarations or read from a document, and then grows at its end.  It
  answers from positions that it keeps beside its declarations; the list of what was put into it,
  searched from the front, is what it has to answer like.

    1. `Reached` follows a table and the plain list side by side.
    2. `mem_firstPositions`: a position is kept exactly if it is that of the first declaration of its
       type.  A type declared again, even under another display, leaves the positions as they are.
    3. `Alike`: two lists that are equal by the structure of their types have their first
       declarations of a type in the same place.

  Main statement: `refines_of_reached`.
-/
import LibrarySpec.Library.Json
import LibrarySpec.Proofs.TypeTable
import Mathlib.Data.List.Induction

namespace LibrarySpec.TypeTable

/-! ## First declarations -/

/-- The declaration at this position is the first of the type. -/
def IsFirst (decls : List TypeDecl) (t : SemanticType) (position : Nat) (d : TypeDecl) : Prop :=
  ∃ front back, decls = front ++ d :: back ∧ front.length = position
    ∧ (d.semanticType == t) = true ∧ ∀ e ∈ front, (e.semanticType == t) = false

/-- In front of a last declaration the first declarations are as without it. -/
theorem isFirst_append {decls : List TypeDecl} {t : SemanticType} {position : Nat}
    {d last : TypeDecl} :
    IsFirst (decls ++ [last]) t position d ↔ IsFirst decls t position d
      ∨ decls.any (·.semanticType == t) = false ∧ (last.semanticType == t) = true
        ∧ d = last ∧ position = decls.length := by
  constructor
  · rintro ⟨front, back, split, rfl, same, others⟩
    rcases List.eq_nil_or_concat back with rfl | ⟨back, x, rfl⟩
    · obtain ⟨rfl, rfl⟩ := List.append_singleton_inj.1 split
      exact .inr ⟨List.any_eq_false.2 (by simpa using others), same, rfl, rfl⟩
    · rw [List.concat_eq_append, ← List.cons_append, ← List.append_assoc] at split
      obtain ⟨rfl, _⟩ := List.append_singleton_inj.1 split
      exact .inl ⟨front, back, rfl, rfl, same, others⟩
  · rintro (⟨front, back, rfl, rfl, same, others⟩ | ⟨none, same, rfl, rfl⟩)
    · exact ⟨front, back ++ [last], by simp, rfl, same, others⟩
    · exact ⟨decls, [], rfl, rfl, same, by simpa using none⟩

/-- One more declaration adds its position if its type is new. -/
theorem mem_note {firsts : List (SemanticType × Nat)} {t u : SemanticType} {position i : Nat} :
    (u, i) ∈ note firsts t position ↔ (u, i) ∈ firsts
      ∨ firsts.any (·.1 == t) = false ∧ u = t ∧ i = position := by
  unfold note
  split
  · rename_i known
    simp [known]
  · rename_i new
    simp [new]

/-- The positions kept are those of first declarations, under the type as it was declared first. -/
theorem mem_firstPositions {decls : List TypeDecl} {t : SemanticType} {i : Nat} :
    (t, i) ∈ firstPositions decls ↔ ∃ d, IsFirst decls t i d ∧ d.semanticType = t := by
  induction decls using List.reverseRecOn with
  | nil =>
    have none : ∀ d, ¬IsFirst [] t i d := by
      rintro d ⟨front, back, split, _⟩
      simp at split
    simp [firstPositions, none]
  | append_singleton decls last ih =>
    rw [firstPositions_append, mem_note, ih, any_firstPositions]
    constructor
    · rintro (⟨d, first, same⟩ | ⟨new, rfl, rfl⟩)
      · exact ⟨d, isFirst_append.2 (.inl first), same⟩
      · exact ⟨last, isFirst_append.2 (.inr ⟨new, BEq.rfl, rfl, rfl⟩), rfl⟩
    · rintro ⟨d, first, same⟩
      rcases isFirst_append.1 first with first | ⟨new, _, rfl, rfl⟩
      · exact .inl ⟨d, first, same⟩
      · subst same
        exact .inr ⟨new, rfl, rfl⟩

/-- A lookup finds the first declaration of the type. -/
theorem find?_eq_some_iff_isFirst {decls : List TypeDecl} {t : SemanticType} {d : TypeDecl} :
    decls.find? (·.semanticType == t) = some d ↔ ∃ position, IsFirst decls t position d := by
  rw [List.find?_eq_some_iff_append]
  constructor
  · rintro ⟨same, front, back, split, others⟩
    exact ⟨front.length, front, back, split, rfl, same, by simpa using others⟩
  · rintro ⟨_, front, back, split, _, same, others⟩
    exact ⟨same, front, back, split, by simpa using others⟩

/-! ## Equal lists -/

theorem TypeDecl.beq_iff {d e : TypeDecl} :
    (d == e) = true ↔ (d.semanticType == e.semanticType) = true ∧ d.codeType = e.codeType := by
  show (d.semanticType == e.semanticType && d.codeType == e.codeType) = true ↔ _
  rw [Bool.and_eq_true]
  exact .and .rfl beq_iff_eq

/-- The answers of two lookups: both find nothing, or declarations that are equal. -/
inductive Alike : Option TypeDecl → Option TypeDecl → Prop where
  | none : Alike none none
  | some {d e : TypeDecl} (same : (d == e) = true) : Alike (some d) (some e)

/-- Equal lists have equal first declarations. -/
theorem alike_find? {decls decls' : List TypeDecl} (same : (decls == decls') = true)
    (t : SemanticType) :
    Alike (decls.find? (·.semanticType == t)) (decls'.find? (·.semanticType == t)) := by
  induction decls generalizing decls' with
  | nil =>
    cases decls' with
    | nil => exact .none
    | cons => cases same
  | cons d decls ih =>
    cases decls' with
    | nil => cases same
    | cons e decls' =>
      rw [List.cons_beq_cons, Bool.and_eq_true] at same
      have key : (d.semanticType == t) = (e.semanticType == t) :=
        BEq.congr_left (TypeDecl.beq_iff.1 same.1).1
      rw [List.find?_cons, List.find?_cons, ← key]
      cases d.semanticType == t with
      | true => exact .some same.1
      | false => exact ih same.2

/-! ## Tables that are reached -/

/-- The table is made from a list of declarations or read from a document, and may have grown since.
    The list is all that was put into it. -/
inductive Reached : TypeTable → List TypeDecl → Prop where
  | list (decls : List TypeDecl) : Reached (ofList decls) decls
  | document {json : Json} {decls : List TypeDecl} {table : TypeTable}
      (read : Json.list? TypeDecl.ofJson? json = some decls)
      (made : ofJson? json = some table) : Reached table decls
  | push {table : TypeTable} {decls : List TypeDecl} (h : Reached table decls) (d : TypeDecl) :
      Reached (table.push d) (decls ++ [d])
  | extend {table : TypeTable} {decls : List TypeDecl} (h : Reached table decls)
      (more : List TypeDecl) : Reached (table.extend more) (decls ++ more)

/-- A table holds what was put into it. -/
theorem Reached.decls_eq {table : TypeTable} {decls : List TypeDecl} (h : Reached table decls) :
    table.decls = decls := by
  induction h with
  | list decls => exact decls_ofList decls
  | document read made =>
    rw [ofJson?, read] at made
    cases made
    exact decls_ofList _
  | push _ d ih => rw [decls_push, ih]
  | extend _ more ih => rw [decls_extend, ih]

theorem get_eq_error {table : TypeTable} {t : SemanticType} {fault : Fault} :
    table.get t = .error fault
      ↔ fault = .missingTypeDecl t.name ∧ ∀ d ∈ table.decls, (d.semanticType == t) = false := by
  have none : table.get? t = .none ↔ ∀ d ∈ table.decls, (d.semanticType == t) = false := by
    simp [get?_eq]
  rw [← none]
  unfold get
  cases table.get? t with
  | some d => simp
  | none => simp [eq_comm]

/-- The table answers like the list that is searched from the front. -/
structure Refines (table : TypeTable) (decls : List TypeDecl) : Prop where
  listed : table.decls = decls
  /-- A lookup answers the first declaration of the type. -/
  found : ∀ t d, table.get t = .ok d ↔ ∃ position, IsFirst decls t position d
  /-- It fails where there is none, and names the type. -/
  missing : ∀ t fault, table.get t = .error fault
    ↔ fault = .missingTypeDecl t.name ∧ ∀ d ∈ decls, (d.semanticType == t) = false
  declared : ∀ t, table.contains t = true ↔ ∃ d ∈ decls, (d.semanticType == t) = true
  /-- The positions kept are those of first declarations, and all of these are kept. -/
  stored : ∀ t position, (t, position) ∈ table.firsts
    ↔ ∃ d, IsFirst decls t position d ∧ d.semanticType = t
  /-- A table of an equal list answers alike; one of the same list is the same table. -/
  alike : ∀ table' decls', Reached table' decls' → (decls = decls' → table = table')
    ∧ ((decls == decls') = true → ∀ t, table.contains t = table'.contains t
      ∧ ((∃ fault, table.get t = .error fault ∧ table'.get t = .error fault)
        ∨ ∃ d d', table.get t = .ok d ∧ table'.get t = .ok d' ∧ (d == d') = true))

/-- Every table that is reached answers like the list of what was put into it. -/
theorem refines_of_reached {table : TypeTable} {decls : List TypeDecl} (h : Reached table decls) :
    Refines table decls where
  listed := h.decls_eq
  found t d := by rw [get_eq_ok, get?_eq, h.decls_eq, find?_eq_some_iff_isFirst]
  missing t fault := by rw [get_eq_error, h.decls_eq]
  declared t := by rw [contains_eq, h.decls_eq, List.any_eq_true]
  stored t position := by rw [table.firsts_eq, h.decls_eq, mem_firstPositions]
  alike table' decls' h' := by
    refine ⟨fun same => eq_of_decls_eq ?_, fun same t => ?_⟩
    · rw [h.decls_eq, h'.decls_eq, same]
    · have answers := alike_find? same t
      rw [← h.decls_eq, ← h'.decls_eq, ← get?_eq, ← get?_eq] at answers
      rw [contains_eq_isSome, contains_eq_isSome, get, get]
      revert answers
      generalize table.get? t = answer
      generalize table'.get? t = answer'
      intro answers
      cases answers with
      | none => exact ⟨rfl, .inl ⟨_, rfl, rfl⟩⟩
      | some same => exact ⟨rfl, .inr ⟨_, _, rfl, rfl, same⟩⟩

/-- A table with a type declared under two displays. -/
def bytesTable : TypeTable :=
  ((ofList [⟨.simple "Byte", "u8"⟩, ⟨.array (.simple "Byte"), "[u8]"⟩]).push
    ⟨.complex "Bytes" (.simple "[]") (.simple "Byte"), "Vec<u8>"⟩).extend
      [⟨.simple "Int", "i32"⟩, ⟨.simple "Byte", "i8"⟩]

/-- What was put into the table. -/
def bytesDecls : List TypeDecl :=
  [⟨.simple "Byte", "u8"⟩, ⟨.array (.simple "Byte"), "[u8]"⟩,
    ⟨.complex "Bytes" (.simple "[]") (.simple "Byte"), "Vec<u8>"⟩, ⟨.simple "Int", "i32"⟩,
    ⟨.simple "Byte", "i8"⟩]

theorem refines_of_reached_bytes :
    Reached bytesTable bytesDecls ∧ Refines bytesTable bytesDecls
      ∧ bytesTable.firsts
        = [(.simple "Byte", 0), (.array (.simple "Byte"), 1), (.simple "Int", 3)]
      ∧ bytesTable.get (.complex "Bytes" (.simple "[]") (.simple "Byte"))
        = .ok ⟨.array (.simple "Byte"), "[u8]"⟩ := by
  have reached : Reached bytesTable bytesDecls := ((Reached.list _).push _).extend _
  exact ⟨reached, refines_of_reached reached, by decide, rfl⟩

end LibrarySpec.TypeTable
