/-
  Semantic types as the constructors build them.

  A type read from a document may be displayed by any text, and then it can have the structure of
  another type without being the same.  A type is `Built` if its leaves are identifiers and every
  composite part of it was made by `array`, `pointer` or `generic`.  The structure of a built type
  tells how it was built, because no identifier is spelled `[]` or `*`; so on built types the two
  equalities are one (`Built.eq_of_beq`).

  The types that the grammar derives are built (`TypeNode.built`), and so are those that are written.
-/
import LibrarySpec.Proofs.Printing.Types

namespace LibrarySpec

open Grammar

namespace SemanticType

/-- The type is made of identifiers by the constructors for arrays, pointers and adjacent types. -/
inductive Built : SemanticType → Prop where
  | simple {name : String} (h : IsName name) : Built (simple name)
  | array {item : SemanticType} (h : Built item) : Built (array item)
  | pointer {item : SemanticType} (h : Built item) : Built (pointer item)
  | generic {enclosing inner : SemanticType} (h : Built enclosing) (h' : Built inner) :
      Built (generic enclosing inner)

/-- No built type is one of the names that enclose arrays and pointers. -/
theorem Built.beq_simple {t : SemanticType} (h : t.Built) {name : String}
    (mark : name = arrayName ∨ name = pointerName) : (t == SemanticType.simple name) = false := by
  cases h with
  | @simple n hn =>
    rw [simple_beq_simple, beq_eq_false_iff_ne]
    rintro rfl
    rcases mark with rfl | rfl <;> exact absurd hn (by decide)
  | _ => rfl

theorem complex_beq_iff {d d' : String} {e e' i i' : SemanticType} :
    (complex d e i == complex d' e' i') = true ↔ (e == e') = true ∧ (i == i') = true := by
  rw [complex_beq_complex, Bool.and_eq_true]

/-- Built types of the same structure are the same. -/
theorem Built.eq_of_beq {s t : SemanticType} (hs : s.Built) (ht : t.Built)
    (h : (s == t) = true) : s = t := by
  -- a type that encloses like an array or a pointer was not made of two adjacent types
  have adjacent : ∀ {e : SemanticType} {name : String}, e.Built →
      name = arrayName ∨ name = pointerName → (e == SemanticType.simple name) = true → False := by
    intro e name he mark same
    rw [he.beq_simple mark] at same
    cases same
  induction hs generalizing t with
  | simple =>
    cases ht with
    | simple =>
      rw [simple_beq_simple, beq_iff_eq] at h
      rw [h]
    | _ => cases h
  | array _ ih =>
    cases ht with
    | simple => cases h
    | array ht => rw [ih ht (complex_beq_iff.1 h).2]
    | pointer => cases (complex_beq_iff.1 h).1
    | generic he => exact (adjacent he (.inl rfl) (BEq.symm (complex_beq_iff.1 h).1)).elim
  | pointer _ ih =>
    cases ht with
    | simple => cases h
    | array => cases (complex_beq_iff.1 h).1
    | pointer ht => rw [ih ht (complex_beq_iff.1 h).2]
    | generic he => exact (adjacent he (.inr rfl) (BEq.symm (complex_beq_iff.1 h).1)).elim
  | generic hs _ ihe ihi =>
    cases ht with
    | simple => cases h
    | array => exact (adjacent hs (.inl rfl) (complex_beq_iff.1 h).1).elim
    | pointer => exact (adjacent hs (.inr rfl) (complex_beq_iff.1 h).1).elim
    | generic he hi =>
      obtain ⟨enclosing, inner⟩ := complex_beq_iff.1 h
      rw [ihe he enclosing, ihi hi inner]

end SemanticType

namespace Grammar

theorem TypeAtom.built {a : TypeAtom} (h : IsName a.name) : a.type.Built := by
  have fold : ∀ (marks : List TypeMark) (t : SemanticType), t.Built →
      (marks.foldl (fun t m => m.wrap t) t).Built := by
    intro marks
    induction marks with
    | nil => exact fun _ ht => ht
    | cons m marks ih =>
      intro t ht
      cases m with
      | array => exact ih _ ht.array
      | pointer => exact ih _ ht.pointer
  exact fold a.marks _ (.simple h)

/-- The types that legible leaves spell are built. -/
theorem TypeNode.built {n : TypeNode} (h : LegibleLeaves n.leaves) : n.type.Built := by
  induction n with
  | atom a =>
    simp only [TypeNode.leaves, TypeNode.tokens, TypeAtom.tokens, plain_cons, legibleLeaves_cons] at h
    exact TypeAtom.built (isName_of_legible h.1)
  | adjacent outer inner ih =>
    rw [TypeNode.leaves, TypeNode.tokens, plain_append, legibleLeaves_append] at h
    have atom := h.1
    rw [TypeAtom.tokens, plain_cons, legibleLeaves_cons] at atom
    exact (TypeAtom.built (isName_of_legible atom.1)).generic (ih h.2)

end Grammar

/-- A written type is built, for its name is a text in which its leaves stand. -/
theorem SemanticType.Written.built {t : SemanticType} (h : t.Written) : t.Built := by
  obtain ⟨n, rfl, prints⟩ := h
  obtain ⟨ls, scanned, spelled⟩ := prints [] [.token .eof] (by decide) .eof .start
  rw [List.append_nil] at scanned
  have scanned : scan n.type.name = .ok ls := scanned
  exact TypeNode.built (legible_of_scan scanned spelled)

end LibrarySpec
