/-
  The names of types, read as types.

  The grammar of types has no brackets.  A mark binds to the atom before it and adjacent atoms nest to
  the right, but the name of a type is put together without regard to that: an array of two adjacent
  types is displayed like two adjacent types of which the second is an array.

    1. `Ungrouped`: marks stand behind atoms only, and atoms in front of adjacent types.
    2. An ungrouped type is the value of a tree (`Built.exists_node`), by induction on how it was
       built; an ungrouped atom is a name with marks (`Built.exists_atom`).
    3. The value of every tree is ungrouped (`TypeNode.ungrouped`), by induction on the tree.

  Built types of one structure are the same, so what is read back from a name is the type itself or
  has another structure.

  Main statement: `readsText_name_iff_ungrouped`.
-/
import LibrarySpec.Proofs.Printing.Texts
import LibrarySpec.Proofs.SemanticTypes

namespace LibrarySpec

open Grammar LibrarySpec.Parser

namespace SemanticType

/-! ## Grouping -/

/-- The type encloses as arrays or as pointers do. -/
def IsMark (t : SemanticType) : Prop := t = simple arrayName ∨ t = simple pointerName

instance (t : SemanticType) : Decidable t.IsMark := inferInstanceAs (Decidable (_ ∨ _))

/-- The type is a simple type, an array or a pointer. -/
def IsAtom : SemanticType → Prop
  | simple _ => True
  | complex _ enclosing _ => enclosing.IsMark

/-- Every item of an array or a pointer is an atom, and so is every type that encloses an adjacent
    one. -/
def Ungrouped : SemanticType → Prop
  | simple _ => True
  | complex _ enclosing inner =>
    if enclosing.IsMark then inner.IsAtom ∧ inner.Ungrouped
    else (enclosing.IsAtom ∧ enclosing.Ungrouped) ∧ inner.Ungrouped

instance : (t : SemanticType) → Decidable t.IsAtom
  | simple _ => isTrue trivial
  | complex _ enclosing _ => inferInstanceAs (Decidable enclosing.IsMark)

instance Ungrouped.decide : (t : SemanticType) → Decidable t.Ungrouped
  | simple _ => isTrue trivial
  | complex _ enclosing inner =>
    have := Ungrouped.decide enclosing
    have := Ungrouped.decide inner
    inferInstanceAs (Decidable (if enclosing.IsMark then inner.IsAtom ∧ inner.Ungrouped
      else (enclosing.IsAtom ∧ enclosing.Ungrouped) ∧ inner.Ungrouped))

variable {t item enclosing inner : SemanticType}

theorem ungrouped_array : (array item).Ungrouped ↔ item.IsAtom ∧ item.Ungrouped := by
  rw [array, Ungrouped, if_pos (.inl rfl)]

theorem ungrouped_pointer : (pointer item).Ungrouped ↔ item.IsAtom ∧ item.Ungrouped := by
  rw [pointer, Ungrouped, if_pos (.inr rfl)]

/-- No built type encloses as arrays and pointers do. -/
theorem Built.not_isMark (h : t.Built) : ¬t.IsMark := by
  rintro (rfl | rfl)
  · have other := h.beq_simple (.inl rfl)
    rw [BEq.rfl] at other
    cases other
  · have other := h.beq_simple (.inr rfl)
    rw [BEq.rfl] at other
    cases other

theorem ungrouped_generic (h : enclosing.Built) : (generic enclosing inner).Ungrouped
    ↔ (enclosing.IsAtom ∧ enclosing.Ungrouped) ∧ inner.Ungrouped := by
  rw [generic, Ungrouped, if_neg h.not_isMark]

end SemanticType

open SemanticType

/-! ## Trees of types -/

namespace Grammar

/-- A tree is accepted in front of the end of the input. -/
theorem TypeNode.accepts (n : TypeNode) : Accepts parser n.leaves n.type [.token .eof] :=
  accepts_type n (begins_token.2 endsType_eof)

/-- The atom with one more mark. -/
def TypeAtom.marked (a : TypeAtom) (m : TypeMark) : TypeAtom := ⟨a.name, a.marks ++ [m]⟩

theorem TypeAtom.type_marked (a : TypeAtom) (m : TypeMark) : (a.marked m).type = m.wrap a.type := by
  rw [TypeAtom.type, TypeAtom.marked, List.foldl_append]
  rfl

theorem TypeAtom.legible_marked {a : TypeAtom} (h : LegibleLeaves a.leaves) (m : TypeMark) :
    LegibleLeaves (a.marked m).leaves := by
  have leaves : (a.marked m).leaves = a.leaves ++ plain m.tokens := by
    simp [TypeAtom.leaves, TypeAtom.tokens, TypeAtom.marked, plain]
  rw [leaves, legibleLeaves_append]
  refine ⟨h, ?_⟩
  cases m with
  | array =>
    exact List.forall_mem_cons.2
      ⟨legible_symbol _, List.forall_mem_singleton.2 (legible_symbol _)⟩
  | pointer => exact List.forall_mem_singleton.2 (legible_symbol _)

/-- A name with marks is an atom, and so is every part of it. -/
theorem TypeAtom.ungrouped (a : TypeAtom) : a.type.IsAtom ∧ a.type.Ungrouped := by
  have fold : ∀ (marks : List TypeMark) (t : SemanticType), t.IsAtom ∧ t.Ungrouped →
      (marks.foldl (fun t m => m.wrap t) t).IsAtom
        ∧ (marks.foldl (fun t m => m.wrap t) t).Ungrouped := by
    intro marks
    induction marks with
    | nil => exact fun _ ht => ht
    | cons m marks ih =>
      intro t ht
      cases m with
      | array => exact ih _ ⟨.inl rfl, ungrouped_array.2 ht⟩
      | pointer => exact ih _ ⟨.inr rfl, ungrouped_pointer.2 ht⟩
  exact fold a.marks _ ⟨trivial, trivial⟩

theorem TypeNode.ungrouped {n : TypeNode} (h : LegibleLeaves n.leaves) : n.type.Ungrouped := by
  induction n with
  | atom a => exact a.ungrouped.2
  | adjacent outer inner ih =>
    rw [TypeNode.leaves, TypeNode.tokens, plain_append, legibleLeaves_append] at h
    have built : outer.type.Built := TypeNode.built (n := .atom outer) h.1
    exact (ungrouped_generic built).2 ⟨outer.ungrouped, ih h.2⟩

end Grammar

namespace SemanticType

variable {t : SemanticType}

theorem Built.exists_atom (h : t.Built) (atom : t.IsAtom) (ungrouped : t.Ungrouped) :
    ∃ a : TypeAtom, a.type = t ∧ LegibleLeaves a.leaves := by
  induction h with
  | @simple name hn =>
    exact ⟨⟨name, []⟩, rfl, List.forall_mem_singleton.2 (legible_name hn)⟩
  | array _ ih =>
    obtain ⟨atom, ungrouped⟩ := ungrouped_array.1 ungrouped
    obtain ⟨a, rfl, legible⟩ := ih atom ungrouped
    exact ⟨a.marked .array, a.type_marked _, TypeAtom.legible_marked legible _⟩
  | pointer _ ih =>
    obtain ⟨atom, ungrouped⟩ := ungrouped_pointer.1 ungrouped
    obtain ⟨a, rfl, legible⟩ := ih atom ungrouped
    exact ⟨a.marked .pointer, a.type_marked _, TypeAtom.legible_marked legible _⟩
  | generic he => exact absurd atom he.not_isMark

/-- A built type that is ungrouped is the value of a tree. -/
theorem Built.exists_node (h : t.Built) (ungrouped : t.Ungrouped) :
    ∃ n : TypeNode, n.type = t ∧ LegibleLeaves n.leaves := by
  induction h with
  | simple hn =>
    obtain ⟨a, type, legible⟩ := (Built.simple hn).exists_atom trivial ungrouped
    exact ⟨.atom a, type, legible⟩
  | array h =>
    obtain ⟨a, type, legible⟩ := h.array.exists_atom (.inl rfl) ungrouped
    exact ⟨.atom a, type, legible⟩
  | pointer h =>
    obtain ⟨a, type, legible⟩ := h.pointer.exists_atom (.inr rfl) ungrouped
    exact ⟨.atom a, type, legible⟩
  | generic he _ _ ih =>
    obtain ⟨⟨atom, first⟩, rest⟩ := (ungrouped_generic he).1 ungrouped
    obtain ⟨a, rfl, legible⟩ := he.exists_atom atom first
    obtain ⟨n, rfl, legible'⟩ := ih rest
    refine ⟨.adjacent a n, rfl, ?_⟩
    rw [TypeNode.leaves, TypeNode.tokens, plain_append, legibleLeaves_append]
    exact ⟨legible, legible'⟩

/-! ## Names read -/

theorem Built.readsText_name (h : t.Built) (ungrouped : t.Ungrouped) :
    ReadsText parser t.name t := by
  obtain ⟨n, rfl, legible⟩ := h.exists_node ungrouped
  exact readsText_of_prints (prints_typeNode legible) n.accepts

/-- What is read as a type is built, and it is ungrouped. -/
theorem built_of_readsIn {text : String} (h : ReadsIn parser text t) : t.Built ∧ t.Ungrouped := by
  obtain ⟨n, _, rfl, legible⟩ := h.exists_tree reads_type
  exact ⟨TypeNode.built legible, TypeNode.ungrouped legible⟩

/-- The name of a built type is read back as a type of the same structure exactly if the type is
    ungrouped.  Every type that is read is of this kind, so types that are read and have one name are
    the same. -/
theorem readsText_name_iff_ungrouped :
    (∀ t : SemanticType, t.Built →
      ((∃ u, ReadsText parser t.name u ∧ (u == t) = true) ↔ t.Ungrouped))
    ∧ (∀ text t, ReadsIn parser text t → t.Built ∧ t.Ungrouped)
    ∧ ∀ text text' t u, ReadsIn parser text t → ReadsIn parser text' u → t.name = u.name →
      t = u := by
  refine ⟨fun t built => ⟨?_, fun ungrouped => ?_⟩, fun text t => built_of_readsIn, ?_⟩
  · -- what was read is built as well, so it is the type and not only like it
    rintro ⟨u, read, same⟩
    obtain ⟨built', ungrouped⟩ := built_of_readsIn read.readsIn
    rw [← built'.eq_of_beq built same]
    exact ungrouped
  · exact ⟨t, built.readsText_name ungrouped, BEq.rfl⟩
  · intro text text' t u read read' same
    obtain ⟨built, ungrouped⟩ := built_of_readsIn read
    obtain ⟨built', ungrouped'⟩ := built_of_readsIn read'
    have back := built.readsText_name ungrouped
    rw [same] at back
    exact back.unique (built'.readsText_name ungrouped')

/-- A type in front of an array. -/
def arrayBehind : SemanticType := generic (simple "A") (array (simple "B"))

/-- An array of two adjacent types, which has the same name. -/
def arrayOfAdjacent : SemanticType := array (generic (simple "A") (simple "B"))

/-- Of two types with one name, one is read back, and every type that is read and has the name is
    that one. -/
theorem readsText_name_arrayBehind :
    arrayBehind.Built ∧ arrayOfAdjacent.Built ∧ arrayBehind.name = arrayOfAdjacent.name
      ∧ ReadsText parser arrayBehind.name arrayBehind
      ∧ (¬∃ u, ReadsText parser arrayOfAdjacent.name u ∧ (u == arrayOfAdjacent) = true)
      ∧ ∀ text u, ReadsIn parser text u → u.name = arrayBehind.name → u = arrayBehind := by
  obtain ⟨back, reads, single⟩ := readsText_name_iff_ungrouped
  have a : (simple "A").Built := .simple (by decide)
  have b : (simple "B").Built := .simple (by decide)
  have behind : arrayBehind.Built := a.generic b.array
  have whole : arrayOfAdjacent.Built := (a.generic b).array
  obtain ⟨u, read, same⟩ := (back arrayBehind behind).2 (by decide)
  obtain rfl := (reads _ _ read.readsIn).1.eq_of_beq behind same
  refine ⟨behind, whole, rfl, read, fun found => ?_, fun text u read' => ?_⟩
  · exact absurd ((back arrayOfAdjacent whole).1 found) (by decide)
  · exact single _ _ _ _ read' read.readsIn

end SemanticType
end LibrarySpec
