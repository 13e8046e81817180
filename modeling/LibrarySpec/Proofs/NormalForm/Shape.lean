/-
  The contracts that have a text of their own.

  Arithmetic is printed without parentheses, and `!(` stands both for an inverted clause and for an
  inverted group.  So some contracts print as the text of another.  `Contract.Normal` leaves these
  out:

    1. conjunctions and disjunctions are not empty;
    2. a factor on the right is an atom and a factor on the left no sum, a summand on the right is no
       sum;
    3. no clause is a single inverted group of a single clause that is not inverted, for such a clause
       prints as that clause inverted.

  `Contract.Writable` says that the names and numbers in a contract are read back one by one.
  Contracts that are equal are normal together (`normal_iff_of_beq`): equality lets only the signs of
  zeros differ.
-/
import LibrarySpec.Proofs.Canonical
import LibrarySpec.Proofs.Numbers

namespace LibrarySpec

open Grammar

/-! ## Shapes of arithmetic and clauses -/

namespace Arithmetic

/-- A number, a variable or a call. -/
def IsAtom : Arithmetic → Prop
  | binary .. => False
  | _ => True

/-- A sum or a difference. -/
def IsSum : Arithmetic → Prop
  | binary .plus _ _ | binary .minus _ _ => True
  | _ => False

/-- What an operator may have on its left and on its right. -/
def Fits (operator : Operator) (left right : Arithmetic) : Prop :=
  match operator with
  | .times | .divide => ¬left.IsSum ∧ right.IsAtom
  | .plus | .minus => ¬right.IsSum

theorem IsAtom.not_isSum {a : Arithmetic} (h : a.IsAtom) : ¬a.IsSum := by
  cases a with
  | binary => exact h.elim
  | _ => exact id

end Arithmetic

/-- The terms are a single inverted group of a single clause that is not inverted. -/
def Clause.IsBracketed (terms : List Term) : Prop :=
  ∃ inner, terms = [.lone (.group (.all [.any inner false])) true]

/-! ## Normal contracts -/

mutual

/-- The contract has a text of its own. -/
def Contract.Normal : Contract → Prop
  | .all clauses => clauses ≠ [] ∧ Clause.NormalList clauses

/-- The clauses have texts of their own. -/
def Clause.NormalList : List Clause → Prop
  | [] => True
  | c :: rest => Clause.Normal c ∧ Clause.NormalList rest

/-- The clause has a text of its own. -/
def Clause.Normal : Clause → Prop
  | .any terms _ => terms ≠ [] ∧ ¬Clause.IsBracketed terms ∧ Term.NormalList terms

/-- The terms have texts of their own. -/
def Term.NormalList : List Term → Prop
  | [] => True
  | t :: rest => Term.Normal t ∧ Term.NormalList rest

/-- The term has a text of its own. -/
def Term.Normal : Term → Prop
  | .comparison left _ right _ => Operand.Normal left ∧ Operand.Normal right
  | .lone operand _ => Operand.Normal operand

/-- The operand has a text of its own. -/
def Operand.Normal : Operand → Prop
  | .arithmetic value => Arithmetic.Normal value
  | .text _ => True
  | .group contract => Contract.Normal contract

/-- The operands have texts of their own. -/
def Operand.NormalList : List Operand → Prop
  | [] => True
  | o :: rest => Operand.Normal o ∧ Operand.NormalList rest

/-- The arithmetic expression has a text of its own. -/
def Arithmetic.Normal : Arithmetic → Prop
  | .variableName _ => True
  | .call _ arguments => Operand.NormalList arguments
  | .number _ => True
  | .binary operator left right =>
    Arithmetic.Normal left ∧ Arithmetic.Normal right ∧ Arithmetic.Fits operator left right

end

/-! ## Writable contracts -/

mutual

/-- The names of the contract are identifiers, and its numbers are readable. -/
def Contract.Writable : Contract → Prop
  | .all clauses => Clause.WritableList clauses

/-- The names of the clauses are identifiers, and their numbers are readable. -/
def Clause.WritableList : List Clause → Prop
  | [] => True
  | c :: rest => Clause.Writable c ∧ Clause.WritableList rest

/-- The names of the clause are identifiers, and its numbers are readable. -/
def Clause.Writable : Clause → Prop
  | .any terms _ => Term.WritableList terms

/-- The names of the terms are identifiers, and their numbers are readable. -/
def Term.WritableList : List Term → Prop
  | [] => True
  | t :: rest => Term.Writable t ∧ Term.WritableList rest

/-- The names of the term are identifiers, and its numbers are readable. -/
def Term.Writable : Term → Prop
  | .comparison left _ right _ => Operand.Writable left ∧ Operand.Writable right
  | .lone operand _ => Operand.Writable operand

/-- The names of the operand are identifiers, and its numbers are readable. -/
def Operand.Writable : Operand → Prop
  | .arithmetic value => Arithmetic.Writable value
  | .text _ => True
  | .group contract => Contract.Writable contract

/-- The names of the operands are identifiers, and their numbers are readable. -/
def Operand.WritableList : List Operand → Prop
  | [] => True
  | o :: rest => Operand.Writable o ∧ Operand.WritableList rest

/-- The names of the arithmetic expression are identifiers, and its numbers are readable. -/
def Arithmetic.Writable : Arithmetic → Prop
  | .variableName name => IsName name
  | .call name arguments => IsName name ∧ Operand.WritableList arguments
  | .number value => value.Readable
  | .binary _ left right => Arithmetic.Writable left ∧ Arithmetic.Writable right

end

/-! ## Equal contracts -/

theorem Arithmetic.isSum_unsigned (a : Arithmetic) : a.unsigned.IsSum ↔ a.IsSum := by
  cases a with
  | binary operator => cases operator <;> exact Iff.rfl
  | _ => exact Iff.rfl

theorem Arithmetic.isAtom_unsigned (a : Arithmetic) : a.unsigned.IsAtom ↔ a.IsAtom := by
  cases a <;> exact Iff.rfl

theorem Arithmetic.fits_unsigned (operator : Operator) (left right : Arithmetic) :
    Fits operator left.unsigned right.unsigned ↔ Fits operator left right := by
  cases operator <;> simp [Fits, isSum_unsigned, isAtom_unsigned]

theorem Clause.isBracketed_unsigned (terms : List Term) :
    IsBracketed (Term.unsignedList terms) ↔ IsBracketed terms := by
  constructor
  · rintro ⟨inner, h⟩
    -- the shape is taken apart from the outside, one constructor at a time
    match terms, h with
    | [.lone (.group (.all [.any terms _])) _], h =>
      simp only [Term.unsignedList, Term.unsigned, Operand.unsigned, Contract.unsigned,
        Clause.unsignedList, Clause.unsigned, List.cons.injEq, Term.lone.injEq,
        Operand.group.injEq, Contract.all.injEq, Clause.any.injEq, and_true] at h
      obtain ⟨⟨_, rfl⟩, rfl⟩ := h
      exact ⟨terms, rfl⟩
  · rintro ⟨inner, rfl⟩
    exact ⟨Term.unsignedList inner, rfl⟩

theorem Clause.unsignedList_eq_nil {clauses : List Clause} :
    unsignedList clauses = [] ↔ clauses = [] := by
  cases clauses <;> simp [unsignedList]

theorem Term.unsignedList_eq_nil {terms : List Term} : unsignedList terms = [] ↔ terms = [] := by
  cases terms <;> simp [unsignedList]

-- the signs of zeros are no part of the shape, in any node
mutual

theorem Contract.normal_unsigned : ∀ c : Contract, c.unsigned.Normal ↔ c.Normal
  | .all clauses => by
    simp [Contract.unsigned, Contract.Normal, Clause.unsignedList_eq_nil,
      Clause.normalList_unsigned clauses]

theorem Clause.normalList_unsigned :
    ∀ clauses, Clause.NormalList (Clause.unsignedList clauses) ↔ Clause.NormalList clauses
  | [] => Iff.rfl
  | c :: rest => by
    simp [Clause.unsignedList, Clause.NormalList, Clause.normal_unsigned c,
      Clause.normalList_unsigned rest]

theorem Clause.normal_unsigned : ∀ c : Clause, c.unsigned.Normal ↔ c.Normal
  | .any terms _ => by
    simp [Clause.unsigned, Clause.Normal, Term.unsignedList_eq_nil, Clause.isBracketed_unsigned,
      Term.normalList_unsigned terms]

theorem Term.normalList_unsigned :
    ∀ terms, Term.NormalList (Term.unsignedList terms) ↔ Term.NormalList terms
  | [] => Iff.rfl
  | t :: rest => by
    simp [Term.unsignedList, Term.NormalList, Term.normal_unsigned t,
      Term.normalList_unsigned rest]

theorem Term.normal_unsigned : ∀ t : Term, t.unsigned.Normal ↔ t.Normal
  | .comparison left _ right _ => by
    simp [Term.unsigned, Term.Normal, Operand.normal_unsigned left, Operand.normal_unsigned right]
  | .lone operand _ => Operand.normal_unsigned operand

theorem Operand.normal_unsigned : ∀ o : Operand, o.unsigned.Normal ↔ o.Normal
  | .arithmetic value => Arithmetic.normal_unsigned value
  | .text _ => Iff.rfl
  | .group contract => Contract.normal_unsigned contract

theorem Operand.normalList_unsigned :
    ∀ operands, Operand.NormalList (Operand.unsignedList operands) ↔ Operand.NormalList operands
  | [] => Iff.rfl
  | o :: rest => by
    simp [Operand.unsignedList, Operand.NormalList, Operand.normal_unsigned o,
      Operand.normalList_unsigned rest]

theorem Arithmetic.normal_unsigned : ∀ a : Arithmetic, a.unsigned.Normal ↔ a.Normal
  | .variableName _ => Iff.rfl
  | .call _ arguments => Operand.normalList_unsigned arguments
  | .number _ => Iff.rfl
  | .binary operator left right => by
    simp [Arithmetic.unsigned, Arithmetic.Normal, Arithmetic.normal_unsigned left,
      Arithmetic.normal_unsigned right, Arithmetic.fits_unsigned operator left right]

end

/-- Contracts that are equal are normal together. -/
theorem Contract.normal_iff_of_beq {c d : Contract} (h : (c == d) = true) :
    c.Normal ↔ d.Normal := by
  rw [← c.normal_unsigned, ← d.normal_unsigned, Contract.beq_iff.1 h]

/-! ## Lists -/

theorem Clause.normalList_iff {clauses : List Clause} :
    NormalList clauses ↔ ∀ c ∈ clauses, c.Normal := by
  induction clauses with
  | nil => simp [NormalList]
  | cons c rest ih => simp [NormalList, ih]

theorem Term.normalList_iff {terms : List Term} : NormalList terms ↔ ∀ t ∈ terms, t.Normal := by
  induction terms with
  | nil => simp [NormalList]
  | cons t rest ih => simp [NormalList, ih]

theorem Operand.normalList_iff {operands : List Operand} :
    NormalList operands ↔ ∀ o ∈ operands, o.Normal := by
  induction operands with
  | nil => simp [NormalList]
  | cons o rest ih => simp [NormalList, ih]

end LibrarySpec
