/-
  Printed contracts, read back.

  A contract is read back from its text exactly if it is normal (`Contract.readsText_iff_normal`).

    1. If it is read back, it is equal to a contract that was parsed, so it is normal.
    2. If it is normal, some tree means it (`Conjunction.expressed`).  The grammar accepts the tokens
       of that tree, and the text of the contract is cut into them.

  The crux is the second point, an induction on the contract.  Normal clauses have trees of their own
  form: terms that are no single inverted group mean themselves, and an inverted clause is an
  inverted group of them.  Arithmetic is done on three levels at once, because a sum is no factor of
  a product.
-/
import LibrarySpec.Proofs.NormalForm.Parsing

namespace LibrarySpec

open Grammar LibrarySpec.Parser

namespace Grammar

/-! ## Trees with a given meaning -/

/-- Some tree whose tokens stand in a text means the value. -/
def Expressed {τ α : Type} (tokens : τ → List Token) (value : τ → α) (a : α) : Prop :=
  ∃ t, value t = a ∧ AllLegible (tokens t)

theorem allLegible_mark (inverted : Bool) :
    AllLegible (if inverted then [.symbol .bang] else []) := by
  cases inverted with
  | true => exact (allLegible_cons _ _).2 ⟨legible_symbol .bang, allLegible_nil⟩
  | false => exact allLegible_nil

/-- One more tree and the separator before it. -/
theorem Expressed.cons {τ α : Type} {s : Symbol} {tokens : τ → List Token} {value : τ → α}
    {tokensAfter : List τ → List Token} {values : List τ → List α}
    (tokens_cons : ∀ t ts, tokensAfter (t :: ts) = .symbol s :: tokens t ++ tokensAfter ts)
    (values_cons : ∀ t ts, values (t :: ts) = value t :: values ts) {a : α} {as : List α}
    (first : Expressed tokens value a) (rest : Expressed tokensAfter values as) :
    Expressed tokensAfter values (a :: as) := by
  obtain ⟨t, rfl, legible⟩ := first
  obtain ⟨ts, rfl, legibleRest⟩ := rest
  refine ⟨t :: ts, values_cons t ts, ?_⟩
  rw [tokens_cons, List.cons_append, allLegible_cons, allLegible_append]
  exact ⟨legible_symbol s, legible, legibleRest⟩

/-- Two trees and the sign of an operator between them. -/
theorem Expressed.binary {τ σ : Type} {tokens : τ → List Token} {value : τ → Arithmetic}
    {tokens' : σ → List Token} {value' : σ → Arithmetic} (node : τ → σ → τ) (s : Symbol)
    {operator : Operator}
    (tokens_node : ∀ l r, tokens (node l r) = tokens l ++ .symbol s :: tokens' r)
    (value_node : ∀ l r, value (node l r) = .binary operator (value l) (value' r))
    {a b : Arithmetic} (left : Expressed tokens value a) (right : Expressed tokens' value' b) :
    Expressed tokens value (.binary operator a b) := by
  obtain ⟨l, rfl, legibleLeft⟩ := left
  obtain ⟨r, rfl, legibleRight⟩ := right
  refine ⟨node l r, value_node l r, ?_⟩
  rw [tokens_node, allLegible_append, allLegible_cons]
  exact ⟨legibleLeft, legible_symbol s, legibleRight⟩

/-- The levels of arithmetic on which a tree means the expression. -/
structure Levels (a : Arithmetic) : Prop where
  sum : Expressed SumNode.tokens SumNode.arithmetic a
  product : ¬a.IsSum → Expressed ProductNode.tokens ProductNode.arithmetic a
  factor : a.IsAtom → Expressed FactorNode.tokens FactorNode.arithmetic a

namespace Levels

variable {a b : Arithmetic}

theorem of_factor (h : Expressed FactorNode.tokens FactorNode.arithmetic a) : Levels a := by
  obtain ⟨f, rfl, legible⟩ := h
  exact ⟨⟨.one (.one f), rfl, legible⟩, fun _ => ⟨.one f, rfl, legible⟩, fun _ => ⟨f, rfl, legible⟩⟩

theorem of_product (h : Expressed ProductNode.tokens ProductNode.arithmetic a)
    (composed : ¬a.IsAtom) : Levels a := by
  obtain ⟨p, rfl, legible⟩ := h
  exact ⟨⟨.one p, rfl, legible⟩, fun _ => ⟨p, rfl, legible⟩, fun atom => absurd atom composed⟩

/-- Operands that fit make an expression on the level of their operator. -/
theorem binary {operator : Operator} (left : Levels a) (right : Levels b)
    (fits : Arithmetic.Fits operator a b) : Levels (.binary operator a b) := by
  cases operator with
  | times =>
    exact of_product (Expressed.binary .times .star (fun _ _ => rfl) (fun _ _ => rfl)
      (left.product fits.1) (right.factor fits.2)) id
  | divide =>
    exact of_product (Expressed.binary .divide .slash (fun _ _ => rfl) (fun _ _ => rfl)
      (left.product fits.1) (right.factor fits.2)) id
  | plus =>
    -- a sum is neither a product nor a factor
    refine ⟨?_, fun product => absurd trivial product, False.elim⟩
    exact Expressed.binary .plus .plus (fun _ _ => rfl) (fun _ _ => rfl) left.sum
      (right.product fits)
  | minus =>
    refine ⟨?_, fun product => absurd trivial product, False.elim⟩
    exact Expressed.binary .minus .minus (fun _ _ => rfl) (fun _ _ => rfl) left.sum
      (right.product fits)

end Levels

/-- The arguments of a call. -/
theorem expressed_call {name : String} {operands : List Operand} (hname : IsName name)
    (h : Expressed PartNode.tokensOf PartNode.operands operands) :
    Expressed FactorNode.tokens FactorNode.arithmetic (.call name operands) := by
  obtain ⟨ps, rfl, legible⟩ := h
  refine ⟨.call name ps, rfl, ?_⟩
  rw [FactorNode.tokens, List.cons_append, List.cons_append, allLegible_cons, allLegible_cons,
    allLegible_append, allLegible_cons]
  exact ⟨legible_name hname, legible_symbol .openParen, legible, legible_symbol .closeParen,
    allLegible_nil⟩

/-- A contract in parentheses. -/
theorem expressed_group {contract : Contract}
    (h : Expressed Conjunction.tokens Conjunction.contract contract) :
    Expressed PartNode.tokens PartNode.operand (.group contract) := by
  obtain ⟨k, rfl, legible⟩ := h
  refine ⟨.group k, rfl, ?_⟩
  rw [PartNode.tokens, List.cons_append, allLegible_cons, allLegible_append, allLegible_cons]
  exact ⟨legible_symbol .openParen, legible, legible_symbol .closeParen, allLegible_nil⟩

theorem expressed_literal (value : String) :
    Expressed PartNode.tokens PartNode.operand (.text value) := by
  refine ⟨.string value, rfl, ?_⟩
  rw [PartNode.tokens, allLegible_cons]
  exact ⟨.inr ⟨_, spelling_literal value⟩, allLegible_nil⟩

/-- Terms that make no inverted clause mean themselves, and their clause can be inverted. -/
theorem expressed_clause {first : Term} {rest : List Term} (inverted : Bool)
    (h : ¬Clause.IsBracketed (first :: rest)) (hf : Expressed TermNode.tokens TermNode.term first)
    (hr : Expressed TermNode.tokensAfter TermNode.terms rest) :
    Expressed Disjunction.tokens Disjunction.clause (.any (first :: rest) inverted) := by
  obtain ⟨t, rfl, legible⟩ := hf
  obtain ⟨ts, rfl, legibleRest⟩ := hr
  have plain : (Disjunction.terms t ts).clause = .any (t.term :: TermNode.terms ts) false :=
    Clause.clauseOf_eq_any fun inner bracketed => h ⟨inner, bracketed⟩
  have tokens : AllLegible (Disjunction.terms t ts).tokens :=
    (allLegible_append _ _).2 ⟨legible, legibleRest⟩
  cases inverted with
  | false => exact ⟨.terms t ts, plain, tokens⟩
  | true =>
    refine ⟨.inverted (.terms t ts), ?_, ?_⟩
    · rw [Disjunction.clause, plain]
      rfl
    · rw [Disjunction.tokens, List.cons_append, List.cons_append, allLegible_cons, allLegible_cons,
        allLegible_append, allLegible_cons]
      exact ⟨legible_symbol .bang, legible_symbol .openParen, tokens, legible_symbol .closeParen,
        allLegible_nil⟩

-- the recursion follows the contract; lists of trees carry a separator before each
mutual

theorem Conjunction.expressed : ∀ c : Contract, c.Normal → c.Writable →
    Expressed Conjunction.tokens Conjunction.contract c
  | .all [], normal, _ => absurd rfl normal.1
  | .all (c :: rest), normal, writable => by
    obtain ⟨d, same, legible⟩ := Disjunction.expressed c normal.2.1 writable.1
    obtain ⟨ds, sameRest, legibleRest⟩ := Disjunction.expressedAfter rest normal.2.2 writable.2
    refine ⟨.mk d ds, ?_, (allLegible_append _ _).2 ⟨legible, legibleRest⟩⟩
    rw [Conjunction.contract, same, sameRest]

theorem Disjunction.expressedAfter : ∀ clauses, Clause.NormalList clauses →
    Clause.WritableList clauses → Expressed Disjunction.tokensAfter Disjunction.clauses clauses
  | [], _, _ => ⟨[], rfl, allLegible_nil⟩
  | c :: rest, normal, writable =>
    .cons (fun _ _ => rfl) (fun _ _ => rfl) (Disjunction.expressed c normal.1 writable.1)
      (Disjunction.expressedAfter rest normal.2 writable.2)

theorem Disjunction.expressed : ∀ c : Clause, c.Normal → c.Writable →
    Expressed Disjunction.tokens Disjunction.clause c
  | .any [] _, normal, _ => absurd rfl normal.1
  | .any (t :: rest) inverted, normal, writable =>
    expressed_clause inverted normal.2.1 (TermNode.expressed t normal.2.2.1 writable.1)
      (TermNode.expressedAfter rest normal.2.2.2 writable.2)

theorem TermNode.expressedAfter : ∀ terms, Term.NormalList terms → Term.WritableList terms →
    Expressed TermNode.tokensAfter TermNode.terms terms
  | [], _, _ => ⟨[], rfl, allLegible_nil⟩
  | t :: rest, normal, writable =>
    .cons (fun _ _ => rfl) (fun _ _ => rfl) (TermNode.expressed t normal.1 writable.1)
      (TermNode.expressedAfter rest normal.2 writable.2)

theorem TermNode.expressed : ∀ t : Term, t.Normal → t.Writable →
    Expressed TermNode.tokens TermNode.term t
  | .comparison left sign right inverted, normal, writable => by
    obtain ⟨l, same, legible⟩ := PartNode.expressed left normal.1 writable.1
    obtain ⟨r, sameRight, legibleRight⟩ := PartNode.expressed right normal.2 writable.2
    refine ⟨.comparison inverted l sign r, ?_, ?_⟩
    · rw [TermNode.term, same, sameRight]
    · rw [TermNode.tokens, allLegible_append, allLegible_append, allLegible_cons]
      exact ⟨⟨allLegible_mark inverted, legible⟩, legible_symbol _, legibleRight⟩
  | .lone operand inverted, normal, writable => by
    obtain ⟨p, same, legible⟩ := PartNode.expressed operand normal writable
    refine ⟨.lone inverted p, ?_, (allLegible_append _ _).2 ⟨allLegible_mark inverted, legible⟩⟩
    rw [TermNode.term, same]

theorem PartNode.expressed : ∀ o : Operand, o.Normal → o.Writable →
    Expressed PartNode.tokens PartNode.operand o
  | .arithmetic value, normal, writable => by
    obtain ⟨s, same, legible⟩ := (levels value normal writable).sum
    exact ⟨.sum s, congrArg Operand.arithmetic same, legible⟩
  | .text value, _, _ => expressed_literal value
  | .group contract, normal, writable =>
    expressed_group (Conjunction.expressed contract normal writable)

theorem PartNode.expressedAfter : ∀ operands, Operand.NormalList operands →
    Operand.WritableList operands → Expressed PartNode.tokensAfter PartNode.operands operands
  | [], _, _ => ⟨[], rfl, allLegible_nil⟩
  | o :: rest, normal, writable =>
    .cons (fun _ _ => rfl) (fun _ _ => rfl) (PartNode.expressed o normal.1 writable.1)
      (PartNode.expressedAfter rest normal.2 writable.2)

theorem levels : ∀ a : Arithmetic, a.Normal → a.Writable → Levels a
  | .variableName name, _, writable =>
    .of_factor ⟨.variableName name, rfl,
      (allLegible_cons _ _).2 ⟨legible_name writable, allLegible_nil⟩⟩
  | .call _ [], _, writable => .of_factor (expressed_call writable.1 ⟨[], rfl, allLegible_nil⟩)
  | .call _ (o :: rest), normal, writable => by
    obtain ⟨p, same, legible⟩ := PartNode.expressed o normal.1 writable.2.1
    obtain ⟨ps, sameRest, legibleRest⟩ := PartNode.expressedAfter rest normal.2 writable.2.2
    refine .of_factor (expressed_call writable.1 ⟨p :: ps, ?_, ?_⟩)
    · rw [PartNode.operands, same, sameRest]
    · exact (allLegible_append _ _).2 ⟨legible, legibleRest⟩
  | .number _, _, writable => .of_factor (Number.exists_factor writable)
  | .binary _ left right, normal, writable =>
    .binary (levels left normal.1 writable.1) (levels right normal.2.1 writable.2) normal.2.2

end

end Grammar

/-! ## Numbers of writable contracts -/

mutual

theorem Contract.Writable.finite : ∀ c : Contract, c.Writable → AllFinite c.numbers
  | .all clauses, h => Clause.WritableList.finite clauses h

theorem Clause.WritableList.finite : ∀ clauses, Clause.WritableList clauses →
    AllFinite (Clause.numbersList clauses)
  | [], _ => nofun
  | c :: rest, h =>
    (allFinite_append _ _).2 ⟨Clause.Writable.finite c h.1, Clause.WritableList.finite rest h.2⟩

theorem Clause.Writable.finite : ∀ c : Clause, c.Writable → AllFinite c.numbers
  | .any terms _, h => Term.WritableList.finite terms h

theorem Term.WritableList.finite : ∀ terms, Term.WritableList terms →
    AllFinite (Term.numbersList terms)
  | [], _ => nofun
  | t :: rest, h =>
    (allFinite_append _ _).2 ⟨Term.Writable.finite t h.1, Term.WritableList.finite rest h.2⟩

theorem Term.Writable.finite : ∀ t : Term, t.Writable → AllFinite t.numbers
  | .comparison left _ right _, h =>
    (allFinite_append _ _).2 ⟨Operand.Writable.finite left h.1, Operand.Writable.finite right h.2⟩
  | .lone operand _, h => Operand.Writable.finite operand h

theorem Operand.Writable.finite : ∀ o : Operand, o.Writable → AllFinite o.numbers
  | .arithmetic value, h => Arithmetic.Writable.finite value h
  | .text _, _ => nofun
  | .group contract, h => Contract.Writable.finite contract h

theorem Operand.WritableList.finite : ∀ operands, Operand.WritableList operands →
    AllFinite (Operand.numbersList operands)
  | [], _ => nofun
  | o :: rest, h =>
    (allFinite_append _ _).2 ⟨Operand.Writable.finite o h.1, Operand.WritableList.finite rest h.2⟩

theorem Arithmetic.Writable.finite : ∀ a : Arithmetic, a.Writable → AllFinite a.numbers
  | .variableName _, _ => nofun
  | .call _ arguments, h => Operand.WritableList.finite arguments h.2
  | .number value, h => fun n hn => by
    rw [List.mem_singleton.1 hn]
    exact Number.Readable.finite h
  | .binary _ left right, h =>
    (allFinite_append _ _).2
      ⟨Arithmetic.Writable.finite left h.1, Arithmetic.Writable.finite right h.2⟩

end

/-! ## Reading back -/

namespace Contract

/-- A normal contract is read back as itself. -/
theorem Normal.readsText {c : Contract} (normal : c.Normal) (writable : c.Writable) :
    ReadsText parser c.print c := by
  -- the tokens of the text may be those of another tree, but one with the same meaning
  obtain ⟨k, rfl, legible⟩ := Conjunction.expressed c normal writable
  obtain ⟨k', same, prints, _⟩ := k.printed legible (Writable.finite _ writable)
  rw [← same] at prints ⊢
  exact readsText_of_prints prints (accepts_contract k' (begins_token.2 (by decide)))

/-- A writable contract is read back from its text as an equal one exactly if it is normal.  It is
    then read back as itself, and nothing but normal contracts is ever parsed. -/
theorem readsText_iff_normal :
    (∀ c : Contract, c.Writable →
      ((∃ d, ReadsText parser c.print d ∧ (d == c) = true) ↔ c.Normal)
        ∧ (c.Normal → ReadsText parser c.print c))
    ∧ ∀ cursor d cursor', parser cursor = .ok (d, cursor') → d.Normal := by
  refine ⟨fun c writable => ⟨⟨?_, fun normal => ?_⟩, fun normal => normal.readsText writable⟩,
    yields_normal⟩
  · -- what was read is normal, and equal contracts are normal together
    rintro ⟨d, ⟨lexemes, behind, last, _, read, _⟩, equal⟩
    exact (normal_iff_of_beq equal).1 (yields_normal _ _ _ read)
  · exact ⟨c, normal.readsText writable, beq_iff.2 rfl⟩

/-- The variable `a`. -/
def variableA : Operand := .arithmetic (.variableName "a")

/-- The contract `!(a | !(!(a))) & f("s") * -1 <= a`. -/
def nested : Contract := .all
  [.any [.lone variableA false,
      .lone (.group (.all [.any [.lone variableA false] true])) true] true,
    .any [.comparison (.arithmetic (.binary .times (.call "f" [.text "s"]) (.number (.int (-1)))))
      .lessEqual variableA false] false]

/-- An inverted group that prints as the inverted clause `!(a)`. -/
def bracketed : Contract :=
  .all [.any [.lone (.group (.all [.any [.lone variableA false] false])) true] false]

/-- Inversions that are nested are read back, and a single inverted group is not. -/
theorem readsText_nested :
    nested.Writable ∧ ReadsText parser nested.print nested ∧ bracketed.Writable
      ∧ ¬∃ d, ReadsText parser bracketed.print d ∧ (d == bracketed) = true := by
  have writable : nested.Writable := by
    simp only [nested, variableA, Writable, Clause.WritableList, Clause.Writable,
      Term.WritableList, Term.Writable, Operand.Writable, Operand.WritableList, Arithmetic.Writable]
    decide
  have normal : nested.Normal := by
    simp [nested, variableA, Normal, Clause.NormalList, Clause.Normal, Clause.IsBracketed,
      Term.NormalList, Term.Normal, Operand.Normal, Operand.NormalList, Arithmetic.Normal,
      Arithmetic.Fits, Arithmetic.IsSum, Arithmetic.IsAtom]
  have writable' : bracketed.Writable := by
    simp only [bracketed, variableA, Writable, Clause.WritableList, Clause.Writable,
      Term.WritableList, Term.Writable, Operand.Writable, Arithmetic.Writable]
    decide
  have abnormal : ¬bracketed.Normal := fun h => h.2.1.2.1 ⟨_, rfl⟩
  exact ⟨writable, (readsText_iff_normal.1 nested writable).2 normal, writable',
    fun back => abnormal ((readsText_iff_normal.1 bracketed writable').1.1 back)⟩

end Contract
end LibrarySpec
