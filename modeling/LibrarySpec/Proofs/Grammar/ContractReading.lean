/-
  What the parser of contracts reads.

  The parser takes the parsers one level deeper as arguments, so each lemma below takes as hypotheses
  that these read contracts and operands; `reads_contractAt` ties the knot by induction on the depth.

  The crux is the clause that begins with `!(` (`reads_clause`).  The parser decides between an
  inverted clause and an inverted term by what follows the parentheses.  Either way the lexemes spell
  the one tree whose first term is the inverted group: its value is the inverted clause exactly when
  nothing follows that group and it holds a single clause that is not inverted.
-/
import LibrarySpec.Contract.Parser
import LibrarySpec.Proofs.Grammar.Types

namespace LibrarySpec

open Grammar LibrarySpec.Parser

namespace Grammar

/-! ## Lists of trees -/

theorem Disjunction.plain_tokensAfter (ds : List Disjunction) :
    plain (Disjunction.tokensAfter ds) = ds.flatMap fun d => sym .ampersand :: d.leaves := by
  induction ds with
  | nil => rfl
  | cons d ds ih =>
    rw [tokensAfter, List.flatMap_cons, ← ih, plain_append]
    rfl

theorem TermNode.plain_tokensAfter (ts : List TermNode) :
    plain (TermNode.tokensAfter ts) = ts.flatMap fun t => sym .bar :: t.leaves := by
  induction ts with
  | nil => rfl
  | cons t ts ih =>
    rw [tokensAfter, List.flatMap_cons, ← ih, plain_append]
    rfl

theorem PartNode.plain_tokensOf (ps : List PartNode) :
    plain (PartNode.tokensOf ps) = separate .comma PartNode.leaves ps := by
  have after : ∀ ps : List PartNode,
      plain (PartNode.tokensAfter ps) = ps.flatMap fun p => sym .comma :: p.leaves := by
    intro ps
    induction ps with
    | nil => rfl
    | cons p ps ih =>
      rw [tokensAfter, List.flatMap_cons, ← ih, plain_append]
      rfl
  cases ps with
  | nil => rfl
  | cons p ps => rw [tokensOf, plain_append, after, separate, PartNode.leaves]

theorem Disjunction.clauses_eq (ds : List Disjunction) :
    Disjunction.clauses ds = ds.map Disjunction.clause := by
  induction ds with
  | nil => rfl
  | cons d ds ih => rw [clauses, ih, List.map_cons]

theorem TermNode.terms_eq (ts : List TermNode) : TermNode.terms ts = ts.map TermNode.term := by
  induction ts with
  | nil => rfl
  | cons t ts ih => rw [terms, ih, List.map_cons]

theorem PartNode.operands_eq (ps : List PartNode) :
    PartNode.operands ps = ps.map PartNode.operand := by
  induction ps with
  | nil => rfl
  | cons p ps ih => rw [operands, ih, List.map_cons]

/-! ## Chains of arithmetic

  A sum and a product are nested to the left in the grammar and lists of signed items in the parser.
  The two forms have the same tokens and the same value. -/

/-- The values of signed items, joined to the left. -/
def joined (first : Arithmetic) (rest : List (Operator × Arithmetic)) : Arithmetic :=
  rest.foldl (fun left r => .binary r.1 left r.2) first

theorem SumNode.exists_of_chain (rest : List ((Symbol × Operator) × ProductNode))
    (h : ∀ r ∈ rest, [(Symbol.plus, Operator.plus), (.minus, .minus)].lookup r.1.1 = some r.1.2)
    (s : SumNode) :
    ∃ s' : SumNode, s'.tokens = s.tokens ++ rest.flatMap (fun r => .symbol r.1.1 :: r.2.tokens)
      ∧ s'.arithmetic = joined s.arithmetic (rest.map fun r => (r.1.2, r.2.arithmetic)) := by
  induction rest generalizing s with
  | nil => exact ⟨s, by simp, rfl⟩
  | cons r rest ih =>
    obtain ⟨⟨sign, op⟩, p⟩ := r
    have ht : ∀ r ∈ rest, _ := fun x hx => h x (List.mem_cons_of_mem _ hx)
    have hs := h _ List.mem_cons_self
    simp only [List.lookup_cons, List.lookup_nil] at hs
    split at hs
    · rename_i hsign
      obtain rfl : sign = .plus := by simpa using hsign
      cases hs
      obtain ⟨s', h1, h2⟩ := ih ht (.plus s p)
      exact ⟨s', by simp [h1, SumNode.tokens], h2⟩
    · split at hs
      · rename_i hsign
        obtain rfl : sign = .minus := by simpa using hsign
        cases hs
        obtain ⟨s', h1, h2⟩ := ih ht (.minus s p)
        exact ⟨s', by simp [h1, SumNode.tokens], h2⟩
      · cases hs

theorem ProductNode.exists_of_chain (rest : List ((Symbol × Operator) × FactorNode))
    (h : ∀ r ∈ rest, [(Symbol.star, Operator.times), (.slash, .divide)].lookup r.1.1 = some r.1.2)
    (p : ProductNode) :
    ∃ p' : ProductNode, p'.tokens = p.tokens ++ rest.flatMap (fun r => .symbol r.1.1 :: r.2.tokens)
      ∧ p'.arithmetic = joined p.arithmetic (rest.map fun r => (r.1.2, r.2.arithmetic)) := by
  induction rest generalizing p with
  | nil => exact ⟨p, by simp, rfl⟩
  | cons r rest ih =>
    obtain ⟨⟨sign, op⟩, f⟩ := r
    have ht : ∀ r ∈ rest, _ := fun x hx => h x (List.mem_cons_of_mem _ hx)
    have hs := h _ List.mem_cons_self
    simp only [List.lookup_cons, List.lookup_nil] at hs
    split at hs
    · rename_i hsign
      obtain rfl : sign = .star := by simpa using hsign
      cases hs
      obtain ⟨p', h1, h2⟩ := ih ht (.times p f)
      exact ⟨p', by simp [h1, ProductNode.tokens], h2⟩
    · split at hs
      · rename_i hsign
        obtain rfl : sign = .slash := by simpa using hsign
        cases hs
        obtain ⟨p', h1, h2⟩ := ih ht (.divide p f)
        exact ⟨p', by simp [h1, ProductNode.tokens], h2⟩
      · cases hs

end Grammar

/-! ## Arithmetic -/

namespace Arithmetic

theorem reads_negated :
    Reads negated (fun n : Numeral => [.token n.token]) (fun n => .number n.negated)
      (fun _ => True) := by
  intro c a c' st h
  obtain ⟨t, d, ht, hd⟩ := bind_eq_ok.1 h
  cases ht
  cases hc : c.current.token with
  | integer n =>
    rw [hc] at hd
    cases hd
    exact ⟨.int n, trivial, rfl, .next st hc nofun⟩
  | float x =>
    rw [hc] at hd
    cases hd
    exact ⟨.float x, trivial, rfl, .next st hc nofun⟩
  | _ =>
    rw [hc] at hd
    exact absurd hd fail_ne_ok

variable {operand : Parser Operand}

theorem reads_atom (ho : Reads operand PartNode.leaves PartNode.operand (fun _ => True)) :
    Reads (atom operand) FactorNode.leaves FactorNode.arithmetic
      (fun _ => True) := by
  intro c a c' st h
  obtain ⟨t, d, ht, hd⟩ := bind_eq_ok.1 h
  cases ht
  cases hc : c.current.token with
  | integer n =>
    rw [hc] at hd
    cases hd
    exact ⟨.number (.int n), trivial, rfl, .next st hc nofun⟩
  | float x =>
    rw [hc] at hd
    cases hd
    exact ⟨.number (.float x), trivial, rfl, .next st hc nofun⟩
  | symbol s =>
    rw [hc] at hd
    cases s with
    | minus =>
      obtain ⟨_, e, he, hn⟩ := bind_eq_ok.1 hd
      cases he
      have minus := Passed.next st hc (by simp)
      obtain ⟨n, _, rfl, number⟩ := reads_negated _ _ _ minus.stream hn
      exact ⟨.negative n, trivial, rfl, minus.trans number⟩
    | _ => exact absurd hd fail_ne_ok
  | identifier name =>
    rw [hc] at hd
    obtain ⟨_, e, he, hn⟩ := bind_eq_ok.1 hd
    cases he
    have first := Passed.next st hc (by simp)
    obtain ⟨b, e, hb, hn⟩ := bind_eq_ok.1 hn
    cases b with
    | false =>
      cases hn
      obtain ⟨rfl, _⟩ := eat_eq_false hb
      exact ⟨.variableName name, trivial, rfl, first⟩
    | true =>
      obtain ⟨args, g, hg, hr⟩ := bind_eq_ok.1 hn
      cases hr
      have paren := eat_eq_true first.stream (by simp) hb
      obtain ⟨ps, _, rfl, inside⟩ := inParens_eq_ok ho paren.stream hg
      refine ⟨.call name ps, trivial, ?_, ?_⟩
      · rw [FactorNode.arithmetic, PartNode.operands_eq]
      · have whole := first.trans (paren.trans inside)
        rw [← PartNode.plain_tokensOf] at whole
        rw [FactorNode.leaves, FactorNode.tokens, plain_append]
        exact whole
  | eof =>
    rw [hc] at hd
    obtain ⟨_, _, hp, hr⟩ := bind_eq_ok.1 hd
    exact absurd hr reject_ne_ok
  | _ =>
    rw [hc] at hd
    exact absurd hd fail_ne_ok

theorem operatorOf_eq_some {choices : List (Symbol × Operator)} {op : Operator} {c c' : Cursor}
    (st : Stream c.ahead) (h : operatorOf choices c = .ok (some op, c')) :
    ∃ s, choices.lookup s = some op ∧ Passed c c' [sym s] := by
  obtain ⟨t, d, ht, hd⟩ := bind_eq_ok.1 h
  cases ht
  cases hc : c.current.token with
  | symbol s =>
    rw [hc] at hd
    cases hs : choices.lookup s with
    | none =>
      simp only [hs] at hd
      cases hd
    | some op' =>
      simp only [hs] at hd
      cases hd
      exact ⟨s, hs, .next st hc (by simp)⟩
  | _ =>
    rw [hc] at hd
    cases hd

theorem operatorOf_eq_none {choices : List (Symbol × Operator)} {c c' : Cursor}
    (h : operatorOf choices c = .ok (none, c')) : c' = c := by
  obtain ⟨t, d, ht, hd⟩ := bind_eq_ok.1 h
  cases ht
  cases hc : c.current.token with
  | symbol s =>
    rw [hc] at hd
    cases hs : choices.lookup s with
    | none =>
      simp only [hs] at hd
      cases hd
      rfl
    | some op' =>
      simp only [hs] at hd
      cases hd
  | _ =>
    rw [hc] at hd
    cases hd
    rfl

/-- A sign and the item behind it, if there is a sign. -/
def signed (choices : List (Symbol × Operator)) (item : Parser Arithmetic) :
    Parser (Option (Operator × Arithmetic)) := do
  match ← operatorOf choices with
  | some operator => return some (operator, ← item)
  | none => return none

/-- The sign is known when its item is read. -/
theorem signed_eq {choices : List (Symbol × Operator)} {item : Parser Arithmetic} :
    signed choices item = (do
      match ← peek with
      | .symbol sign =>
        match choices.lookup sign with
        | some operator =>
          advance
          return some (operator, ← item)
        | none => return none
      | _ => return none) := by
  funext c
  rw [signed, operatorOf, bind_assoc, bind_of_ok (peek_apply c), bind_of_ok (peek_apply c)]
  cases c.current.token with
  | symbol sign =>
    dsimp only
    cases choices.lookup sign with
    | some operator => rfl
    | none => rfl
  | _ => rfl

/-- A chain is a first item and signed items behind it. -/
theorem chain_eq_ok {τ : Type} {choices : List (Symbol × Operator)} {item : Parser Arithmetic}
    {tokens : τ → List Token} {value : τ → Arithmetic}
    (hi : Reads item (fun t => plain (tokens t)) value (fun _ => True)) {c c' : Cursor}
    {a : Arithmetic} (st : Stream c.ahead) (h : chain choices item c = .ok (a, c')) :
    ∃ (first : τ) (rest : List ((Symbol × Operator) × τ)),
      (∀ r ∈ rest, choices.lookup r.1.1 = some r.1.2)
        ∧ a = joined (value first) (rest.map fun r => (r.1.2, value r.2))
        ∧ Passed c c' (plain (tokens first
            ++ rest.flatMap fun r => .symbol r.1.1 :: tokens r.2)) := by
  obtain ⟨v, d, hv, hd⟩ := bind_eq_ok.1 h
  obtain ⟨more, e, hm, he⟩ := bind_eq_ok.1 hd
  cases he
  obtain ⟨first, _, rfl, front⟩ := hi _ _ _ st hv
  have step : ∀ c a c', Stream c.ahead → signed choices item c = .ok (some a, c') →
      ∃ r : (Symbol × Operator) × τ, choices.lookup r.1.1 = some r.1.2
        ∧ (r.1.2, value r.2) = a ∧ Passed c c' (plain (.symbol r.1.1 :: tokens r.2)) := by
    intro c a c' st h
    obtain ⟨o, d, ho, hd⟩ := bind_eq_ok.1 h
    cases o with
    | none => cases hd
    | some op =>
      obtain ⟨v, e, hv, hr⟩ := bind_eq_ok.1 hd
      cases hr
      obtain ⟨s, hs, sign⟩ := operatorOf_eq_some st ho
      obtain ⟨t, _, rfl, rest⟩ := hi _ _ _ sign.stream hv
      exact ⟨((s, op), t), hs, rfl, sign.trans rest⟩
  have done : ∀ c c', signed choices item c = .ok (none, c') → c' = c ∧ True := by
    intro c c' h
    obtain ⟨o, d, ho, hd⟩ := bind_eq_ok.1 h
    cases o with
    | none =>
      cases hd
      exact ⟨operatorOf_eq_none ho, trivial⟩
    | some op =>
      obtain ⟨v, e, hv, hr⟩ := bind_eq_ok.1 hd
      cases hr
  obtain ⟨rest, hrest, rfl, back, _⟩ := repeat_eq_ok step done front.stream hm
  refine ⟨first, rest, hrest, rfl, ?_⟩
  rw [plain_append, plain_flatMap]
  exact front.trans back

theorem reads_product (ho : Reads operand PartNode.leaves PartNode.operand (fun _ => True)) :
    Reads (product operand) ProductNode.leaves ProductNode.arithmetic
      (fun _ => True) := by
  intro c a c' st h
  obtain ⟨first, rest, hrest, rfl, passed⟩ := chain_eq_ok (reads_atom ho) st h
  obtain ⟨p, ht, hv⟩ := ProductNode.exists_of_chain rest hrest (.one first)
  exact ⟨p, trivial, hv, by rw [ProductNode.leaves, ht]; exact passed⟩

theorem reads_sum (ho : Reads operand PartNode.leaves PartNode.operand (fun _ => True)) :
    Reads (sum operand) SumNode.leaves SumNode.arithmetic
      (fun _ => True) := by
  intro c a c' st h
  obtain ⟨first, rest, hrest, rfl, passed⟩ := chain_eq_ok (reads_product ho) st h
  obtain ⟨s, ht, hv⟩ := SumNode.exists_of_chain rest hrest (.one first)
  exact ⟨s, trivial, hv, by rw [SumNode.leaves, ht]; exact passed⟩

end Arithmetic

/-! ## Logic -/

variable {contract : Parser Contract} {operand : Parser Operand}

theorem Operand.reads_parserWith
    (hc : Reads contract Conjunction.leaves Conjunction.contract (fun _ => True))
    (ho : Reads operand PartNode.leaves PartNode.operand (fun _ => True)) :
    Reads (Operand.parserWith contract operand) PartNode.leaves PartNode.operand
      (fun _ => True) := by
  intro c a c' st h
  obtain ⟨t, d, ht, hd⟩ := bind_eq_ok.1 h
  cases ht
  -- whatever is neither a string nor a parenthesis starts a sum
  have sum : ∀ {a c'}, (do return Operand.arithmetic (← Arithmetic.sum operand) : Parser Operand) c
        = .ok (a, c') →
      ∃ p : PartNode, True ∧ p.operand = a ∧ Passed c c' p.leaves := by
    intro a c' h
    obtain ⟨v, e, hv, hr⟩ := bind_eq_ok.1 h
    cases hr
    obtain ⟨s, _, rfl, passed⟩ := Arithmetic.reads_sum ho _ _ _ st hv
    exact ⟨.sum s, trivial, rfl, passed⟩
  cases hcur : c.current.token with
  | literal value =>
    rw [hcur] at hd
    cases hd
    exact ⟨.string value, trivial, rfl, .next st hcur (by simp)⟩
  | symbol s =>
    rw [hcur] at hd
    cases s with
    | openParen =>
      obtain ⟨_, e, he, hr⟩ := bind_eq_ok.1 hd
      cases he
      obtain ⟨inner, g, hg, hr⟩ := bind_eq_ok.1 hr
      obtain ⟨_, k, hk, hr⟩ := bind_eq_ok.1 hr
      cases hr
      have opening := Passed.next st hcur (by simp)
      obtain ⟨tree, _, rfl, inside⟩ := hc _ _ _ opening.stream hg
      have whole := opening.trans (inside.trans (expect_eq_ok inside.stream (by simp) hk))
      refine ⟨.group tree, trivial, rfl, ?_⟩
      rw [PartNode.leaves, PartNode.tokens, plain_append]
      exact whole
    | _ => exact sum hd
  | _ =>
    rw [hcur] at hd
    exact sum hd

theorem Comparison.ofToken?_eq_some {t : Token} {sign : Comparison}
    (h : Comparison.ofToken? t = some sign) : t = .symbol (comparisonSymbol sign) := by
  unfold Comparison.ofToken? at h
  split at h <;> cases h <;> rfl

/-- The terms of a node that begins with an operand already read. -/
theorem Term.continued_eq_ok
    (ho : Reads operand PartNode.leaves PartNode.operand (fun _ => True)) {left : PartNode}
    {inverted : Bool} {c c' : Cursor} {t : Term} (st : Stream c.ahead)
    (h : Term.continued operand left.operand inverted c = .ok (t, c')) :
    (t = .lone left.operand inverted ∧ c' = c ∧ Comparison.ofToken? c.current.token = none)
      ∨ ∃ sign right, t = (TermNode.comparison inverted left sign right).term
        ∧ Passed c c' (.token (.symbol (comparisonSymbol sign)) :: right.leaves) := by
  obtain ⟨u, d, hu, hd⟩ := bind_eq_ok.1 h
  cases hu
  cases hs : Comparison.ofToken? c.current.token with
  | none =>
    simp only [hs] at hd
    cases hd
    exact .inl ⟨rfl, rfl, rfl⟩
  | some sign =>
    simp only [hs] at hd
    obtain ⟨_, e, he, hr⟩ := bind_eq_ok.1 hd
    cases he
    obtain ⟨v, g, hv, hr⟩ := bind_eq_ok.1 hr
    cases hr
    have mark := Passed.next st (Comparison.ofToken?_eq_some hs) (by simp)
    obtain ⟨right, _, rfl, passed⟩ := ho _ _ _ mark.stream hv
    exact .inr ⟨sign, right, rfl, mark.trans passed⟩

/-- A term is the mark it may have, its left operand, and what stands behind that. -/
theorem Term.continued_tree
    (ho : Reads operand PartNode.leaves PartNode.operand (fun _ => True)) {left : PartNode}
    {inverted : Bool} {c d c' : Cursor} {t : Term}
    (front : Passed c d (plain (if inverted then [.symbol .bang] else []) ++ left.leaves))
    (h : Term.continued operand left.operand inverted d = .ok (t, c')) :
    ∃ n : TermNode, n.term = t ∧ Passed c c' n.leaves := by
  rcases Term.continued_eq_ok ho front.stream h with ⟨rfl, rfl, _⟩ | ⟨sign, right, rfl, back⟩
  · refine ⟨.lone inverted left, rfl, ?_⟩
    rw [TermNode.leaves, TermNode.tokens, plain_append]
    exact front
  · refine ⟨.comparison inverted left sign right, rfl, ?_⟩
    rw [TermNode.leaves, TermNode.tokens, plain_append, plain_append]
    exact front.trans back

theorem Term.reads_parserWith
    (ho : Reads operand PartNode.leaves PartNode.operand (fun _ => True)) :
    Reads (Term.parserWith operand) TermNode.leaves TermNode.term (fun _ => True) := by
  intro c t c' st h
  obtain ⟨inverted, d, hb, hd⟩ := bind_eq_ok.1 h
  obtain ⟨v, e, hv, hr⟩ := bind_eq_ok.1 hd
  have mark : Passed c d (plain (if inverted then [.symbol .bang] else [])) := by
    cases inverted with
    | true => exact eat_eq_true st (by simp) hb
    | false =>
      obtain ⟨rfl, _⟩ := eat_eq_false hb
      exact .refl st
  obtain ⟨left, _, rfl, passed⟩ := ho _ _ _ mark.stream hv
  obtain ⟨n, hn, whole⟩ := Term.continued_tree ho (mark.trans passed) hr
  exact ⟨n, trivial, hn, whole⟩

namespace Clause

/-- A clause behind an inverted group that is read already. -/
def behindGroup (operand : Parser Operand) (inner : Contract) (extended : Bool) :
    Parser Clause :=
  match inner, extended with
  | .all [.any terms false], false => return .any terms true
  | inner, _ => do
    let first ← Term.continued operand (.group inner) true
    continued operand first

/-- A clause that begins with `!(`. -/
def bracketed (contract : Parser Contract) (operand : Parser Operand) : Parser Clause := do
  advance
  advance
  let inner ← contract
  expect (.symbol .closeParen) "')'"
  behindGroup operand inner (← isExtended)

/-- Everything but a single plain clause with nothing behind it goes on as a term. -/
theorem behindGroup_eq {inner : Contract} {extended : Bool}
    (h : ∀ terms, inner = .all [.any terms false] → extended = true) :
    behindGroup operand inner extended = (do
      let first ← Term.continued operand (.group inner) true
      continued operand first) := by
  unfold behindGroup
  split
  · rename_i terms
    cases h terms rfl
  · rfl

/-- The contract is a single plain clause with nothing behind it, or the clause goes on. -/
theorem single_or_goesOn (inner : Contract) (extended : Bool) :
    (∃ terms, inner = .all [.any terms false] ∧ extended = false)
      ∨ ∀ terms, inner = .all [.any terms false] → extended = true := by
  cases extended with
  | false =>
    by_cases single : ∃ terms, inner = .all [.any terms false]
    · obtain ⟨terms, hi⟩ := single
      exact .inl ⟨terms, hi, rfl⟩
    · exact .inr fun terms hi => absurd ⟨terms, hi⟩ single
  | true => exact .inr fun _ _ => rfl

/-- The two ways to go on are told apart by the first two tokens. -/
theorem parserWith_apply (contract : Parser Contract) (operand : Parser Operand) (c : Cursor) :
    parserWith contract operand c =
      if c.current.token = .symbol .bang ∧ c.second.token = .symbol .openParen then
        bracketed contract operand c
      else (do
        let first ← Term.parserWith operand
        continued operand first) c := by
  rw [parserWith, bind_of_ok (check_apply _ c), bind_of_ok (peekSecond_apply c)]
  by_cases h : c.current.token = .symbol .bang ∧ c.second.token = .symbol .openParen
  · rw [if_pos h, if_pos (by simp [h.1, h.2])]
    rfl
  · rw [if_neg h, if_neg (by simpa using h)]

/-- Only a single inverted group makes an inverted clause. -/
theorem clauseOf_eq_any {terms : List Term}
    (h : ∀ inner, terms ≠ [.lone (.group (.all [.any inner false])) true]) :
    clauseOf terms = .any terms false := by
  unfold clauseOf
  split
  · rename_i inner
    exact absurd rfl (h inner)
  · rfl

/-- The terms of a clause whose first term is read already; no bar follows the last. -/
theorem continued_eq_ok (ho : Reads operand PartNode.leaves PartNode.operand (fun _ => True))
    {first : Term} {c c' : Cursor} {a : Clause} (st : Stream c.ahead)
    (h : continued operand first c = .ok (a, c')) :
    ∃ rest : List TermNode, a = .any (first :: rest.map TermNode.term) false
      ∧ Passed c c' (plain (TermNode.tokensAfter rest)) ∧ c'.current.token ≠ .symbol .bar := by
  obtain ⟨more, d, hm, hd⟩ := bind_eq_ok.1 h
  cases hd
  obtain ⟨rest, _, rfl, passed, last⟩ := afterEach_eq_ok (by simp) (Term.reads_parserWith ho) st hm
  refine ⟨rest, rfl, ?_, last⟩
  rw [TermNode.plain_tokensAfter]
  exact passed

/-- The tree of a clause whose terms make no inverted clause. -/
theorem exists_tree {n : TermNode} {rest : List TermNode} {c d c' : Cursor}
    (front : Passed c d n.leaves) (back : Passed d c' (plain (TermNode.tokensAfter rest)))
    (h : ∀ inner, n.term :: rest.map TermNode.term
      ≠ [.lone (.group (.all [.any inner false])) true]) :
    ∃ t : Disjunction, True ∧ t.clause = .any (n.term :: rest.map TermNode.term) false
      ∧ Passed c c' t.leaves := by
  refine ⟨.terms n rest, trivial, ?_, ?_⟩
  · rw [Disjunction.clause, TermNode.terms_eq]
    exact clauseOf_eq_any h
  · rw [Disjunction.leaves, Disjunction.tokens, plain_append]
    exact front.trans back

theorem isExtended_apply (c : Cursor) :
    isExtended c
      = .ok (decide (c.current.token = .symbol .bar) || c.current.token.isComparison, c) := rfl

theorem ofToken?_eq_none {t : Token} (h : Comparison.ofToken? t = none) :
    t.isComparison = false := by
  unfold Comparison.ofToken? at h
  split at h
  all_goals cases h
  cases t with
  | symbol s => cases s <;> simp_all [Token.isComparison, Symbol.isComparison]
  | _ => rfl

/-- Terms stand behind an inverted group.  If it is a single plain clause, something has to follow, for
    else the whole clause would be the inverted one. -/
theorem behindGroup_terms_eq_ok
    (ho : Reads operand PartNode.leaves PartNode.operand (fun _ => True)) {tree : Conjunction}
    {c d c' : Cursor} {a : Clause}
    (group : Passed c d
      (plain (if true then [.symbol .bang] else []) ++ (PartNode.group tree).leaves))
    (extended : ∀ inner, tree.contract = .all [.any inner false] →
      d.current.token = .symbol .bar ∨ d.current.token.isComparison = true)
    (h : (do
        let first ← Term.continued operand (.group tree.contract) true
        continued operand first : Parser Clause) d = .ok (a, c')) :
    ∃ t : Disjunction, True ∧ t.clause = a ∧ Passed c c' t.leaves := by
  obtain ⟨first, m, hm, h⟩ := bind_eq_ok.1 h
  obtain ⟨n, rfl, front⟩ := Term.continued_tree ho (c := c) group hm
  obtain ⟨rest, rfl, back, last⟩ := continued_eq_ok ho front.stream h
  refine exists_tree front back ?_
  intro i hi
  -- with nothing behind the group there is neither a bar nor a comparison
  rw [List.cons.injEq, List.map_eq_nil_iff] at hi
  obtain ⟨hn, rfl⟩ := hi
  rw [hn] at hm
  have read : Term.continued operand (PartNode.group tree).operand true d
      = .ok (.lone (.group (.all [.any i false])) true, m) := hm
  rcases Term.continued_eq_ok ho group.stream read with ⟨heq, rfl, hnone⟩ | ⟨_, _, heq, _⟩
  · rw [PartNode.operand, Term.lone.injEq, Operand.group.injEq] at heq
    rcases extended i heq.1.symm with hbar | hcomparison
    · rw [back.current_of_nil] at hbar
      exact last hbar
    · rw [ofToken?_eq_none hnone] at hcomparison
      cases hcomparison
  · cases heq

theorem bracketed_eq_ok
    (hc : Reads contract Conjunction.leaves Conjunction.contract (fun _ => True))
    (ho : Reads operand PartNode.leaves PartNode.operand (fun _ => True)) {c c' : Cursor}
    {a : Clause} (st : Stream c.ahead) (hbang : c.current.token = .symbol .bang)
    (hparen : c.second.token = .symbol .openParen)
    (h : bracketed contract operand c = .ok (a, c')) :
    ∃ t : Disjunction, True ∧ t.clause = a ∧ Passed c c' t.leaves := by
  obtain ⟨_, d, hd, h⟩ := bind_eq_ok.1 h
  cases hd
  obtain ⟨_, e, he, h⟩ := bind_eq_ok.1 h
  cases he
  obtain ⟨inner, f, hf, h⟩ := bind_eq_ok.1 h
  obtain ⟨_, g, hg, h⟩ := bind_eq_ok.1 h
  obtain ⟨extended, k, hk, h⟩ := bind_eq_ok.1 h
  rw [isExtended_apply, Except.ok.injEq, Prod.mk.injEq] at hk
  obtain ⟨hextended, rfl⟩ := hk
  have bang := Passed.next st hbang (by simp)
  have second : c.next.current.token = .symbol .openParen := by
    rw [current_next st (by simp [hbang])]
    exact hparen
  have paren := Passed.next bang.stream second (by simp)
  obtain ⟨tree, _, rfl, inside⟩ := hc _ _ _ paren.stream hf
  have close := expect_eq_ok inside.stream (by simp) hg
  have group : Passed c g
      (plain (if true then [.symbol .bang] else []) ++ (PartNode.group tree).leaves) := by
    rw [PartNode.leaves, PartNode.tokens, plain_append]
    exact bang.trans (paren.trans (inside.trans close))
  rcases single_or_goesOn tree.contract extended with ⟨i, hi, rfl⟩ | goesOn
  · rw [hi] at h
    cases h
    refine ⟨.terms (.lone true (.group tree)) [], trivial, ?_, ?_⟩
    · rw [Disjunction.clause, TermNode.terms, TermNode.term, PartNode.operand, hi]
      rfl
    · rw [Disjunction.leaves, Disjunction.tokens, TermNode.tokens, TermNode.tokensAfter,
        List.append_nil, plain_append]
      exact group
  · rw [behindGroup_eq goesOn] at h
    refine behindGroup_terms_eq_ok ho group ?_ h
    intro i hi
    rw [goesOn i hi] at hextended
    simpa using hextended

theorem reads_parserWith
    (hc : Reads contract Conjunction.leaves Conjunction.contract (fun _ => True))
    (ho : Reads operand PartNode.leaves PartNode.operand (fun _ => True)) :
    Reads (parserWith contract operand) Disjunction.leaves Disjunction.clause (fun _ => True) := by
  intro c a c' st h
  rw [parserWith_apply] at h
  split at h
  · rename_i front
    exact bracketed_eq_ok hc ho st front.1 front.2 h
  · rename_i front
    obtain ⟨first, d, hd, h⟩ := bind_eq_ok.1 h
    obtain ⟨n, _, rfl, passed⟩ := Term.reads_parserWith ho _ _ _ st hd
    obtain ⟨rest, rfl, back, _⟩ := continued_eq_ok ho passed.stream h
    refine exists_tree passed back ?_
    -- an inverted group would begin with the two tokens that are not there
    intro i hi
    rw [List.cons.injEq] at hi
    cases n with
    | comparison => cases hi.1
    | lone inverted part =>
      cases part with
      | group tree =>
        obtain rfl : inverted = true := by
          have hterm := hi.1
          rw [TermNode.term, Term.lone.injEq] at hterm
          exact hterm.2
        exact front ⟨passed.current, passed.second⟩
      | _ => cases hi.1

end Clause

namespace Contract

theorem reads_parserWith
    (hc : Reads contract Conjunction.leaves Conjunction.contract (fun _ => True))
    (ho : Reads operand PartNode.leaves PartNode.operand (fun _ => True)) :
    Reads (parserWith contract operand) Conjunction.leaves Conjunction.contract
      (fun _ => True) := by
  intro c a c' st h
  obtain ⟨clauses, d, hd, h⟩ := bind_eq_ok.1 h
  cases h
  obtain ⟨⟨first, rest⟩, _, rfl, passed⟩ :=
    separated_eq_ok (Clause.reads_parserWith hc ho) st hd
  refine ⟨.mk first rest, trivial, ?_, ?_⟩
  · rw [Conjunction.contract, Disjunction.clauses_eq]
    rfl
  · rw [Conjunction.leaves, Conjunction.tokens, plain_append, Disjunction.plain_tokensAfter]
    exact passed

/-- The parsers of every depth read the grammar. -/
theorem reads_contractAt (depth : Nat) :
    Reads (contractAt depth) Conjunction.leaves Conjunction.contract (fun _ => True)
      ∧ Reads (operandAt depth) PartNode.leaves PartNode.operand (fun _ => True) := by
  induction depth with
  | zero =>
    constructor
    · intro c a c' _ h
      cases h
    · intro c a c' _ h
      cases h
  | succ depth ih =>
    obtain ⟨hc, ho⟩ := ih
    constructor
    · intro c a c' st h
      exact reads_parserWith hc ho c a c' st h
    · intro c a c' st h
      exact Operand.reads_parserWith hc ho c a c' st h

theorem reads_contract :
    Reads parser Conjunction.leaves Conjunction.contract (fun _ => True) := by
  intro c a c' st h
  obtain ⟨d, e, hd, h⟩ := bind_eq_ok.1 h
  cases hd
  exact (reads_contractAt _).1 c a c' st h

end Contract
end LibrarySpec
