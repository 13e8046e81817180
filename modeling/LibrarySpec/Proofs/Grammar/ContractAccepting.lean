/-
  What the parser of contracts accepts.

  A parser of this grammar is greedy, so a tree is accepted only in front of a token that does not
  make it go on.  `rank` orders these tokens: a node of the grammar ends in front of every token of a
  rank below its own.

      contract < 1 (no `&`),   disjunction < 2 (nor `|`),   term < 3 (nor a comparison),
      part < 4 (nor `+ -`),    product < 5 (nor `* /`),     factor < 6 (nor `(`)

  The parsers one level deeper are assumed to accept every tree with fewer tokens; the depth that
  `parser` starts from is enough for a tree with as many tokens as there are lexemes ahead.
-/
import LibrarySpec.Proofs.Grammar.ContractReading

namespace LibrarySpec

open Grammar LibrarySpec.Parser

namespace Grammar

/-! ## Where a node ends -/

/-- How far out a token makes a contract go on. -/
def rank : Token → Nat
  | .symbol .openParen => 6
  | .symbol .star | .symbol .slash => 5
  | .symbol .plus | .symbol .minus => 4
  | .symbol .ampersand => 1
  | .symbol .bar => 2
  | t => if t.isComparison then 3 else 0

theorem rank_comparison (sign : Comparison) : rank (.symbol (comparisonSymbol sign)) = 3 := by
  cases sign <;> rfl

theorem ne_bar_of_rank {t : Token} (h : rank t < 2) : t ≠ .symbol .bar := by
  rintro rfl
  exact absurd h (by decide)

theorem ne_ampersand_of_rank {t : Token} (h : rank t < 1) : t ≠ .symbol .ampersand := by
  rintro rfl
  exact absurd h (by decide)

/-- In front of a token of low rank no comparison follows. -/
theorem ofToken?_of_rank {t : Token} (h : rank t < 3) : Comparison.ofToken? t = none := by
  cases hs : Comparison.ofToken? t with
  | none => rfl
  | some sign =>
    rw [Comparison.ofToken?_eq_some hs, rank_comparison] at h
    exact absurd h (Nat.lt_irrefl 3)

/-! ## Where a node begins -/

/-- Tokens that a sum may begin with, and none of those that tell a sum from another part. -/
def StartsSum (t : Token) : Prop :=
  t ≠ .symbol .openParen ∧ t ≠ .symbol .bang ∧ t ≠ .symbol .closeParen ∧ ∀ s, t ≠ .literal s

/-- Tokens that a part may begin with. -/
def StartsPart (t : Token) : Prop := t ≠ .symbol .bang ∧ t ≠ .symbol .closeParen

theorem FactorNode.begins (f : FactorNode) : Begins StartsSum f.leaves := by
  cases f with
  | number n => cases n <;> simp [leaves, tokens, StartsSum, Numeral.token]
  | negative n => simp [leaves, tokens, StartsSum]
  | call name args => simp [leaves, tokens, StartsSum]
  | variableName name => simp [leaves, tokens, StartsSum]

theorem ProductNode.begins : (p : ProductNode) → Begins StartsSum p.leaves
  | .one f => f.begins
  | .times left _ => by
    rw [leaves, tokens, plain_append]
    exact left.begins.append _
  | .divide left _ => by
    rw [leaves, tokens, plain_append]
    exact left.begins.append _

theorem SumNode.begins : (s : SumNode) → Begins StartsSum s.leaves
  | .one p => p.begins
  | .plus left _ => by
    rw [leaves, tokens, plain_append]
    exact left.begins.append _
  | .minus left _ => by
    rw [leaves, tokens, plain_append]
    exact left.begins.append _

theorem PartNode.begins (p : PartNode) : Begins StartsPart p.leaves := by
  cases p with
  | string value => simp [leaves, tokens, StartsPart]
  | group inner => simp [leaves, tokens, StartsPart]
  | sum s => exact s.begins.mono fun _ h => ⟨h.2.1, h.2.2.1⟩

/-! ## Signed items

  The other direction of `SumNode.exists_of_chain` and `ProductNode.exists_of_chain`. -/

theorem ProductNode.exists_chain : (p : ProductNode) →
    ∃ (first : FactorNode) (rest : List ((Symbol × Operator) × FactorNode)),
      (∀ r ∈ rest, [(Symbol.star, Operator.times), (.slash, .divide)].lookup r.1.1 = some r.1.2)
        ∧ p.tokens = first.tokens ++ rest.flatMap (fun r => .symbol r.1.1 :: r.2.tokens)
        ∧ p.arithmetic = joined first.arithmetic (rest.map fun r => (r.1.2, r.2.arithmetic))
  | .one f => ⟨f, [], by simp, by simp [tokens], rfl⟩
  | .times left right => by
    obtain ⟨first, rest, hrest, ht, hv⟩ := left.exists_chain
    refine ⟨first, rest ++ [((.star, .times), right)], ?_, ?_, ?_⟩
    · intro r hr
      rcases List.mem_append.1 hr with hr | hr
      · exact hrest r hr
      · rw [List.mem_singleton.1 hr]
        rfl
    · simp [tokens, ht]
    · simp [arithmetic, hv, joined]
  | .divide left right => by
    obtain ⟨first, rest, hrest, ht, hv⟩ := left.exists_chain
    refine ⟨first, rest ++ [((.slash, .divide), right)], ?_, ?_, ?_⟩
    · intro r hr
      rcases List.mem_append.1 hr with hr | hr
      · exact hrest r hr
      · rw [List.mem_singleton.1 hr]
        rfl
    · simp [tokens, ht]
    · simp [arithmetic, hv, joined]

theorem SumNode.exists_chain : (s : SumNode) →
    ∃ (first : ProductNode) (rest : List ((Symbol × Operator) × ProductNode)),
      (∀ r ∈ rest, [(Symbol.plus, Operator.plus), (.minus, .minus)].lookup r.1.1 = some r.1.2)
        ∧ s.tokens = first.tokens ++ rest.flatMap (fun r => .symbol r.1.1 :: r.2.tokens)
        ∧ s.arithmetic = joined first.arithmetic (rest.map fun r => (r.1.2, r.2.arithmetic))
  | .one p => ⟨p, [], by simp, by simp [tokens], rfl⟩
  | .plus left right => by
    obtain ⟨first, rest, hrest, ht, hv⟩ := left.exists_chain
    refine ⟨first, rest ++ [((.plus, .plus), right)], ?_, ?_, ?_⟩
    · intro r hr
      rcases List.mem_append.1 hr with hr | hr
      · exact hrest r hr
      · rw [List.mem_singleton.1 hr]
        rfl
    · simp [tokens, ht]
    · simp [arithmetic, hv, joined]
  | .minus left right => by
    obtain ⟨first, rest, hrest, ht, hv⟩ := left.exists_chain
    refine ⟨first, rest ++ [((.minus, .minus), right)], ?_, ?_, ?_⟩
    · intro r hr
      rcases List.mem_append.1 hr with hr | hr
      · exact hrest r hr
      · rw [List.mem_singleton.1 hr]
        rfl
    · simp [tokens, ht]
    · simp [arithmetic, hv, joined]

/-! ## Sizes -/

theorem Disjunction.length_lt {d : Disjunction} {ds : List Disjunction} (h : d ∈ ds) :
    d.tokens.length < (Disjunction.tokensAfter ds).length := by
  induction ds with
  | nil => cases h
  | cons e ds ih =>
    simp only [tokensAfter, List.length_cons, List.length_append]
    rcases List.mem_cons.1 h with rfl | h
    · omega
    · have := ih h
      omega

theorem TermNode.length_lt {t : TermNode} {ts : List TermNode} (h : t ∈ ts) :
    t.tokens.length < (TermNode.tokensAfter ts).length := by
  induction ts with
  | nil => cases h
  | cons u ts ih =>
    simp only [tokensAfter, List.length_cons, List.length_append]
    rcases List.mem_cons.1 h with rfl | h
    · omega
    · have := ih h
      omega

theorem PartNode.length_le {p : PartNode} {ps : List PartNode} (h : p ∈ ps) :
    p.tokens.length ≤ (PartNode.tokensOf ps).length := by
  have after : ∀ {ps : List PartNode}, p ∈ ps →
      p.tokens.length < (PartNode.tokensAfter ps).length := by
    intro ps h
    induction ps with
    | nil => cases h
    | cons q ps ih =>
      simp only [tokensAfter, List.length_cons, List.length_append]
      rcases List.mem_cons.1 h with rfl | h
      · omega
      · have := ih h
        omega
  cases ps with
  | nil => cases h
  | cons q ps =>
    rw [tokensOf, List.length_append]
    rcases List.mem_cons.1 h with rfl | h
    · omega
    · have := after h
      omega

end Grammar

/-! ## Arithmetic -/

/-- The parser accepts every contract with fewer tokens than that. -/
def AcceptsContracts (contract : Parser Contract) (bound : Nat) : Prop :=
  ∀ tree : Conjunction, tree.tokens.length < bound →
    ∀ after, Begins (rank · < 1) after → Accepts contract tree.leaves tree.contract after

/-- The parser accepts every part with fewer tokens than that. -/
def AcceptsParts (operand : Parser Operand) (bound : Nat) : Prop :=
  ∀ part : PartNode, part.tokens.length < bound →
    ∀ after, Begins (rank · < 4) after → Accepts operand part.leaves part.operand after

variable {contract : Parser Contract} {operand : Parser Operand} {bound : Nat} {after : List Leaf}

namespace Arithmetic

theorem accepts_negated (n : Numeral) :
    Accepts negated [.token n.token] (.number n.negated) after := by
  refine accepts_peek.look ?_
  cases n with
  | int value => exact (accepts_advance (t := .integer value) nofun).step .pure
  | float value => exact (accepts_advance (t := .float value) nofun).step .pure

theorem accepts_number (n : Numeral) :
    Accepts (atom operand) [.token n.token] (.number n.number) after := by
  refine accepts_peek.look ?_
  cases n with
  | int value => exact (accepts_advance (t := .integer value) nofun).step .pure
  | float value => exact (accepts_advance (t := .float value) nofun).step .pure

theorem accepts_negative (n : Numeral) :
    Accepts (atom operand) [sym .minus, .token n.token] (.number n.negated) after :=
  accepts_peek.look ((accepts_advance (by simp)).step (accepts_negated n))

theorem accepts_atom (ho : AcceptsParts operand bound) (f : FactorNode)
    (hf : f.tokens.length ≤ bound) (h : Begins (rank · < 6) after) :
    Accepts (atom operand) f.leaves f.arithmetic after := by
  cases f with
  | number n => exact accepts_number n
  | negative n => exact accepts_negative n
  | variableName name =>
    have notCall : Accepts (eat (.symbol .openParen)) [] false after :=
      accepts_eat_false (h.mono fun t ht => by rintro rfl; exact absurd ht (by decide))
    refine accepts_peek.look ?_
    exact (accepts_advance (by simp)).step (notCall.look .pure)
  | call name args =>
    simp only [FactorNode.tokens, List.cons_append, List.length_cons, List.length_append] at hf
    have inside : Accepts (inParens operand "')' to close call")
        (separate .comma PartNode.leaves args ++ [sym .closeParen])
        (args.map PartNode.operand) after := by
      refine accepts_inParens (F := (rank · < 4)) args ?_ ?_ (by decide) (by decide)
      · intro p hp more hm
        have := PartNode.length_le hp
        exact ho p (by omega) more hm
      · intro p _
        exact p.begins.mono fun _ ht => ht.2
    have leaves : (FactorNode.call name args).leaves
        = ident name :: sym .openParen
          :: (separate .comma PartNode.leaves args ++ [sym .closeParen]) := by
      rw [FactorNode.leaves, FactorNode.tokens, ← PartNode.plain_tokensOf]
      simp [ident, sym]
    rw [leaves, FactorNode.arithmetic, PartNode.operands_eq]
    refine accepts_peek.look ?_
    refine (accepts_advance (by simp)).step ?_
    exact (accepts_eat (by simp)).step inside.andReturn

/-- The token is one of the signs. -/
def IsSign (choices : List (Symbol × Operator)) (t : Token) : Prop :=
  ∃ s op, t = .symbol s ∧ choices.lookup s = some op

theorem accepts_operatorOf {choices : List (Symbol × Operator)} {s : Symbol} {op : Operator}
    (h : choices.lookup s = some op) :
    Accepts (operatorOf choices) [sym s] (some op) after := by
  refine accepts_peek.look ?_
  simp only [h]
  exact (accepts_advance (by simp)).step .pure

theorem accepts_operatorOf_none {choices : List (Symbol × Operator)}
    (h : Begins (fun t => ¬IsSign choices t) after) :
    Accepts (operatorOf choices) [] none after := by
  obtain ⟨t, rest, rfl, ht⟩ := h
  refine accepts_peek.look ?_
  cases t with
  | symbol s =>
    cases hs : choices.lookup s with
    | none =>
      simp only [hs]
      exact .pure
    | some op => exact absurd ⟨s, op, rfl, hs⟩ ht
  | _ => exact .pure

/-- A chain ends in front of a token that is none of its signs. -/
theorem accepts_chain {τ : Type} {choices : List (Symbol × Operator)} {item : Parser Arithmetic}
    {tokens : τ → List Token} {value : τ → Arithmetic} {F : Token → Prop} (first : τ)
    (rest : List ((Symbol × Operator) × τ))
    (signs : ∀ r ∈ rest, choices.lookup r.1.1 = some r.1.2 ∧ F (.symbol r.1.1))
    (hfirst : ∀ more, Begins F more → Accepts item (plain (tokens first)) (value first) more)
    (hrest : ∀ r ∈ rest, ∀ more, Begins F more →
      Accepts item (plain (tokens r.2)) (value r.2) more)
    (h : Begins (fun t => F t ∧ ¬IsSign choices t) after) :
    Accepts (chain choices item)
      (plain (tokens first ++ rest.flatMap fun r => .symbol r.1.1 :: tokens r.2))
      (joined (value first) (rest.map fun r => (r.1.2, value r.2))) after := by
  have goOn : ∀ r ∈ rest, ∀ more, Begins F more →
      Accepts (signed choices item) (plain (.symbol r.1.1 :: tokens r.2))
        (some (r.1.2, value r.2)) more :=
    fun r hr more hm => (accepts_operatorOf (signs r hr).1).step (hrest r hr more hm).andReturn
  have done : Accepts (signed choices item) [] none after :=
    (accepts_operatorOf_none (h.mono fun _ ht => ht.2)).look .pure
  have tail := accepts_repeat rest goOn
    (fun r hr => begins_token.2 (signs r hr).2) (h.mono fun _ ht => ht.1) done
  have next : Begins F ((rest.flatMap fun r => plain (.symbol r.1.1 :: tokens r.2)) ++ after) := by
    cases rest with
    | nil => exact h.mono fun _ ht => ht.1
    | cons r more => exact begins_token.2 (signs r (by simp)).2
  rw [plain_append, plain_flatMap]
  exact (hfirst _ next).bind tail.andReturn

theorem length_le_of_chain {τ : Type} (tokens : τ → List Token)
    {rest : List ((Symbol × Operator) × τ)} {r : (Symbol × Operator) × τ} (h : r ∈ rest) :
    (tokens r.2).length ≤ (rest.flatMap fun r => Token.symbol r.1.1 :: tokens r.2).length := by
  induction rest with
  | nil => cases h
  | cons s rest ih =>
    simp only [List.flatMap_cons, List.cons_append, List.length_cons, List.length_append]
    rcases List.mem_cons.1 h with rfl | h
    · omega
    · have := ih h
      omega

/-- The signs of a product have the rank five. -/
theorem rank_of_product {s : Symbol} {op : Operator}
    (h : [(Symbol.star, Operator.times), (.slash, .divide)].lookup s = some op) :
    rank (.symbol s) = 5 := by
  cases s <;> first | rfl | cases h

/-- The signs of a sum have the rank four. -/
theorem rank_of_sum {s : Symbol} {op : Operator}
    (h : [(Symbol.plus, Operator.plus), (.minus, .minus)].lookup s = some op) :
    rank (.symbol s) = 4 := by
  cases s <;> first | rfl | cases h

theorem accepts_product (ho : AcceptsParts operand bound) (p : ProductNode)
    (hp : p.tokens.length ≤ bound) (h : Begins (rank · < 5) after) :
    Accepts (product operand) p.leaves p.arithmetic after := by
  obtain ⟨first, rest, hrest, ht, hv⟩ := p.exists_chain
  rw [ht, List.length_append] at hp
  rw [ProductNode.leaves, ht, hv]
  refine accepts_chain (F := (rank · < 6)) first rest ?_ ?_ ?_ ?_
  · intro r hr
    have := rank_of_product (hrest r hr)
    exact ⟨hrest r hr, by omega⟩
  · intro more hm
    exact accepts_atom ho first (by omega) hm
  · intro r hr more hm
    have := length_le_of_chain FactorNode.tokens hr
    exact accepts_atom ho r.2 (by omega) hm
  · refine h.mono fun t ht => ⟨by omega, ?_⟩
    rintro ⟨s, op, rfl, hs⟩
    rw [rank_of_product hs] at ht
    omega

theorem accepts_sum (ho : AcceptsParts operand bound) (s : SumNode)
    (hs : s.tokens.length ≤ bound) (h : Begins (rank · < 4) after) :
    Accepts (sum operand) s.leaves s.arithmetic after := by
  obtain ⟨first, rest, hrest, ht, hv⟩ := s.exists_chain
  rw [ht, List.length_append] at hs
  rw [SumNode.leaves, ht, hv]
  refine accepts_chain (F := (rank · < 5)) first rest ?_ ?_ ?_ ?_
  · intro r hr
    have := rank_of_sum (hrest r hr)
    exact ⟨hrest r hr, by omega⟩
  · intro more hm
    exact accepts_product ho first (by omega) hm
  · intro r hr more hm
    have := length_le_of_chain ProductNode.tokens hr
    exact accepts_product ho r.2 (by omega) hm
  · refine h.mono fun t ht => ⟨by omega, ?_⟩
    rintro ⟨s, op, rfl, hs⟩
    rw [rank_of_sum hs] at ht
    omega

end Arithmetic

/-! ## Logic -/

theorem Operand.accepts_parserWith (hc : AcceptsContracts contract bound)
    (ho : AcceptsParts operand bound) (p : PartNode) (hp : p.tokens.length ≤ bound)
    (h : Begins (rank · < 4) after) :
    Accepts (Operand.parserWith contract operand) p.leaves p.operand after := by
  cases p with
  | string value =>
    refine accepts_peek.look ?_
    exact (accepts_advance (t := .literal value) nofun).step .pure
  | group inner =>
    have length : inner.tokens.length < bound := by
      simp only [PartNode.tokens, List.cons_append, List.length_cons, List.length_append] at hp
      omega
    have inside : Accepts contract inner.leaves inner.contract ([sym .closeParen] ++ after) :=
      hc inner length _ (begins_token.2 (by decide))
    have leaves : (PartNode.group inner).leaves
        = sym .openParen :: (inner.leaves ++ [sym .closeParen]) := by
      rw [PartNode.leaves, PartNode.tokens, plain_append]
      rfl
    rw [leaves]
    refine accepts_peek.look ?_
    refine (accepts_advance (by simp)).step ?_
    exact inside.bind ((accepts_expect (by simp)).step .pure)
  | sum s =>
    have value : Accepts (Arithmetic.sum operand) s.leaves s.arithmetic after :=
      Arithmetic.accepts_sum ho s hp h
    obtain ⟨t, ht, look⟩ := accepts_peek_of (s.begins.append after)
    refine Accepts.look look ?_
    split
    · exact absurd rfl (ht.2.2.2 _)
    · exact absurd rfl ht.1
    · exact value.andReturn

namespace Term

/-- Behind a left operand no comparison follows. -/
theorem accepts_continued_lone {left : Operand} {inverted : Bool}
    (h : Begins (rank · < 3) after) :
    Accepts (continued operand left inverted) [] (.lone left inverted) after := by
  obtain ⟨t, ht, look⟩ := accepts_peek_of h
  refine Accepts.look look ?_
  rw [ofToken?_of_rank ht]
  exact .pure

/-- Behind a left operand a comparison follows. -/
theorem accepts_continued_comparison (ho : AcceptsParts operand bound) {left : Operand}
    {inverted : Bool} (sign : Comparison) (right : PartNode) (hr : right.tokens.length < bound)
    (h : Begins (rank · < 3) after) :
    Accepts (continued operand left inverted) (sym (comparisonSymbol sign) :: right.leaves)
      (.comparison left sign right.operand inverted) after := by
  have found : Comparison.ofToken? (.symbol (comparisonSymbol sign)) = some sign := by
    cases sign <;> rfl
  have value : Accepts operand right.leaves right.operand after :=
    ho right hr after (h.mono fun _ ht => by omega)
  refine accepts_peek.look ?_
  simp only [found]
  exact (accepts_advance (by simp)).step value.andReturn

/-- The mark of an inverted term. -/
theorem accepts_mark (inverted : Bool) (h : Begins (· ≠ .symbol .bang) after) :
    Accepts (eat (.symbol .bang)) (plain (if inverted then [.symbol .bang] else [])) inverted
      after := by
  cases inverted with
  | true => exact accepts_eat (by simp)
  | false => exact accepts_eat_false h

theorem accepts_parserWith (ho : AcceptsParts operand bound) (n : TermNode)
    (hn : n.tokens.length < bound) (h : Begins (rank · < 3) after) :
    Accepts (parserWith operand) n.leaves n.term after := by
  cases n with
  | lone inverted part =>
    rw [TermNode.tokens, List.length_append] at hn
    have left : Accepts operand part.leaves part.operand ([] ++ after) :=
      ho part (by omega) _ (h.mono fun _ ht => by omega)
    have mark := accepts_mark inverted ((part.begins.append after).mono fun _ ht => ht.1)
    rw [TermNode.leaves, TermNode.tokens, plain_append]
    refine mark.bind ?_
    have whole : Accepts (operand >>= fun left => continued operand left inverted)
        (part.leaves ++ []) (.lone part.operand inverted) after :=
      left.bind (accepts_continued_lone h)
    rwa [List.append_nil] at whole
  | comparison inverted part sign right =>
    simp only [TermNode.tokens, List.length_append, List.length_cons] at hn
    have sides : Begins (rank · < 4)
        (sym (comparisonSymbol sign) :: right.leaves ++ after) := by
      refine begins_token.2 ?_
      rw [rank_comparison]
      omega
    have left : Accepts operand part.leaves part.operand
        (sym (comparisonSymbol sign) :: right.leaves ++ after) :=
      ho part (by omega) _ sides
    have begins : Begins (· ≠ .symbol .bang)
        ((part.leaves ++ sym (comparisonSymbol sign) :: right.leaves) ++ after) := by
      rw [List.append_assoc]
      exact (part.begins.append _).mono fun _ ht => ht.1
    rw [TermNode.leaves, TermNode.tokens, List.append_assoc, plain_append, plain_append]
    refine (accepts_mark inverted begins).bind ?_
    exact left.bind (accepts_continued_comparison ho sign right (by omega) h)

end Term

namespace Clause

/-- The terms behind the first. -/
theorem accepts_continued (ho : AcceptsParts operand bound) {first : Term} (rest : List TermNode)
    (hr : ∀ t ∈ rest, t.tokens.length < bound) (h : Begins (rank · < 2) after) :
    Accepts (continued operand first) (plain (TermNode.tokensAfter rest))
      (.any (first :: rest.map TermNode.term) false) after := by
  have tail : Accepts (afterEach (.symbol .bar) (Term.parserWith operand))
      (rest.flatMap fun t => sym .bar :: t.leaves) (rest.map TermNode.term) after := by
    refine accepts_afterEach (F := (rank · < 3)) (by simp) rest ?_ (by decide) ?_
    · intro t ht more hm
      exact Term.accepts_parserWith ho t (hr t ht) hm
    · exact h.mono fun t ht => ⟨by omega, ne_bar_of_rank ht⟩
  rw [TermNode.plain_tokensAfter]
  exact tail.andReturn

/-- In front of a token that makes a clause go on, and in front of one that does not. -/
theorem accepts_isExtended {t : Token} :
    Accepts isExtended [] (decide (t = .symbol .bar) || t.isComparison) (.token t :: after) :=
  accepts_peek.look .pure

theorem accepts_isExtended_false (h : Begins (rank · < 2) after) :
    Accepts isExtended [] false after := by
  obtain ⟨t, rest, rfl, ht⟩ := h
  have plain : (decide (t = .symbol .bar) || t.isComparison) = false := by
    rw [decide_eq_false (ne_bar_of_rank ht), ofToken?_eq_none (ofToken?_of_rank (by omega))]
    rfl
  rw [← plain]
  exact accepts_isExtended

/-- A clause that begins with `!(`, given what stands behind the parentheses. -/
theorem accepts_bracketed (hc : AcceptsContracts contract bound) (tree : Conjunction)
    (ht : tree.tokens.length < bound) {back : List Leaf} {extended : Bool} {clause : Clause}
    (look : Accepts isExtended [] extended (back ++ after))
    (rest : Accepts (behindGroup operand tree.contract extended) back clause after) :
    Accepts (bracketed contract operand)
      (sym .bang :: sym .openParen :: (tree.leaves ++ (sym .closeParen :: back))) clause
      after := by
  have inside : Accepts contract tree.leaves tree.contract ((sym .closeParen :: back) ++ after) :=
    hc tree ht _ (begins_token.2 (by decide))
  refine (accepts_advance (by simp)).step ?_
  refine (accepts_advance (by simp)).step ?_
  refine inside.bind ?_
  exact (accepts_expect (by simp)).step (look.look rest)

/-- Nothing stands behind an inverted group. -/
theorem accepts_behindGroup (ho : AcceptsParts operand bound) (inner : Contract)
    (h : Begins (rank · < 2) after) :
    Accepts (behindGroup operand inner false) [] (clauseOf [.lone (.group inner) true])
      after := by
  by_cases single : ∃ terms, inner = .all [.any terms false]
  · obtain ⟨terms, rfl⟩ := single
    exact .pure
  · have notSingle : ∀ terms, inner = .all [.any terms false] → false = true :=
      fun terms hi => absurd ⟨terms, hi⟩ single
    have any : clauseOf [.lone (.group inner) true]
        = .any [.lone (.group inner) true] false := by
      refine clauseOf_eq_any fun terms hi => single ⟨terms, ?_⟩
      simpa using hi
    rw [behindGroup_eq notSingle, any]
    have lone : Accepts (Term.continued operand (.group inner) true) []
        (.lone (.group inner) true) after :=
      Term.accepts_continued_lone (h.mono fun _ ht => by omega)
    exact lone.look (accepts_continued ho [] (by simp) h)

/-- Terms stand behind an inverted group. -/
theorem accepts_behindGroup_terms (ho : AcceptsParts operand bound) (inner : Contract)
    {back : List Leaf} {first : Term} {rest : List TermNode}
    (term : Accepts (Term.continued operand (.group inner) true) back first
      (plain (TermNode.tokensAfter rest) ++ after))
    (hr : ∀ t ∈ rest, t.tokens.length < bound) (h : Begins (rank · < 2) after) :
    Accepts (behindGroup operand inner true) (back ++ plain (TermNode.tokensAfter rest))
      (.any (first :: rest.map TermNode.term) false) after := by
  rw [behindGroup_eq fun _ _ => rfl]
  exact term.bind (accepts_continued ho rest hr h)

/-- The first two tokens settle how a clause is parsed. -/
theorem accepts_parserWith_bracketed {leaves : List Leaf} {clause : Clause}
    (h : Accepts (bracketed contract operand) (sym .bang :: sym .openParen :: leaves) clause after) :
    Accepts (parserWith contract operand) (sym .bang :: sym .openParen :: leaves) clause
      after := by
  intro c st hs
  obtain ⟨l, rest, hc, hl, hbang, hrest⟩ := current_of_spells hs
  obtain ⟨m, _, rfl, hparen, _⟩ := hrest.of_token
  have second : c.second = m := by
    rw [Cursor.second, hc]
    rfl
  rw [parserWith_apply, if_pos ⟨by rw [hl, hbang], by rw [second, hparen]⟩]
  exact h c st hs

theorem accepts_parserWith_plain {leaves : List Leaf} {clause : Clause}
    (hl : Begins (· ≠ .symbol .bang) leaves
      ∨ ∃ more, leaves = sym .bang :: more ∧ Begins (· ≠ .symbol .openParen) more)
    (h : Accepts (Term.parserWith operand >>= continued operand) leaves clause after) :
    Accepts (parserWith contract operand) leaves clause after := by
  intro c st hs
  have front : ¬(c.current.token = .symbol .bang ∧ c.second.token = .symbol .openParen) := by
    rintro ⟨hbang, hparen⟩
    rcases hl with hl | ⟨more, rfl, hl⟩
    · obtain ⟨l, rest, hc, hne⟩ := (hl.append after).spelled hs
      rw [current_eq hc] at hbang
      exact hne hbang
    · obtain ⟨l, rest, hc, _, _, hrest⟩ := current_of_spells hs
      obtain ⟨m, tail, rfl, hne⟩ := (hl.append after).spelled hrest
      rw [Cursor.second, hc] at hparen
      exact hne hparen
  rw [parserWith_apply, if_neg front]
  exact h c st hs

/-- Behind a term stands a bar, or what stands behind the clause. -/
theorem begins_tokensAfter (rest : List TermNode) (h : Begins (rank · < 2) after) :
    Begins (rank · < 3) (plain (TermNode.tokensAfter rest) ++ after) := by
  cases rest with
  | nil => exact h.mono fun _ ht => by omega
  | cons t rest => exact begins_token.2 (by decide)

theorem accepts_terms (ho : AcceptsParts operand bound) (n : TermNode) (rest : List TermNode)
    (hn : n.tokens.length < bound) (hr : ∀ t ∈ rest, t.tokens.length < bound)
    (h : Begins (rank · < 2) after) :
    Accepts (Term.parserWith operand >>= continued operand) (Disjunction.terms n rest).leaves
      (.any (n.term :: rest.map TermNode.term) false) after := by
  rw [Disjunction.leaves, Disjunction.tokens, plain_append]
  exact (Term.accepts_parserWith ho n hn (begins_tokensAfter rest h)).bind
    (accepts_continued ho rest hr h)

/-- A term whose left part is no group begins otherwise than `!(`. -/
theorem plain_of_ne_group {inverted : Bool} {part : PartNode} {more : List Leaf}
    (h : inverted = true → ∀ tree, part ≠ .group tree) :
    Begins (· ≠ .symbol .bang)
        (plain (if inverted then [.symbol .bang] else []) ++ (part.leaves ++ more))
      ∨ ∃ rest, plain (if inverted then [.symbol .bang] else []) ++ (part.leaves ++ more)
          = sym .bang :: rest ∧ Begins (· ≠ .symbol .openParen) rest := by
  cases inverted with
  | false => exact .inl ((part.begins.append more).mono fun _ ht => ht.1)
  | true =>
    refine .inr ⟨part.leaves ++ more, rfl, Begins.append ?_ more⟩
    cases part with
    | string value => exact begins_token.2 (by simp)
    | group tree => exact absurd rfl (h rfl tree)
    | sum s => exact s.begins.mono fun _ ht => ht.1

/-- An inverted group and terms joined to it by bars. -/
theorem accepts_group_lone (hc : AcceptsContracts contract bound)
    (ho : AcceptsParts operand (bound + 1)) (tree : Conjunction) (rest : List TermNode)
    (ht : tree.tokens.length < bound) (hr : ∀ t ∈ rest, t.tokens.length < bound + 1)
    (h : Begins (rank · < 2) after) :
    Accepts (parserWith contract operand) (Disjunction.terms (.lone true (.group tree)) rest).leaves
      (clauseOf (.lone (.group tree.contract) true :: rest.map TermNode.term)) after := by
  have leaves : (Disjunction.terms (.lone true (.group tree)) rest).leaves
      = sym .bang :: sym .openParen :: (tree.leaves
        ++ (sym .closeParen :: plain (TermNode.tokensAfter rest))) := by
    simp [Disjunction.leaves, Disjunction.tokens, TermNode.tokens, PartNode.tokens, sym,
      Conjunction.leaves]
  rw [leaves]
  cases rest with
  | nil =>
    exact accepts_parserWith_bracketed
      (accepts_bracketed hc _ ht (accepts_isExtended_false h) (accepts_behindGroup ho _ h))
  | cons t rest =>
    have any : clauseOf (.lone (.group tree.contract) true :: (t :: rest).map TermNode.term)
        = .any (.lone (.group tree.contract) true :: (t :: rest).map TermNode.term) false := by
      refine clauseOf_eq_any fun inner hi => ?_
      simp at hi
    have lone : Accepts (Term.continued operand (.group tree.contract) true) []
        (.lone (.group tree.contract) true)
        (plain (TermNode.tokensAfter (t :: rest)) ++ after) :=
      Term.accepts_continued_lone (begins_token.2 (by decide))
    rw [any]
    exact accepts_parserWith_bracketed
      (accepts_bracketed hc _ ht accepts_isExtended (accepts_behindGroup_terms ho _ lone hr h))

/-- A comparison with an inverted group and terms joined to it by bars. -/
theorem accepts_group_comparison (hc : AcceptsContracts contract bound)
    (ho : AcceptsParts operand (bound + 1)) (tree : Conjunction) (sign : Comparison) (right : PartNode)
    (rest : List TermNode) (ht : tree.tokens.length < bound) (hright : right.tokens.length < bound + 1)
    (hr : ∀ t ∈ rest, t.tokens.length < bound + 1) (h : Begins (rank · < 2) after) :
    Accepts (parserWith contract operand)
      (Disjunction.terms (.comparison true (.group tree) sign right) rest).leaves
      (.any (.comparison (.group tree.contract) sign right.operand true
        :: rest.map TermNode.term) false) after := by
  have leaves : (Disjunction.terms (.comparison true (.group tree) sign right) rest).leaves
      = sym .bang :: sym .openParen :: (tree.leaves ++ (sym .closeParen
        :: (sym (comparisonSymbol sign) :: right.leaves
          ++ plain (TermNode.tokensAfter rest)))) := by
    simp [Disjunction.leaves, Disjunction.tokens, TermNode.tokens, PartNode.tokens, sym,
      Conjunction.leaves, PartNode.leaves]
  have extended : (decide (Token.symbol (comparisonSymbol sign) = .symbol .bar)
      || (Token.symbol (comparisonSymbol sign)).isComparison) = true := by
    cases sign <;> rfl
  have look : Accepts isExtended [] true
      ((sym (comparisonSymbol sign) :: right.leaves ++ plain (TermNode.tokensAfter rest))
        ++ after) := by
    rw [← extended]
    exact accepts_isExtended
  have comparison : Accepts (Term.continued operand (.group tree.contract) true)
      (sym (comparisonSymbol sign) :: right.leaves)
      (.comparison (.group tree.contract) sign right.operand true)
      (plain (TermNode.tokensAfter rest) ++ after) :=
    Term.accepts_continued_comparison ho sign right hright (begins_tokensAfter rest h)
  rw [leaves]
  exact accepts_parserWith_bracketed
    (accepts_bracketed hc _ ht look (accepts_behindGroup_terms ho _ comparison hr h))

/-- A clause inverted as a whole: a single plain clause in parentheses, with nothing behind it. -/
theorem accepts_inverted (hc : AcceptsContracts contract bound)
    (ho : AcceptsParts operand (bound + 1)) (body : Disjunction)
    (hd : (Disjunction.inverted body).tokens.length ≤ bound) (h : Begins (rank · < 2) after) :
    Accepts (parserWith contract operand) (Disjunction.inverted body).leaves
      (Disjunction.inverted body).clause after := by
  simp only [Disjunction.tokens, List.length_cons, List.length_append, List.cons_append] at hd
  have length : (Conjunction.mk body []).tokens.length < bound := by
    simp only [Conjunction.tokens, Disjunction.tokensAfter, List.append_nil]
    omega
  have leaves : (Disjunction.inverted body).leaves
      = sym .bang :: sym .openParen
        :: ((Conjunction.mk body []).leaves ++ [sym .closeParen]) := by
    rw [Disjunction.leaves, Disjunction.tokens, plain_append, Conjunction.leaves,
      Conjunction.tokens, Disjunction.tokensAfter, List.append_nil]
    rfl
  rw [leaves]
  exact accepts_parserWith_bracketed
    (accepts_bracketed hc _ length (accepts_isExtended_false h) (accepts_behindGroup ho _ h))

theorem accepts_parserWith (hc : AcceptsContracts contract bound)
    (ho : AcceptsParts operand (bound + 1)) (d : Disjunction) (hd : d.tokens.length ≤ bound)
    (h : Begins (rank · < 2) after) :
    Accepts (parserWith contract operand) d.leaves d.clause after := by
  cases d with
  | inverted body => exact accepts_inverted hc ho body hd h
  | terms n rest =>
    rw [Disjunction.tokens, List.length_append] at hd
    have hr : ∀ t ∈ rest, t.tokens.length < bound + 1 := by
      intro t ht
      have := TermNode.length_lt ht
      omega
    rw [Disjunction.clause, TermNode.terms_eq]
    cases n with
    | lone inverted part =>
      by_cases group : inverted = true ∧ ∃ tree, part = .group tree
      · obtain ⟨rfl, tree, rfl⟩ := group
        simp only [TermNode.tokens, PartNode.tokens, if_true, List.length_append, List.length_cons,
          List.length_nil] at hd
        exact accepts_group_lone hc ho tree rest (by omega) hr h
      · rw [clauseOf_eq_any]
        · refine accepts_parserWith_plain ?_ (accepts_terms ho _ rest (by omega) hr h)
          rw [Disjunction.leaves, Disjunction.tokens, TermNode.tokens, List.append_assoc,
            plain_append, plain_append]
          exact plain_of_ne_group fun hi tree hp => group ⟨hi, tree, hp⟩
        · intro inner hi
          rw [List.cons.injEq, TermNode.term, Term.lone.injEq] at hi
          cases part with
          | group tree => exact group ⟨hi.1.2, tree, rfl⟩
          | _ => cases hi.1.1
    | comparison inverted part sign right =>
      rw [clauseOf_eq_any fun inner hi => by cases hi]
      by_cases group : inverted = true ∧ ∃ tree, part = .group tree
      · obtain ⟨rfl, tree, rfl⟩ := group
        simp only [TermNode.tokens, PartNode.tokens, if_true, List.length_append, List.length_cons,
          List.length_nil] at hd
        exact accepts_group_comparison hc ho tree sign right rest (by omega) (by omega) hr h
      · refine accepts_parserWith_plain ?_ (accepts_terms ho _ rest (by omega) hr h)
        rw [Disjunction.leaves, Disjunction.tokens, TermNode.tokens, List.append_assoc,
          List.append_assoc, plain_append, plain_append]
        exact plain_of_ne_group fun hi tree hp => group ⟨hi, tree, hp⟩

end Clause

namespace Contract

theorem accepts_parserWith (hc : AcceptsContracts contract bound)
    (ho : AcceptsParts operand (bound + 1)) (k : Conjunction) (hk : k.tokens.length ≤ bound)
    (h : Begins (rank · < 1) after) :
    Accepts (parserWith contract operand) k.leaves k.contract after := by
  obtain ⟨first, rest⟩ := k
  rw [Conjunction.tokens, List.length_append] at hk
  have clauses : Accepts (separated (.symbol .ampersand) (Clause.parserWith contract operand))
      (separate .ampersand Disjunction.leaves (first :: rest))
      ((first :: rest).map Disjunction.clause) after := by
    refine accepts_separated (F := (rank · < 2)) ⟨first, rest⟩ ?_ (by decide) ?_
    · intro d hd more hm
      refine Clause.accepts_parserWith hc ho d ?_ hm
      rcases List.mem_cons.1 hd with rfl | hd
      · omega
      · have smaller : d.tokens.length < (Disjunction.tokensAfter rest).length :=
          Disjunction.length_lt hd
        omega
    · exact h.mono fun t ht => ⟨by omega, ne_ampersand_of_rank ht⟩
  rw [Conjunction.leaves, Conjunction.tokens, plain_append, Disjunction.plain_tokensAfter,
    Conjunction.contract, Disjunction.clauses_eq]
  exact clauses.andReturn

/-- The parsers of a depth accept what is small enough for it.  Between two levels that share a
    token, the contract comes first. -/
theorem accepts_contractAt (depth : Nat) :
    (∀ k : Conjunction, 2 * k.tokens.length + 2 ≤ depth →
        ∀ after, Begins (rank · < 1) after → Accepts (contractAt depth) k.leaves k.contract after)
      ∧ ∀ p : PartNode, 2 * p.tokens.length + 1 ≤ depth →
        ∀ after, Begins (rank · < 4) after → Accepts (operandAt depth) p.leaves p.operand after := by
  induction depth with
  | zero =>
    constructor
    · intro k hk
      omega
    · intro p hp
      omega
  | succ depth ih =>
    obtain ⟨contracts, parts⟩ := ih
    constructor
    · intro k hk after h
      have hc : AcceptsContracts (contractAt depth) k.tokens.length := by
        intro tree ht
        exact contracts tree (by omega)
      have ho : AcceptsParts (operandAt depth) (k.tokens.length + 1) := by
        intro part hp
        exact parts part (by omega)
      intro c st hs
      exact accepts_parserWith hc ho k (Nat.le_refl _) h c st hs
    · intro p hp after h
      have hc : AcceptsContracts (contractAt depth) p.tokens.length := by
        intro tree ht
        exact contracts tree (by omega)
      have ho : AcceptsParts (operandAt depth) p.tokens.length := by
        intro part hp
        exact parts part (by omega)
      intro c st hs
      exact Operand.accepts_parserWith hc ho p (Nat.le_refl _) h c st hs

theorem accepts_contract (k : Conjunction) (h : Begins (rank · < 1) after) :
    Accepts parser k.leaves k.contract after := by
  intro c st hs
  have length := hs.length_eq
  rw [size_append, Conjunction.leaves, size_plain] at length
  exact (accepts_contractAt _).1 k (by omega) after h c st hs

end Contract
end LibrarySpec
