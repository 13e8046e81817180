/-
  Printed contracts, scanned again.

  A contract that was parsed prints as a text whose tokens are derived by a tree with the same
  meaning (`Conjunction.printed`).  It need not be the tree that was parsed:

    1. the opposite of the integer zero prints as zero;
    2. blanks and comments between the tokens are gone, which trees do not see.

  The induction is on the tree, one case for each production.  Beside the text of a node goes the fact
  that it does not begin with an equals sign, so that a `!` in front of it stays a token of its own.
-/
import LibrarySpec.Contract.Printer
import LibrarySpec.Proofs.Printing.Numbers

namespace LibrarySpec

/-! ## Numbers of a contract -/

mutual

/-- The numbers of a contract. -/
def Contract.numbers : Contract → List Number
  | .all clauses => Clause.numbersList clauses

/-- The numbers of a list of clauses. -/
def Clause.numbersList : List Clause → List Number
  | [] => []
  | c :: rest => Clause.numbers c ++ Clause.numbersList rest

/-- The numbers of a clause. -/
def Clause.numbers : Clause → List Number
  | .any terms _ => Term.numbersList terms

/-- The numbers of a list of terms. -/
def Term.numbersList : List Term → List Number
  | [] => []
  | t :: rest => Term.numbers t ++ Term.numbersList rest

/-- The numbers of a term. -/
def Term.numbers : Term → List Number
  | .comparison left _ right _ => Operand.numbers left ++ Operand.numbers right
  | .lone operand _ => Operand.numbers operand

/-- The numbers of an operand. -/
def Operand.numbers : Operand → List Number
  | .arithmetic value => Arithmetic.numbers value
  | .text _ => []
  | .group contract => Contract.numbers contract

/-- The numbers of a list of operands. -/
def Operand.numbersList : List Operand → List Number
  | [] => []
  | o :: rest => Operand.numbers o ++ Operand.numbersList rest

/-- The numbers of an arithmetic expression. -/
def Arithmetic.numbers : Arithmetic → List Number
  | .variableName _ => []
  | .call _ arguments => Operand.numbersList arguments
  | .number value => [value]
  | .binary _ left right => Arithmetic.numbers left ++ Arithmetic.numbers right

end

/-- No number of the contract is an infinity. -/
def Contract.Finite (c : Contract) : Prop := ∀ n ∈ c.numbers, n.Finite

instance (c : Contract) : Decidable c.Finite :=
  inferInstanceAs (Decidable (∀ n ∈ c.numbers, n.Finite))

namespace Grammar

open Token (Spelling)

/-! ## Clauses -/

/-- Both forms of an inverted clause print alike. -/
theorem print_clauseOf (terms : List Term) :
    (clauseOf terms).print = " | ".intercalate (Term.printList terms) := by
  unfold clauseOf
  split
  · rename_i inner
    rw [← String.toList_inj]
    simp [Clause.print, Term.printList, Term.print, Operand.print, Contract.print,
      Clause.printList]
  · rfl

theorem numbers_clauseOf (terms : List Term) :
    (clauseOf terms).numbers = Term.numbersList terms := by
  unfold clauseOf
  split
  · simp [Clause.numbers, Term.numbersList, Term.numbers, Operand.numbers, Contract.numbers,
      Clause.numbersList]
  · rfl

/-! ## Marks -/

/-- The text does not begin with an equals sign. -/
def Unequal (text : String) : Prop := ∀ c ∈ text.toList.head?, c ≠ '='

theorem unequal_of_neutral {text : String} (h : Neutral text.toList) : Unequal text := by
  rintro c hc rfl
  exact (h '=' hc).2 (by decide)

theorem unequal_append {a b : String} (ha : Unequal a) (hb : Unequal b) : Unequal (a ++ b) := by
  unfold Unequal at *
  rw [String.toList_append]
  cases h : a.toList with
  | nil => exact hb
  | cons c text =>
    rw [h] at ha
    exact ha

theorem ofChar?_of_isWordPart {c : Char} (h : Token.isWordPart c = true) :
    Symbol.ofChar? c = none := by
  unfold Symbol.ofChar?
  split <;> first | rfl | exact absurd h (by decide)

/-- No token but a symbol begins like one. -/
theorem ofChar?_of_spelling {t : Token} {text : List Char} (h : Spelling t text)
    (ht : ∀ s, t ≠ .symbol s) : ∀ c ∈ text.head?, Symbol.ofChar? c = none := by
  intro c hc
  cases h with
  | literal =>
    cases hc
    rfl
  | quoted =>
    cases hc
    rfl
  | integer _ all =>
    exact ofChar?_of_isWordPart (Token.isWordPart_of_isDigit (all c (List.mem_of_mem_head? hc)))
  | @float whole fraction nonempty _ all _ =>
    rw [List.head?_append, List.head?_eq_some_head nonempty] at hc
    cases hc
    exact ofChar?_of_isWordPart (Token.isWordPart_of_isDigit (all _ (List.head_mem nonempty)))
  | word start =>
    cases hc
    exact ofChar?_of_isWordPart (Token.isWordPart_of_isWordStart start)
  | symbol s => exact absurd rfl (ht s)
  | foreign _ _ _ sign =>
    cases hc
    exact sign

theorem unequal_of_spelling {t : Token} {text : String} (h : Spelling t text.toList)
    (ht : ∀ s, t ≠ .symbol s) : Unequal text := by
  rintro c hc rfl
  cases ofChar?_of_spelling h ht '=' hc

theorem spelling_literal (value : String) :
    Spelling (.literal value) (Text.Quoted.write value).toList := by
  have spelled := Spelling.literal (Text.Quoted.read_encode value.toList [])
  rw [String.ofList_toList] at spelled
  rw [Text.Quoted.write, String.toList_ofList]
  exact spelled

/-- A number behind a minus sign. -/
theorem prints_negative {n : Numeral} {text : String} {digits : List Char}
    (h : text.toList = '-' :: digits) (spelling : Spelling n.token digits) :
    Prints text [sym .minus, .token n.token] := by
  intro after rest hn hs
  rw [h]
  refine (hs.token spelling (Token.ends_of_neutral _ hn)).symbol .minus ?_
  have notSymbol : ∀ s, n.token ≠ .symbol s := by
    intro s
    cases n <;> simp [Numeral.token]
  intro c hc
  rw [List.head?_append, List.head?_eq_some_head spelling.ne_nil] at hc
  have first := ofChar?_of_spelling spelling notSymbol c
    (by rw [List.head?_eq_some_head spelling.ne_nil]; exact hc)
  refine beq_eq_false_iff_ne.2 ?_
  rintro rfl
  cases first

/-- A mark of inversion in front of a piece, or none. -/
theorem Prints.marked {b : String} {more : List Leaf} (inverted : Bool) (h : Prints b more)
    (unequal : Unequal b) :
    Prints ((if inverted then "!" else "") ++ b)
      (plain (if inverted then [.symbol .bang] else []) ++ more) := by
  cases inverted with
  | false =>
    rw [if_neg Bool.false_ne_true, if_neg Bool.false_ne_true, String.empty_append]
    exact h
  | true =>
    rw [if_pos rfl, if_pos rfl]
    intro after rest hn hs
    rw [String.toList_append, List.append_assoc]
    refine (h after rest hn hs).symbol .bang ?_
    have unequal' : ∀ c ∈ (b.toList ++ after).head?, c ≠ '=' := by
      cases hb : b.toList with
      | nil => exact fun c hc heq => (hn c hc).2 (by simp [heq])
      | cons c text =>
        unfold Unequal at unequal
        rw [hb] at unequal
        exact unequal
    intro c hc
    exact beq_eq_false_iff_ne.2 (unequal' c hc)

/-! ## Trees -/

/-- What a tree means prints as a text whose tokens a tree with the same meaning derives. -/
def Printed {τ α : Type} (tokens : τ → List Token) (value : τ → α) (print : α → String) (t : τ) :
    Prop :=
  ∃ t', value t' = value t ∧ Prints (print (value t)) (plain (tokens t'))
    ∧ Unequal (print (value t))

/-- The tokens stand in some text. -/
def AllLegible (tokens : List Token) : Prop := ∀ t ∈ tokens, (Leaf.token t).Legible

/-- None of the numbers is an infinity. -/
def AllFinite (numbers : List Number) : Prop := ∀ n ∈ numbers, n.Finite

@[simp] theorem allLegible_cons (t : Token) (ts : List Token) :
    AllLegible (t :: ts) ↔ (Leaf.token t).Legible ∧ AllLegible ts := List.forall_mem_cons

@[simp] theorem allLegible_append (ts us : List Token) :
    AllLegible (ts ++ us) ↔ AllLegible ts ∧ AllLegible us := List.forall_mem_append

@[simp] theorem allFinite_append (ns ms : List Number) :
    AllFinite (ns ++ ms) ↔ AllFinite ns ∧ AllFinite ms := List.forall_mem_append

@[simp] theorem allLegible_nil : AllLegible [] := by simp [AllLegible]

/-- Pieces with separators between them. -/
theorem prints_intercalate {separator a : String} {texts : List String} {leaves more : List Leaf}
    (h : separator.toList ≠ [] ∧ Neutral separator.toList) (ha : Prints a leaves)
    (rest : Prints (following separator texts) more) :
    Prints (separator.intercalate (a :: texts)) (leaves ++ more) := by
  rw [intercalate_cons]
  exact ha.append (neutral_following texts h) rest

theorem unequal_intercalate {separator a : String} {texts : List String}
    (h : separator.toList ≠ [] ∧ Neutral separator.toList) (ha : Unequal a) :
    Unequal (separator.intercalate (a :: texts)) := by
  rw [intercalate_cons]
  exact unequal_append ha (unequal_of_neutral (neutral_following texts h))

theorem neutral_group (text : String) : Neutral ("(" ++ text ++ ")").toList := by
  rw [String.append_assoc]
  exact neutral_text _

theorem unequal_marked {text : String} (inverted : Bool) (h : Unequal text) :
    Unequal ((if inverted then "!" else "") ++ text) := by
  refine unequal_append ?_ h
  cases inverted <;> exact unequal_of_neutral (by decide)

theorem text_comparison (sign : Comparison) : sign.text = (comparisonSymbol sign).text := by
  cases sign <;> rfl

theorem joint_ampersand : Joint " & " .ampersand := fun h => h.operator .ampersand

theorem joint_bar : Joint " | " .bar := fun h => h.operator .bar

/-! ## The productions

  The lists of a tree are printed by functions of their own, and so are the two levels of arithmetic.
  What their cases have in common is said first. -/

/-- What trees with separators before them mean, printed. -/
def PrintedAfter {τ α : Type} (separator : String) (tokens : List τ → List Token)
    (values : List τ → List α) (print : List α → List String) (ts : List τ) : Prop :=
  ∃ ts', values ts' = values ts
    ∧ Prints (following separator (print (values ts))) (plain (tokens ts'))

theorem printedAfter_cons {τ α : Type} {separator : String} {s : Symbol}
    {tokens : τ → List Token} {value : τ → α} {print : α → String} {tokensAfter : List τ → List Token}
    {values : List τ → List α} {printList : List α → List String} (joint : Joint separator s)
    (h : separator.toList ≠ [] ∧ Neutral separator.toList)
    (tokens_cons : ∀ t ts, tokensAfter (t :: ts) = .symbol s :: tokens t ++ tokensAfter ts)
    (values_cons : ∀ t ts, values (t :: ts) = value t :: values ts)
    (print_cons : ∀ a as, printList (a :: as) = print a :: printList as) {t : τ} {ts : List τ}
    (first : Printed tokens value print t)
    (rest : PrintedAfter separator tokensAfter values printList ts) :
    PrintedAfter separator tokensAfter values printList (t :: ts) := by
  obtain ⟨t', same, prints, _⟩ := first
  obtain ⟨ts', sameRest, printsRest⟩ := rest
  refine ⟨t' :: ts', ?_, ?_⟩
  · rw [values_cons, values_cons, same, sameRest]
  · rw [values_cons, print_cons, tokens_cons, List.cons_append, plain_cons, plain_append]
    exact joint.following_cons h prints printsRest

theorem printed_binary {τ σ : Type} {tokens : τ → List Token} {value : τ → Arithmetic}
    {tokens' : σ → List Token} {value' : σ → Arithmetic} {node : τ → σ → τ} (operator : Operator)
    (s : Symbol) (text : operator.text = s.text)
    (tokens_node : ∀ l r, tokens (node l r) = tokens l ++ .symbol s :: tokens' r)
    (value_node : ∀ l r, value (node l r) = .binary operator (value l) (value' r)) {l : τ} {r : σ}
    (left : Printed tokens value Arithmetic.print l)
    (right : Printed tokens' value' Arithmetic.print r) :
    Printed tokens value Arithmetic.print (node l r) := by
  obtain ⟨l', sameLeft, printsLeft, unequal⟩ := left
  obtain ⟨r', sameRight, printsRight, _⟩ := right
  refine ⟨node l' r', ?_, ?_, ?_⟩
  · rw [value_node, value_node, sameLeft, sameRight]
  · rw [value_node, tokens_node, plain_append, plain_cons, Arithmetic.print, text]
    exact printsLeft.joined s printsRight
  · rw [value_node, Arithmetic.print]
    simp only [String.append_assoc]
    exact unequal_append unequal (unequal_of_neutral (neutral_text _))

theorem printed_number {n : Numeral} (legible : (Leaf.token n.token).Legible)
    (finite : n.number.Finite) :
    Printed FactorNode.tokens FactorNode.arithmetic Arithmetic.print (.number n) := by
  have spelled := spelling_number legible finite
  refine ⟨.number n, rfl, .token spelled, unequal_of_spelling spelled ?_⟩
  intro s
  cases n <;> simp [Numeral.token]

theorem printed_call {name : String} {arguments : List PartNode} (arguments' : List PartNode)
    (legible : (ident name).Legible)
    (same : PartNode.operands arguments' = PartNode.operands arguments)
    (prints : Prints (", ".intercalate (Operand.printList (PartNode.operands arguments)))
      (plain (PartNode.tokensOf arguments'))) :
    Printed FactorNode.tokens FactorNode.arithmetic Arithmetic.print (.call name arguments) := by
  have spelled := isName_of_legible legible
  have text : (FactorNode.call name arguments).arithmetic.print = name
      ++ ("(" ++ ", ".intercalate (Operand.printList (PartNode.operands arguments)) ++ ")") := by
    rw [FactorNode.arithmetic, Arithmetic.print]
    simp only [String.append_assoc]
  refine ⟨.call name arguments', ?_, ?_, ?_⟩
  · rw [FactorNode.arithmetic, FactorNode.arithmetic, same]
  · rw [text, FactorNode.tokens, List.cons_append, List.cons_append, plain_cons, plain_cons,
      plain_append]
    exact (Prints.token spelled).append (neutral_group _) prints.inParens
  · rw [text]
    exact unequal_append (unequal_of_spelling spelled (by simp))
      (unequal_of_neutral (neutral_group _))

mutual

theorem Conjunction.printed (k : Conjunction) (legible : AllLegible k.tokens)
    (finite : AllFinite k.contract.numbers) :
    Printed Conjunction.tokens Conjunction.contract Contract.print k := by
  match k with
  | .mk first rest =>
    rw [Conjunction.tokens, allLegible_append] at legible
    rw [Conjunction.contract, Contract.numbers, Clause.numbersList, allFinite_append] at finite
    obtain ⟨first', sameFirst, printsFirst, unequal⟩ := first.printed legible.1 finite.1
    obtain ⟨rest', sameRest, printsRest⟩ := Disjunction.printedAfter rest legible.2 finite.2
    refine ⟨.mk first' rest', ?_, ?_, ?_⟩
    · rw [Conjunction.contract, Conjunction.contract, sameFirst, sameRest]
    · rw [Conjunction.tokens, plain_append]
      exact prints_intercalate (by decide) printsFirst printsRest
    · exact unequal_intercalate (by decide) unequal

theorem Disjunction.printedAfter (ds : List Disjunction)
    (legible : AllLegible (Disjunction.tokensAfter ds))
    (finite : AllFinite (Clause.numbersList (Disjunction.clauses ds))) :
    PrintedAfter " & " Disjunction.tokensAfter Disjunction.clauses Clause.printList ds := by
  match ds with
  | [] => exact ⟨[], rfl, .empty⟩
  | d :: ds =>
    rw [Disjunction.tokensAfter, List.cons_append, allLegible_cons, allLegible_append] at legible
    rw [Disjunction.clauses, Clause.numbersList, allFinite_append] at finite
    exact printedAfter_cons joint_ampersand (by decide) (fun _ _ => rfl) (fun _ _ => rfl)
      (fun _ _ => rfl) (d.printed legible.2.1 finite.1)
      (Disjunction.printedAfter ds legible.2.2 finite.2)

theorem Disjunction.printed (d : Disjunction) (legible : AllLegible d.tokens)
    (finite : AllFinite d.clause.numbers) :
    Printed Disjunction.tokens Disjunction.clause Clause.print d := by
  match d with
  | .inverted body =>
    rw [Disjunction.tokens, List.cons_append, List.cons_append, allLegible_cons, allLegible_cons,
      allLegible_append] at legible
    have numbers : (Disjunction.inverted body).clause.numbers = body.clause.numbers := by
      rw [Disjunction.clause, numbers_clauseOf]
      simp only [Term.numbersList, Term.numbers, Operand.numbers, Contract.numbers,
        Clause.numbersList, List.append_nil]
    rw [numbers] at finite
    obtain ⟨body', same, prints, _⟩ := body.printed legible.2.2.1 finite
    have text : (Disjunction.inverted body).clause.print
        = "!" ++ ("(" ++ body.clause.print ++ ")") := by
      rw [Disjunction.clause, print_clauseOf]
      rfl
    refine ⟨.inverted body', ?_, ?_, ?_⟩
    · rw [Disjunction.clause, Disjunction.clause, same]
    · rw [text, Disjunction.tokens, List.cons_append, List.cons_append, plain_cons, plain_cons,
        plain_append]
      exact prints.inParens.marked true (unequal_of_neutral (neutral_group _))
    · rw [text]
      exact unequal_of_neutral (neutral_text _)
  | .terms first rest =>
    rw [Disjunction.tokens, allLegible_append] at legible
    rw [Disjunction.clause, numbers_clauseOf, Term.numbersList, allFinite_append] at finite
    obtain ⟨first', sameFirst, printsFirst, unequal⟩ := first.printed legible.1 finite.1
    obtain ⟨rest', sameRest, printsRest⟩ := TermNode.printedAfter rest legible.2 finite.2
    refine ⟨.terms first' rest', ?_, ?_, ?_⟩
    · rw [Disjunction.clause, Disjunction.clause, sameFirst, sameRest]
    · rw [Disjunction.clause, print_clauseOf, Disjunction.tokens, plain_append]
      exact prints_intercalate (by decide) printsFirst printsRest
    · rw [Disjunction.clause, print_clauseOf]
      exact unequal_intercalate (by decide) unequal

theorem TermNode.printedAfter (ts : List TermNode)
    (legible : AllLegible (TermNode.tokensAfter ts))
    (finite : AllFinite (Term.numbersList (TermNode.terms ts))) :
    PrintedAfter " | " TermNode.tokensAfter TermNode.terms Term.printList ts := by
  match ts with
  | [] => exact ⟨[], rfl, .empty⟩
  | t :: ts =>
    rw [TermNode.tokensAfter, List.cons_append, allLegible_cons, allLegible_append] at legible
    rw [TermNode.terms, Term.numbersList, allFinite_append] at finite
    exact printedAfter_cons joint_bar (by decide) (fun _ _ => rfl) (fun _ _ => rfl)
      (fun _ _ => rfl) (t.printed legible.2.1 finite.1)
      (TermNode.printedAfter ts legible.2.2 finite.2)

theorem TermNode.printed (t : TermNode) (legible : AllLegible t.tokens)
    (finite : AllFinite t.term.numbers) :
    Printed TermNode.tokens TermNode.term Term.print t := by
  match t with
  | .lone inverted part =>
    rw [TermNode.tokens, allLegible_append] at legible
    rw [TermNode.term, Term.numbers] at finite
    obtain ⟨part', same, prints, unequal⟩ := part.printed legible.2 finite
    refine ⟨.lone inverted part', ?_, ?_, ?_⟩
    · rw [TermNode.term, TermNode.term, same]
    · rw [TermNode.tokens, plain_append]
      exact prints.marked inverted unequal
    · exact unequal_marked inverted unequal
  | .comparison inverted left sign right =>
    rw [TermNode.tokens, allLegible_append, allLegible_append, allLegible_cons] at legible
    rw [TermNode.term, Term.numbers, allFinite_append] at finite
    obtain ⟨left', sameLeft, printsLeft, unequal⟩ := left.printed legible.1.2 finite.1
    obtain ⟨right', sameRight, printsRight, _⟩ := right.printed legible.2.2 finite.2
    have body : Unequal (left.operand.print ++ " " ++ sign.text ++ " " ++ right.operand.print) := by
      simp only [String.append_assoc]
      exact unequal_append unequal (unequal_of_neutral (neutral_text _))
    refine ⟨.comparison inverted left' sign right', ?_, ?_, ?_⟩
    · rw [TermNode.term, TermNode.term, sameLeft, sameRight]
    · rw [TermNode.tokens, List.append_assoc, plain_append, plain_append, plain_cons]
      refine Prints.marked inverted ?_ body
      rw [text_comparison]
      exact printsLeft.joined (comparisonSymbol sign) printsRight
    · exact unequal_marked inverted body

theorem PartNode.printed (p : PartNode) (legible : AllLegible p.tokens)
    (finite : AllFinite p.operand.numbers) :
    Printed PartNode.tokens PartNode.operand Operand.print p := by
  match p with
  | .string value =>
    have spelled := spelling_literal value
    exact ⟨.string value, rfl, .token spelled, unequal_of_spelling spelled (by simp)⟩
  | .group inner =>
    rw [PartNode.tokens, List.cons_append, allLegible_cons, allLegible_append] at legible
    obtain ⟨inner', same, prints, _⟩ := inner.printed legible.2.1 finite
    refine ⟨.group inner', ?_, ?_, ?_⟩
    · rw [PartNode.operand, PartNode.operand, same]
    · rw [PartNode.tokens, List.cons_append, plain_cons, plain_append]
      exact prints.inParens
    · exact unequal_of_neutral (neutral_group _)
  | .sum value =>
    obtain ⟨value', same, prints, unequal⟩ := value.printed legible finite
    refine ⟨.sum value', ?_, prints, unequal⟩
    rw [PartNode.operand, PartNode.operand, same]

theorem PartNode.printedAfter (ps : List PartNode)
    (legible : AllLegible (PartNode.tokensAfter ps))
    (finite : AllFinite (Operand.numbersList (PartNode.operands ps))) :
    PrintedAfter ", " PartNode.tokensAfter PartNode.operands Operand.printList ps := by
  match ps with
  | [] => exact ⟨[], rfl, .empty⟩
  | p :: ps =>
    rw [PartNode.tokensAfter, List.cons_append, allLegible_cons, allLegible_append] at legible
    rw [PartNode.operands, Operand.numbersList, allFinite_append] at finite
    exact printedAfter_cons joint_comma (by decide) (fun _ _ => rfl) (fun _ _ => rfl)
      (fun _ _ => rfl) (p.printed legible.2.1 finite.1)
      (PartNode.printedAfter ps legible.2.2 finite.2)

theorem SumNode.printed (s : SumNode) (legible : AllLegible s.tokens)
    (finite : AllFinite s.arithmetic.numbers) :
    Printed SumNode.tokens SumNode.arithmetic Arithmetic.print s := by
  match s with
  | .one value =>
    obtain ⟨value', same, prints, unequal⟩ := value.printed legible finite
    exact ⟨.one value', same, prints, unequal⟩
  | .plus left right =>
    rw [SumNode.tokens, allLegible_append, allLegible_cons] at legible
    rw [SumNode.arithmetic, Arithmetic.numbers, allFinite_append] at finite
    exact printed_binary .plus .plus rfl (fun _ _ => rfl) (fun _ _ => rfl)
      (left.printed legible.1 finite.1) (right.printed legible.2.2 finite.2)
  | .minus left right =>
    rw [SumNode.tokens, allLegible_append, allLegible_cons] at legible
    rw [SumNode.arithmetic, Arithmetic.numbers, allFinite_append] at finite
    exact printed_binary .minus .minus rfl (fun _ _ => rfl) (fun _ _ => rfl)
      (left.printed legible.1 finite.1) (right.printed legible.2.2 finite.2)

theorem ProductNode.printed (p : ProductNode) (legible : AllLegible p.tokens)
    (finite : AllFinite p.arithmetic.numbers) :
    Printed ProductNode.tokens ProductNode.arithmetic Arithmetic.print p := by
  match p with
  | .one value =>
    obtain ⟨value', same, prints, unequal⟩ := value.printed legible finite
    exact ⟨.one value', same, prints, unequal⟩
  | .times left right =>
    rw [ProductNode.tokens, allLegible_append, allLegible_cons] at legible
    rw [ProductNode.arithmetic, Arithmetic.numbers, allFinite_append] at finite
    exact printed_binary .times .star rfl (fun _ _ => rfl) (fun _ _ => rfl)
      (left.printed legible.1 finite.1) (right.printed legible.2.2 finite.2)
  | .divide left right =>
    rw [ProductNode.tokens, allLegible_append, allLegible_cons] at legible
    rw [ProductNode.arithmetic, Arithmetic.numbers, allFinite_append] at finite
    exact printed_binary .divide .slash rfl (fun _ _ => rfl) (fun _ _ => rfl)
      (left.printed legible.1 finite.1) (right.printed legible.2.2 finite.2)

theorem FactorNode.printed (f : FactorNode) (legible : AllLegible f.tokens)
    (finite : AllFinite f.arithmetic.numbers) :
    Printed FactorNode.tokens FactorNode.arithmetic Arithmetic.print f := by
  match f with
  | .number value =>
    rw [FactorNode.tokens, allLegible_cons] at legible
    exact printed_number legible.1 (finite _ (List.mem_singleton_self _))
  | .negative value =>
    rw [FactorNode.tokens, allLegible_cons, allLegible_cons] at legible
    rcases spelling_negated legible.2.1
      (finite _ (List.mem_singleton_self _))
      with ⟨same, finite'⟩ | ⟨digits, text, spelled⟩
    · obtain ⟨f', same', prints, unequal⟩ := printed_number legible.2.1 finite'
      rw [FactorNode.arithmetic, ← same] at same' prints unequal
      exact ⟨f', same', prints, unequal⟩
    · refine ⟨.negative value, rfl, prints_negative text spelled, ?_⟩
      intro c hc
      rw [FactorNode.arithmetic, Arithmetic.print, text] at hc
      cases hc
      decide
  | .call name [] =>
    rw [FactorNode.tokens, List.cons_append, List.cons_append, allLegible_cons] at legible
    exact printed_call [] legible.1 rfl .empty
  | .call name (p :: ps) =>
    rw [FactorNode.tokens, PartNode.tokensOf, List.cons_append, List.cons_append, allLegible_cons,
      allLegible_cons, allLegible_append, allLegible_append] at legible
    rw [FactorNode.arithmetic, Arithmetic.numbers, PartNode.operands, Operand.numbersList,
      allFinite_append] at finite
    obtain ⟨p', same, prints, _⟩ := p.printed legible.2.2.1.1 finite.1
    obtain ⟨ps', sameRest, printsRest⟩ := PartNode.printedAfter ps legible.2.2.1.2 finite.2
    refine printed_call (p' :: ps') legible.1 ?_ ?_
    · rw [PartNode.operands, PartNode.operands, same, sameRest]
    · rw [PartNode.operands, Operand.printList, PartNode.tokensOf, plain_append]
      exact prints_intercalate (by decide) prints printsRest
  | .variableName name =>
    rw [FactorNode.tokens, allLegible_cons] at legible
    have spelled := isName_of_legible legible.1
    exact ⟨.variableName name, rfl, .token spelled, unequal_of_spelling spelled (by simp)⟩

end

end Grammar
end LibrarySpec
