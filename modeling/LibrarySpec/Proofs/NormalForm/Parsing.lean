/-
  Every contract that is parsed is normal.

  `Yields P p` says that whatever the parser answers has a property, on all lists of lexemes, be they
  streams or not.  It is kept by sequencing and repetition, so all parsers but one are done by
  following their steps.

  The one is the clause that begins with `!(`, where two tokens decide.  It is followed from cursor to
  cursor: a single inverted group remains only if a bar follows it, and then it does not remain
  single; and a clause that begins otherwise has no inverted group in front, because an operand is a
  group only behind an opening parenthesis.
-/
import LibrarySpec.Proofs.Grammar.ContractReading
import LibrarySpec.Proofs.NormalForm.Shape

namespace LibrarySpec

open Grammar LibrarySpec.Parser

/-! ## What parsers yield -/

namespace Parser

variable {α β : Type} {P : α → Prop} {Q : β → Prop}

/-- Whatever the parser answers has the property. -/
def Yields (P : α → Prop) (p : Parser α) : Prop := ∀ c a c', p c = .ok (a, c') → P a

namespace Yields

variable {p : Parser α} {f : α → Parser β}

theorem pure {a : α} (h : P a) : Yields P (Pure.pure a) := by
  intro c b c' answer
  cases answer
  exact h

theorem bind (hp : Yields P p) (hf : ∀ a, P a → Yields Q (f a)) : Yields Q (p >>= f) := by
  intro c b c' answer
  obtain ⟨a, d, first, second⟩ := bind_eq_ok.1 answer
  exact hf a (hp c a d first) d b c' second

/-- The answer of the first parser does not matter. -/
theorem after (hf : ∀ a, Yields Q (f a)) : Yields Q (p >>= f) := by
  have nothing : Yields (fun _ => True) p := fun _ _ _ _ => trivial
  exact nothing.bind fun a _ => hf a

theorem mono {P' : α → Prop} (hp : Yields P p) (h : ∀ a, P a → P' a) : Yields P' p :=
  fun c a c' answer => h a (hp c a c' answer)

theorem reject {fault : SyntaxFault} : Yields P (Parser.reject fault) :=
  fun _ _ _ answer => absurd answer reject_ne_ok

theorem fail {wanted : String} : Yields P (Parser.fail wanted) :=
  fun _ _ _ answer => absurd answer fail_ne_ok

theorem collectWithin {step : Parser (Option α)} (h : Yields (fun o => ∀ a ∈ o, P a) step)
    (limit : Nat) : Yields (fun as => ∀ a ∈ as, P a) (Parser.collectWithin step limit) := by
  induction limit with
  | zero => exact fun _ _ _ answer => nomatch answer
  | succ limit ih =>
    refine h.bind fun o ho => ?_
    cases o with
    | none => exact pure nofun
    | some a => exact ih.bind fun as has => pure (List.forall_mem_cons.2 ⟨ho a rfl, has⟩)

theorem collect {step : Parser (Option α)} (h : Yields (fun o => ∀ a ∈ o, P a) step) :
    Yields (fun as => ∀ a ∈ as, P a) (Parser.collect step) :=
  fun c => h.collectWithin (c.ahead.length + 1) c

theorem afterEach (opening : Token) (h : Yields P p) :
    Yields (fun as => ∀ a ∈ as, P a) (Parser.afterEach opening p) := by
  refine collect (after fun found => ?_)
  cases found with
  | true => exact h.bind fun a ha => pure (by simpa using ha)
  | false => exact pure nofun

theorem separated (separator : Token) (h : Yields P p) :
    Yields (fun as => as ≠ [] ∧ ∀ a ∈ as, P a) (Parser.separated separator p) := by
  refine h.bind fun a ha => (h.afterEach separator).bind fun as has => pure ?_
  exact ⟨List.cons_ne_nil a as, List.forall_mem_cons.2 ⟨ha, has⟩⟩

theorem inParens (closing : String) (h : Yields P p) :
    Yields (fun as => ∀ a ∈ as, P a) (Parser.inParens p closing) := by
  refine after fun closed => ?_
  cases closed with
  | true => exact after fun _ => pure nofun
  | false => exact (h.separated _).bind fun as has => after fun _ => pure has.2

end Yields

/-- Where the opening token stands, something is read. -/
theorem afterEach_ne_nil {opening : Token} {item : Parser α} {c c' : Cursor} {as : List α}
    (h : afterEach opening item c = .ok (as, c')) (here : c.current.token = opening) : as ≠ [] := by
  obtain ⟨_, _, start, more⟩ := bind_eq_ok.1 h
  cases start
  obtain ⟨o, d, step, rest⟩ := bind_eq_ok.1 more
  have eaten : eat opening c = .ok (true, c.next) := by rw [eat_apply, if_pos here]
  rw [bind_of_ok eaten] at step
  obtain ⟨a, e, _, some⟩ := bind_eq_ok.1 step
  cases some
  obtain ⟨as', e, _, cons⟩ := bind_eq_ok.1 rest
  cases cons
  exact List.cons_ne_nil a as'

end Parser

/-! ## Arithmetic -/

namespace Arithmetic

variable {operand : Parser Operand} {choices : List (Symbol × Operator)} {item : Parser Arithmetic}
  {P Q : Arithmetic → Prop}

theorem yields_negated : Yields (fun a => a.Normal ∧ a.IsAtom) negated := by
  refine .after fun t => ?_
  cases t with
  | integer | float => exact .after fun _ => .pure ⟨trivial, trivial⟩
  | _ => exact .fail

theorem yields_atom (ho : Yields Operand.Normal operand) :
    Yields (fun a => a.Normal ∧ a.IsAtom) (atom operand) := by
  refine .after fun t => ?_
  cases t with
  | integer | float => exact .after fun _ => .pure ⟨trivial, trivial⟩
  | symbol s =>
    cases s with
    | minus => exact .after fun _ => yields_negated
    | _ => exact .fail
  | identifier name =>
    refine .after fun _ => .after fun call => ?_
    cases call with
    | true =>
      refine (ho.inParens _).bind fun operands normal => .pure ⟨?_, trivial⟩
      exact Operand.normalList_iff.2 normal
    | false => exact .pure ⟨trivial, trivial⟩
  | eof => exact .after fun _ => .reject
  | _ => exact .fail

theorem yields_operatorOf :
    Yields (fun o => ∀ operator ∈ o, ∃ sign, (sign, operator) ∈ choices) (operatorOf choices) := by
  refine .after fun t => ?_
  cases t with
  | symbol sign =>
    dsimp only
    cases found : choices.lookup sign with
    | some operator =>
      obtain ⟨front, back, split, _⟩ := List.lookup_eq_some_iff.1 found
      have choice : (sign, operator) ∈ choices := by simp [split]
      exact .after fun _ => .pure (by simpa using ⟨sign, choice⟩)
    | none => exact .pure nofun
  | _ => exact .pure nofun

/-- What holds of the first item and is kept by every sign and item behind it. -/
theorem yields_chain (hi : Yields Q item) (first : ∀ a, Q a → P a)
    (step : ∀ sign operator, (sign, operator) ∈ choices →
      ∀ left right, P left → Q right → P (.binary operator left right)) :
    Yields P (chain choices item) := by
  have signs : Yields (fun o => ∀ r ∈ o, (∃ sign, (sign, r.1) ∈ choices) ∧ Q r.2)
      (signed choices item) := by
    refine yields_operatorOf.bind fun o found => ?_
    cases o with
    | some operator =>
      exact hi.bind fun a ha => .pure (by simpa using ⟨found operator rfl, ha⟩)
    | none => exact .pure nofun
  refine hi.bind fun a ha => signs.collect.bind fun more hmore => .pure ?_
  have start := first a ha
  clear ha
  -- the left operand grows with every sign, so what holds of it is generalized
  induction more generalizing a with
  | nil => exact start
  | cons r more ih =>
    obtain ⟨⟨⟨sign, found⟩, right⟩, rest⟩ := List.forall_mem_cons.1 hmore
    exact ih _ rest (step sign r.1 found a r.2 start right)

theorem yields_product (ho : Yields Operand.Normal operand) :
    Yields (fun a => a.Normal ∧ ¬a.IsSum) (product operand) := by
  refine yields_chain (yields_atom ho) (fun a ha => ⟨ha.1, ha.2.not_isSum⟩) ?_
  intro sign operator found left right hl hr
  have fits : operator = .times ∨ operator = .divide := by
    simp only [List.mem_cons, Prod.mk.injEq, List.not_mem_nil, or_false] at found
    exact found.imp And.right And.right
  rcases fits with rfl | rfl <;> exact ⟨⟨hl.1, hr.1, hl.2, hr.2⟩, id⟩

theorem yields_sum (ho : Yields Operand.Normal operand) :
    Yields Arithmetic.Normal (sum operand) := by
  refine yields_chain (yields_product ho) (fun a ha => ha.1) ?_
  intro sign operator found left right hl hr
  have fits : operator = .plus ∨ operator = .minus := by
    simp only [List.mem_cons, Prod.mk.injEq, List.not_mem_nil, or_false] at found
    exact found.imp And.right And.right
  rcases fits with rfl | rfl <;> exact ⟨hl, hr.1, hr.2⟩

end Arithmetic

/-! ## Logic -/

/-- What is asked of the parsers one level deeper. -/
structure YieldsNormal (contract : Parser Contract) (operand : Parser Operand) : Prop where
  contracts : Yields Contract.Normal contract
  operands : Yields Operand.Normal operand
  /-- A group begins with a parenthesis. -/
  groups : ∀ c inner c', operand c = .ok (.group inner, c') → c.current.token = .symbol .openParen

variable {contract : Parser Contract} {operand : Parser Operand}

theorem Operand.yields_parserWith (h : YieldsNormal contract operand) :
    Yields Operand.Normal (Operand.parserWith contract operand) := by
  refine .after fun t => ?_
  have sum : Yields Operand.Normal (do return .arithmetic (← Arithmetic.sum operand)) :=
    (Arithmetic.yields_sum h.operands).bind fun _ ha => .pure ha
  cases t with
  | literal => exact .after fun _ => .pure trivial
  | symbol s =>
    cases s with
    | openParen =>
      exact .after fun _ => h.contracts.bind fun inner normal => .after fun _ => .pure normal
    | _ => exact sum
  | _ => exact sum

theorem Operand.parserWith_eq_group {inner : Contract} {c c' : Cursor}
    (h : Operand.parserWith contract operand c = .ok (.group inner, c')) :
    c.current.token = .symbol .openParen := by
  obtain ⟨t, d, ht, hd⟩ := bind_eq_ok.1 h
  cases ht
  have sum : (do return Operand.arithmetic (← Arithmetic.sum operand) : Parser Operand) c
      ≠ .ok (.group inner, c') := by
    intro h
    obtain ⟨a, e, _, he⟩ := bind_eq_ok.1 h
    cases he
  cases hcur : c.current.token with
  | literal =>
    rw [hcur] at hd
    cases hd
  | symbol s =>
    cases s with
    | openParen => rfl
    | _ =>
      rw [hcur] at hd
      exact absurd hd sum
  | _ =>
    rw [hcur] at hd
    exact absurd hd sum

theorem Term.yields_continued (ho : Yields Operand.Normal operand) {left : Operand}
    (hl : left.Normal) (inverted : Bool) :
    Yields Term.Normal (Term.continued operand left inverted) := by
  refine .after fun t => ?_
  cases Comparison.ofToken? t with
  | none => exact .pure hl
  | some sign => exact .after fun _ => ho.bind fun right hr => .pure ⟨hl, hr⟩

/-- A term stays alone where no comparison follows. -/
theorem Term.continued_eq_lone {left o : Operand} {inverted i : Bool} {c c' : Cursor}
    (h : Term.continued operand left inverted c = .ok (.lone o i, c')) :
    o = left ∧ i = inverted ∧ c' = c ∧ c.current.token.isComparison = false := by
  obtain ⟨t, d, ht, hd⟩ := bind_eq_ok.1 h
  cases ht
  cases hs : Comparison.ofToken? c.current.token with
  | none =>
    simp only [hs] at hd
    cases hd
    exact ⟨rfl, rfl, rfl, Clause.ofToken?_eq_none hs⟩
  | some sign =>
    simp only [hs] at hd
    obtain ⟨_, e, _, hd⟩ := bind_eq_ok.1 hd
    obtain ⟨right, g, _, hd⟩ := bind_eq_ok.1 hd
    cases hd

theorem Term.yields_parserWith (ho : Yields Operand.Normal operand) :
    Yields Term.Normal (Term.parserWith operand) :=
  .after fun inverted => ho.bind fun _ hl => Term.yields_continued ho hl inverted

/-- A term that is an inverted group begins with `!(`. -/
theorem Term.parserWith_eq_group (h : YieldsNormal contract operand) {inner : Contract}
    {c c' : Cursor} (read : Term.parserWith operand c = .ok (.lone (.group inner) true, c')) :
    c.current.token = .symbol .bang ∧ c.second.token = .symbol .openParen := by
  obtain ⟨inverted, d, mark, rest⟩ := bind_eq_ok.1 read
  obtain ⟨left, e, first, rest⟩ := bind_eq_ok.1 rest
  obtain ⟨rfl, rfl, _⟩ := Term.continued_eq_lone rest
  rw [eat_apply] at mark
  split at mark
  · rename_i bang
    cases mark
    refine ⟨bang, ?_⟩
    have second : c.next.current = c.second := by
      obtain ⟨behind, ahead⟩ := c
      cases ahead <;> rfl
    rw [← second]
    exact h.groups _ _ _ first
  · cases mark

namespace Clause

/-- A bar has to follow a first term that is not normal alone. -/
theorem normal_of_continued (ho : Yields Operand.Normal operand) {first : Term} {c c' : Cursor}
    {a : Clause} (hf : first.Normal) (h : continued operand first c = .ok (a, c'))
    (bar : ∀ inner, first = .lone (.group (.all [.any inner false])) true →
      c.current.token = .symbol .bar) : a.Normal := by
  obtain ⟨more, d, rest, answer⟩ := bind_eq_ok.1 h
  cases answer
  refine ⟨List.cons_ne_nil first more, ?_, ?_⟩
  · -- the first term is an inverted group, so a bar stood behind it and a second term was read
    rintro ⟨inner, single⟩
    rw [List.cons.injEq] at single
    exact afterEach_ne_nil rest (bar inner single.1) single.2
  · have hm := (Term.yields_parserWith ho).afterEach _ c more _ rest
    exact Term.normalList_iff.2 (List.forall_mem_cons.2 ⟨hf, hm⟩)

theorem normal_of_bracketed (h : YieldsNormal contract operand) {c c' : Cursor} {a : Clause}
    (read : bracketed contract operand c = .ok (a, c')) : a.Normal := by
  obtain ⟨_, _, _, read⟩ := bind_eq_ok.1 read
  obtain ⟨_, d, _, read⟩ := bind_eq_ok.1 read
  obtain ⟨inner, e, first, read⟩ := bind_eq_ok.1 read
  obtain ⟨_, g, _, read⟩ := bind_eq_ok.1 read
  obtain ⟨extended, k, look, read⟩ := bind_eq_ok.1 read
  rw [isExtended_apply, Except.ok.injEq, Prod.mk.injEq] at look
  obtain ⟨hextended, rfl⟩ := look
  have normal : (Operand.group inner).Normal := h.contracts _ _ _ first
  rcases single_or_goesOn inner extended with ⟨terms, rfl, rfl⟩ | goesOn
  · cases read
    exact normal.2.1
  · rw [behindGroup_eq goesOn] at read
    obtain ⟨term, m, hm, read⟩ := bind_eq_ok.1 read
    refine normal_of_continued h.operands
      (Term.yields_continued h.operands normal true _ _ _ hm) read ?_
    rintro terms rfl
    -- the group stayed alone, so no comparison made the clause go on but a bar
    obtain ⟨hinner, _, rfl, noComparison⟩ := Term.continued_eq_lone hm
    rw [goesOn terms (Operand.group.inj hinner).symm, noComparison] at hextended
    simpa using hextended

theorem yields_parserWith (h : YieldsNormal contract operand) :
    Yields Clause.Normal (parserWith contract operand) := by
  intro c a c' read
  rw [parserWith_apply] at read
  split at read
  · exact normal_of_bracketed h read
  · rename_i front
    obtain ⟨first, d, hd, read⟩ := bind_eq_ok.1 read
    refine normal_of_continued h.operands (Term.yields_parserWith h.operands _ _ _ hd) read ?_
    rintro terms rfl
    exact absurd (Term.parserWith_eq_group h hd) front

end Clause

namespace Contract

theorem yields_parserWith (h : YieldsNormal contract operand) :
    Yields Contract.Normal (parserWith contract operand) :=
  ((Clause.yields_parserWith h).separated _).bind fun _ hc =>
    .pure ⟨hc.1, Clause.normalList_iff.2 hc.2⟩

/-- The parsers of every depth yield normal contracts and operands. -/
theorem yieldsNormal_contractAt (depth : Nat) :
    YieldsNormal (contractAt depth) (operandAt depth) := by
  induction depth with
  | zero =>
    constructor
    all_goals
      intro c a c' read
      cases read
  | succ depth ih =>
    constructor
    · exact fun c a c' read => yields_parserWith ih c a c' read
    · exact fun c a c' read => Operand.yields_parserWith ih c a c' read
    · exact fun c inner c' read => Operand.parserWith_eq_group read

/-- Whatever the parser of contracts reads is normal. -/
theorem yields_normal : Yields Contract.Normal parser :=
  .after fun _ => (yieldsNormal_contractAt _).contracts

end Contract
end LibrarySpec
