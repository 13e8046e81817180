/-
  The variables of a contract are those that were written.

  In a text, a variable is an identifier that no opening parenthesis follows; with one, it names a
  call.  Nothing is asked of the lexemes here: they may lack their end, or have it in the middle.

    1. `variablesAmong` reads the variables off lexemes, in order and as often as they stand there.
    2. `Mentions` says of a parser that what it answers mentions what it passed.  The names mentioned
       before are part of the statement, so sequencing goes on where it stopped.
    3. Where the lexemes are used up, the last is seen again and again without being passed.  An
       identifier must not be read there, so what begins with one starts where none is seen that was
       passed (`Unpassed`).  Behind a token that is no identifier every cursor is so
       (`Mentions.passing`), and all that a contract repeats stands behind such a token.

  Main statement: `variableNames_of_parse`.
-/
import LibrarySpec.Proofs.Parsing

namespace LibrarySpec

open Grammar LibrarySpec.Parser

/-! ## Variables among lexemes -/

/-- The name, if the token is an identifier that no opening parenthesis follows. -/
def Token.variableBefore (next : Option Token) : Token → List String
  | .identifier name => if next = some (.symbol .openParen) then [] else [name]
  | _ => []

/-- The variables among lexemes, as often as they stand there; `after` stands behind the lexemes. -/
def variablesAmong : (run after : List Lexeme) → List String
  | [], _ => []
  | l :: run, after =>
    l.token.variableBefore ((run ++ after).head?.map (·.token)) ++ variablesAmong run after

theorem variablesAmong_append (run more after : List Lexeme) :
    variablesAmong (run ++ more) after
      = variablesAmong run (more ++ after) ++ variablesAmong more after := by
  induction run with
  | nil => rfl
  | cons l run ih =>
    rw [List.cons_append, variablesAmong, variablesAmong, ih, List.append_assoc, List.append_assoc]

/-- A token that is no identifier is no variable. -/
theorem variableBefore_eq_nil {t : Token} (h : ∀ name, t ≠ .identifier name)
    (next : Option Token) : t.variableBefore next = [] := by
  cases t with
  | identifier name => exact absurd rfl (h name)
  | _ => rfl

/-! ## Parsers that mention what they pass -/

namespace Parser

variable {α β : Type} {P Q : Cursor → Prop} {before : List String} {names : α → List String}

/-- The answer mentions what was mentioned before and then what was passed. -/
def Mentions (P : Cursor → Prop) (before : List String) (p : Parser α)
    (names : α → List String) : Prop :=
  ∀ c a c', P c → p c = .ok (a, c') →
    ∃ run, c.ahead = run ++ c'.ahead ∧ names a = before ++ variablesAmong run c'.ahead

/-- An identifier under the cursor is not passed yet. -/
def Unpassed (c : Cursor) : Prop := c.ahead = [] → ∀ name, c.behind.token ≠ .identifier name

namespace Mentions

variable {p : Parser α} {f : α → Parser β} {total : β → List String}

theorem pure {a : α} (h : names a = before) : Mentions P before (Pure.pure a) names := by
  intro c b c' _ answer
  cases answer
  exact ⟨[], rfl, by rw [h]; exact (List.append_nil before).symm⟩

theorem mono (hp : Mentions P before p names) (h : ∀ c, Q c → P c) :
    Mentions Q before p names :=
  fun c a c' here answer => hp c a c' (h c here) answer

theorem bind (hp : Mentions P before p names)
    (hf : ∀ a, Mentions Anywhere (names a) (f a) total) : Mentions P before (p >>= f) total := by
  intro c b c' here answer
  obtain ⟨a, d, first, second⟩ := bind_eq_ok.1 answer
  obtain ⟨run, ahead, passed⟩ := hp c a d here first
  obtain ⟨more, ahead', passed'⟩ := hf a d b c' trivial second
  refine ⟨run ++ more, by rw [ahead, ahead', List.append_assoc], ?_⟩
  rw [passed', passed, variablesAmong_append, ahead', List.append_assoc]

/-- What a parser mentions comes behind what was mentioned before. -/
theorem after (hp : Mentions P [] p names) : Mentions P before p fun a => before ++ names a := by
  intro c a c' here answer
  obtain ⟨run, ahead, passed⟩ := hp c a c' here answer
  exact ⟨run, ahead, congrArg (before ++ ·) (passed.trans (List.nil_append _))⟩

theorem reject {fault : SyntaxFault} : Mentions P before (Parser.reject fault) names :=
  fun _ _ _ _ answer => absurd answer reject_ne_ok

theorem fail {wanted : String} : Mentions P before (Parser.fail wanted) names :=
  fun _ _ _ _ answer => absurd answer fail_ne_ok

theorem peek {f : Token → Parser β}
    (h : ∀ t, Mentions (fun c => P c ∧ c.current.token = t) before (f t) total) :
    Mentions P before (Parser.peek >>= f) total :=
  fun c b c' here answer => h c.current.token c b c' ⟨here, rfl⟩ answer

/-- A token that is no identifier is passed, and nothing more is mentioned. -/
theorem step {t : Token} (ht : ∀ name, t ≠ .identifier name) {q : Parser β}
    (next : ∀ c, P c → c.current.token = t → Q c.next) (h : Mentions Q before q total) :
    Mentions (fun c => P c ∧ c.current.token = t) before (advance >>= fun _ => q) total := by
  rintro c b c' ⟨here, token⟩ answer
  obtain ⟨more, ahead, mentioned⟩ := h c.next b c' (next c here token) answer
  obtain ⟨behind, _ | ⟨l, rest⟩⟩ := c
  · exact ⟨more, ahead, mentioned⟩
  · have ahead : rest = more ++ c'.ahead := ahead
    have token : l.token = t := token
    refine ⟨l :: more, congrArg (l :: ·) ahead, ?_⟩
    rw [mentioned, variablesAmong, token, variableBefore_eq_nil ht, List.nil_append]

/-- Behind a token that is no identifier no identifier is passed. -/
theorem passing {t : Token} (ht : ∀ name, t ≠ .identifier name) {q : Parser β}
    (h : Mentions Unpassed before q total) :
    Mentions (fun c => P c ∧ c.current.token = t) before (advance >>= fun _ => q) total := by
  refine step ht ?_ h
  rintro ⟨behind, _ | ⟨l, rest⟩⟩ _ here
  · exact fun _ name same => ht name (here.symm.trans same)
  · exact fun _ name same => ht name (Eq.trans (Eq.symm here) same)

/-- An identifier in front of an opening parenthesis is not mentioned, any other is. -/
theorem identifier {name : String} {f : Bool → Parser β}
    (call : Mentions Unpassed before (f true) total)
    (alone : Mentions Anywhere (before ++ [name]) (f false) total) :
    Mentions (fun c => Unpassed c ∧ c.current.token = .identifier name) before
      (advance >>= fun _ => Parser.eat (.symbol .openParen) >>= f) total := by
  rintro ⟨behind, ahead⟩ b c' ⟨fresh, here⟩ answer
  cases ahead with
  | nil => exact absurd here (fresh rfl name)
  | cons l rest =>
    have token : l.token = .identifier name := here
    rw [bind_of_ok (advance_apply ⟨behind, l :: rest⟩)] at answer
    -- the token behind the identifier; where there is none, the identifier itself is seen again
    have next : (Cursor.mk l rest).current.token = .symbol .openParen
        ↔ rest.head?.map (·.token) = some (.symbol .openParen) := by
      cases rest with
      | nil => simp [Cursor.current, token]
      | cons m rest => simp [Cursor.current]
    by_cases opened : (Cursor.mk l rest).current.token = .symbol .openParen
    · have eaten : Parser.eat (.symbol .openParen) ⟨l, rest⟩
          = .ok (true, (Cursor.mk l rest).next) := by rw [eat_apply, if_pos opened]
      rw [Cursor.next, bind_of_ok eaten] at answer
      have behind : Mentions (fun c => Anywhere c ∧ c.current.token = .symbol .openParen) before
          (advance >>= fun _ => f true) total := passing (by simp) call
      obtain ⟨run, ahead, mentioned⟩ := behind ⟨l, rest⟩ b c' ⟨trivial, opened⟩ answer
      have rest_eq : rest = run ++ c'.ahead := ahead
      refine ⟨l :: run, congrArg (l :: ·) rest_eq, ?_⟩
      rw [mentioned, variablesAmong, ← rest_eq, next.1 opened, token, Token.variableBefore,
        if_pos rfl, List.nil_append]
    · have left : Parser.eat (.symbol .openParen) ⟨l, rest⟩ = .ok (false, ⟨l, rest⟩) := by
        rw [eat_apply, if_neg opened]
      rw [Cursor.next, bind_of_ok left] at answer
      obtain ⟨run, ahead, mentioned⟩ := alone ⟨l, rest⟩ b c' trivial answer
      have rest_eq : rest = run ++ c'.ahead := ahead
      refine ⟨l :: run, congrArg (l :: ·) rest_eq, ?_⟩
      rw [mentioned, variablesAmong, ← rest_eq, token, Token.variableBefore,
        if_neg fun h => opened (next.2 h), List.append_assoc]

theorem check {t : Token} {f : Bool → Parser β}
    (yes : Mentions (fun c => P c ∧ c.current.token = t) before (f true) total)
    (no : Mentions P before (f false) total) : Mentions P before (Parser.check t >>= f) total := by
  intro c b c' here answer
  rw [bind_of_ok (check_apply t c)] at answer
  by_cases h : c.current.token = t
  · rw [decide_eq_true h] at answer
    exact yes c b c' ⟨here, h⟩ answer
  · rw [decide_eq_false h] at answer
    exact no c b c' here answer

theorem eat {t : Token} (ht : ∀ name, t ≠ .identifier name) {f : Bool → Parser β}
    (yes : Mentions Unpassed before (f true) total) (no : Mentions P before (f false) total) :
    Mentions P before (Parser.eat t >>= f) total := by
  intro c b c' here answer
  by_cases h : c.current.token = t
  · have eaten : Parser.eat t c = .ok (true, c.next) := by rw [eat_apply, if_pos h]
    rw [bind_of_ok eaten] at answer
    exact passing ht yes c b c' ⟨here, h⟩ answer
  · have left : Parser.eat t c = .ok (false, c) := by rw [eat_apply, if_neg h]
    rw [bind_of_ok left] at answer
    exact no c b c' here answer

theorem expect {t : Token} (ht : ∀ name, t ≠ .identifier name) {wanted : String} :
    Mentions P [] (Parser.expect t wanted) fun _ => [] :=
  eat ht (pure rfl) fail

theorem collectWithin {step : Parser (Option α)}
    (h : Mentions Anywhere [] step fun o => o.elim [] names) (limit : Nat) :
    Mentions Anywhere [] (Parser.collectWithin step limit) (·.flatMap names) := by
  induction limit with
  | zero => exact fun _ _ _ _ answer => nomatch answer
  | succ limit ih =>
    refine h.bind fun o => ?_
    cases o with
    | none => exact pure rfl
    | some a => exact ih.after.bind fun as => pure rfl

theorem collect {step : Parser (Option α)}
    (h : Mentions Anywhere [] step fun o => o.elim [] names) :
    Mentions Anywhere [] (Parser.collect step) (·.flatMap names) :=
  fun c => h.collectWithin (c.ahead.length + 1) c

theorem afterEach {opening : Token} (ho : ∀ name, opening ≠ .identifier name)
    (h : Mentions Unpassed [] p names) :
    Mentions Anywhere [] (Parser.afterEach opening p) (·.flatMap names) := by
  refine collect (eat ho ?_ (pure rfl))
  exact h.bind fun a => pure rfl

theorem separated {separator : Token} (hs : ∀ name, separator ≠ .identifier name)
    (h : Mentions Unpassed [] p names) :
    Mentions Unpassed [] (Parser.separated separator p) (·.flatMap names) := by
  exact h.bind fun a => (h.afterEach hs).after.bind fun as => pure rfl

theorem inParens {closing : String} (h : Mentions Unpassed [] p names) :
    Mentions Unpassed [] (Parser.inParens p closing) (·.flatMap names) := by
  refine check (passing (by simp) (pure rfl)) ?_
  refine (h.separated (by simp)).bind fun as => (expect (by simp)).after.bind fun _ => pure ?_
  exact (List.append_nil _).symm

end Mentions
end Parser

/-! ## Lists of nodes -/

theorem Clause.mentionsList_eq (clauses : List Clause) :
    Clause.mentionsList clauses = clauses.flatMap Clause.mentions := by
  induction clauses with
  | nil => rfl
  | cons c clauses ih => rw [Clause.mentionsList, ih, List.flatMap_cons]

theorem Term.mentionsList_eq (terms : List Term) :
    Term.mentionsList terms = terms.flatMap Term.mentions := by
  induction terms with
  | nil => rfl
  | cons t terms ih => rw [Term.mentionsList, ih, List.flatMap_cons]

theorem Operand.mentionsList_eq (operands : List Operand) :
    Operand.mentionsList operands = operands.flatMap Operand.mentions := by
  induction operands with
  | nil => rfl
  | cons o operands ih => rw [Operand.mentionsList, ih, List.flatMap_cons]

/-! ## Arithmetic -/

namespace Arithmetic

variable {operand : Parser Operand} {choices : List (Symbol × Operator)} {item : Parser Arithmetic}

theorem mentions_negated {P : Cursor → Prop} : Mentions P [] negated Arithmetic.mentions := by
  refine .peek fun t => ?_
  cases t with
  | integer | float => exact .passing (by simp) (.pure rfl)
  | _ => exact .fail

/-- An identifier is a variable, or it names a call and a parenthesis follows it. -/
theorem mentions_atom (ho : Mentions Unpassed [] operand Operand.mentions) :
    Mentions Unpassed [] (atom operand) Arithmetic.mentions := by
  refine .peek fun t => ?_
  cases t with
  | integer | float => exact .passing (by simp) (.pure rfl)
  | symbol s =>
    cases s with
    | minus => exact .passing (by simp) mentions_negated
    | _ => exact .fail
  | identifier name =>
    refine .identifier ?_ (.pure rfl)
    exact ho.inParens.bind fun operands => .pure (Operand.mentionsList_eq operands)
  | eof => exact fun _ _ _ _ answer => nomatch answer
  | _ => exact .fail

theorem mentions_signed (hi : Mentions Unpassed [] item Arithmetic.mentions) :
    Mentions Anywhere [] (signed choices item) fun o => o.elim [] (·.2.mentions) := by
  rw [signed_eq]
  refine .peek fun t => ?_
  cases t with
  | symbol sign =>
    dsimp only
    cases choices.lookup sign with
    | some operator => exact .passing (by simp) (hi.bind fun a => .pure rfl)
    | none => exact .pure rfl
  | _ => exact .pure rfl

/-- A chain mentions its first item and then those behind its signs. -/
theorem mentions_chain (hi : Mentions Unpassed [] item Arithmetic.mentions) :
    Mentions Unpassed [] (chain choices item) Arithmetic.mentions := by
  refine hi.bind fun first => (mentions_signed hi).collect.after.bind fun more => .pure ?_
  have mentioned : ∀ left : Arithmetic,
      (joined left more).mentions = left.mentions ++ more.flatMap (·.2.mentions) := by
    induction more with
    | nil => exact fun left => (List.append_nil _).symm
    | cons r more ih =>
      intro left
      rw [joined, List.foldl_cons]
      rw [← joined, ih, Arithmetic.mentions, List.flatMap_cons, List.append_assoc]
  exact mentioned first

theorem mentions_sum (ho : Mentions Unpassed [] operand Operand.mentions) :
    Mentions Unpassed [] (sum operand) Arithmetic.mentions :=
  mentions_chain (mentions_chain (mentions_atom ho))

end Arithmetic

/-! ## Logic -/

variable {contract : Parser Contract} {operand : Parser Operand}

theorem Operand.mentions_parserWith (hc : Mentions Unpassed [] contract Contract.mentions)
    (ho : Mentions Unpassed [] operand Operand.mentions) :
    Mentions Unpassed [] (Operand.parserWith contract operand) Operand.mentions := by
  have sum : Mentions Unpassed [] (do return .arithmetic (← Arithmetic.sum operand))
      Operand.mentions := (Arithmetic.mentions_sum ho).bind fun a => .pure rfl
  refine .peek fun t => ?_
  cases t with
  | literal value => exact .passing (by simp) (.pure rfl)
  | symbol s =>
    cases s with
    | openParen =>
      refine .passing (by simp) (hc.bind fun inner => ?_)
      refine (Mentions.expect (by simp)).after.bind fun _ => .pure ?_
      exact (List.append_nil _).symm
    | _ => exact sum.mono fun _ h => h.1
  | _ => exact sum.mono fun _ h => h.1

namespace Term

theorem mentions_continued (ho : Mentions Unpassed [] operand Operand.mentions) (left : Operand)
    (inverted : Bool) :
    Mentions Anywhere left.mentions (continued operand left inverted) Term.mentions := by
  refine .peek fun t => ?_
  cases found : Comparison.ofToken? t with
  | none => exact .pure rfl
  | some sign =>
    have sight : ∀ name, t ≠ .identifier name := by
      rintro name rfl
      cases found
    exact .passing sight (ho.after.bind fun right => .pure rfl)

theorem mentions_parserWith (ho : Mentions Unpassed [] operand Operand.mentions) :
    Mentions Unpassed [] (parserWith operand) Term.mentions := by
  have term : ∀ inverted, Mentions Unpassed []
      (do
        let left ← operand
        continued operand left inverted) Term.mentions :=
    fun inverted => ho.bind fun left => mentions_continued ho left inverted
  exact .eat (by simp) (term true) (term false)

end Term

namespace Clause

theorem mentions_continued (ho : Mentions Unpassed [] operand Operand.mentions) (first : Term) :
    Mentions Anywhere first.mentions (continued operand first) Clause.mentions := by
  refine ((Term.mentions_parserWith ho).afterEach (by simp)).after.bind fun more => .pure ?_
  rw [Clause.mentions, Term.mentionsList_eq, List.flatMap_cons]

/-- The terms of a group mention the same, whether they are kept as its terms or as a group. -/
theorem mentions_behindGroup (ho : Mentions Unpassed [] operand Operand.mentions) (inner : Contract)
    (extended : Bool) :
    Mentions Anywhere inner.mentions (behindGroup operand inner extended) Clause.mentions := by
  rcases single_or_goesOn inner extended with ⟨terms, rfl, rfl⟩ | longer
  · refine .pure ?_
    rw [Contract.mentions, Clause.mentionsList, Clause.mentionsList, List.append_nil,
      Clause.mentions, Clause.mentions]
  · rw [behindGroup_eq longer]
    exact (Term.mentions_continued ho (.group inner) true).bind fun first =>
      mentions_continued ho first

theorem mentions_parserWith (hc : Mentions Unpassed [] contract Contract.mentions)
    (ho : Mentions Unpassed [] operand Operand.mentions) :
    Mentions Unpassed [] (parserWith contract operand) Clause.mentions := by
  have terms : Mentions Unpassed []
      (do
        let first ← Term.parserWith operand
        continued operand first) Clause.mentions :=
    (Term.mentions_parserWith ho).bind fun first => mentions_continued ho first
  have looks : Mentions Anywhere [] isExtended fun _ => [] := .peek fun t => .pure rfl
  have inside : Mentions Unpassed []
      (do
        let inner ← contract
        expect (.symbol .closeParen) "')'"
        behindGroup operand inner (← isExtended)) Clause.mentions := by
    refine hc.bind fun inner => (Mentions.expect (by simp)).after.bind fun _ => ?_
    refine looks.after.bind fun extended => ?_
    rw [List.append_nil, List.append_nil]
    exact mentions_behindGroup ho inner extended
  have group : Mentions (fun c => c.second.token = .symbol .openParen
      ∧ c.current.token = .symbol .bang) [] (bracketed contract operand) Clause.mentions := by
    refine .step (by simp) (Q := fun c => Anywhere c ∧ c.current.token = .symbol .openParen) ?_
      (.passing (by simp) inside)
    rintro ⟨behind, _ | ⟨l, _ | ⟨m, rest⟩⟩⟩ opened here
    · exact ⟨trivial, opened⟩
    · exact ⟨trivial, opened⟩
    · exact ⟨trivial, opened⟩
  intro c a c' fresh read
  rw [parserWith_apply] at read
  split at read
  · rename_i front
    exact group c a c' front.symm read
  · exact terms c a c' fresh read

end Clause

namespace Contract

theorem mentions_parserWith (hc : Mentions Unpassed [] contract Contract.mentions)
    (ho : Mentions Unpassed [] operand Operand.mentions) :
    Mentions Unpassed [] (parserWith contract operand) Contract.mentions :=
  ((Clause.mentions_parserWith hc ho).separated (by simp)).bind fun clauses =>
    .pure (Clause.mentionsList_eq clauses)

/-- The parsers of every depth mention what they pass. -/
theorem mentions_contractAt (depth : Nat) :
    Mentions Unpassed [] (contractAt depth) Contract.mentions
      ∧ Mentions Unpassed [] (operandAt depth) Operand.mentions := by
  induction depth with
  | zero =>
    constructor
    all_goals
      intro c a c' _ answer
      cases answer
  | succ depth ih =>
    exact ⟨mentions_parserWith ih.1 ih.2, Operand.mentions_parserWith ih.1 ih.2⟩

theorem mentions_contract : Mentions Unpassed [] parser Contract.mentions :=
  fun c => (mentions_contractAt (2 * c.ahead.length + 2)).1 c

/-- Each name is kept where it stands first. -/
theorem variableNames_eq (contract : Contract) :
    contract.variableNames = contract.mentions.eraseDups := by
  have kept : ∀ names found : List String,
      names.foldl (fun found name => if found.contains name then found else found ++ [name]) found
        = found ++ (names.filter (!found.contains ·)).eraseDups := by
    intro names
    induction names with
    | nil => exact fun found => (List.append_nil found).symm
    | cons name names ih =>
      intro found
      rw [List.foldl_cons, ih]
      cases known : found.contains name with
      | true =>
        rw [if_pos rfl, List.filter_cons_of_neg (by rw [known]; decide)]
      | false =>
        have apart : ∀ other, (!(found ++ [name]).contains other)
            = (!other == name && !found.contains other) := by
          intro other
          rw [List.contains_eq_any_beq, List.any_append, ← List.contains_eq_any_beq, Bool.not_or,
            Bool.and_comm]
          simp [BEq.comm]
        rw [if_neg (by decide), List.filter_cons_of_pos (by rw [known]; decide),
          List.eraseDups_cons, List.filter_filter, List.append_assoc, List.singleton_append]
        simp only [apart]
  rw [variableNames, kept, List.nil_append]
  exact congrArg List.eraseDups (List.filter_eq_self.2 fun _ _ => rfl)

/-- What a contract parser passes are the lexemes it started on, up to those ahead of it then; the
    names of the contract are the variables among these, each once, in order of first occurrence. -/
theorem variableNames_of_parse {behind : Lexeme} {lexemes : List Lexeme} {contract : Contract}
    {c' : Cursor} (fresh : lexemes = [] → ∀ name, behind.token ≠ .identifier name)
    (h : parser ⟨behind, lexemes⟩ = .ok (contract, c')) :
    ∃ passed, lexemes = passed ++ c'.ahead
      ∧ contract.variableNames = (variablesAmong passed c'.ahead).eraseDups := by
  obtain ⟨passed, ahead, mentioned⟩ := mentions_contract ⟨behind, lexemes⟩ contract c' fresh h
  refine ⟨passed, ahead, ?_⟩
  rw [variableNames_eq, mentioned, List.nil_append]

/-- The lexemes of `!(size(b, a) > c | b) & a == 1`. -/
def nestedLexemes : List Lexeme :=
  [.symbol .bang, .symbol .openParen, .identifier "size", .symbol .openParen, .identifier "b",
    .symbol .comma, .identifier "a", .symbol .closeParen, .symbol .greater, .identifier "c",
    .symbol .bar, .identifier "b", .symbol .closeParen, .symbol .ampersand, .identifier "a",
    .symbol .equal, .integer 1, .eof].map fun token => ⟨[], token, [], ⟨1, 1, 0⟩⟩

theorem variableNames_of_parse_nested :
    ∃ contract c', parser (.ofList nestedLexemes) = .ok (contract, c')
      ∧ contract.variableNames = ["b", "a", "c"] := by
  have stops : (parser (.ofList nestedLexemes)).toOption.any
      (fun r => r.2.ahead = nestedLexemes.drop 17) = true := by decide +kernel
  obtain ⟨⟨contract, c'⟩, read, rest⟩ := exists_ok_of_any stops
  have rest : c'.ahead = nestedLexemes.drop 17 := of_decide_eq_true rest
  have fresh : nestedLexemes = [] → ∀ name, Lexeme.nothing.token ≠ .identifier name := nofun
  obtain ⟨passed, ahead, names⟩ := variableNames_of_parse fresh read
  rw [rest] at ahead names
  obtain rfl : passed = nestedLexemes.take 17 :=
    List.append_cancel_right (ahead.symm.trans (List.take_append_drop 17 nestedLexemes).symm)
  exact ⟨contract, c', read, names.trans (by decide +kernel)⟩

end Contract

end LibrarySpec
