/-
  The parsers of types and contracts stay inside their stream.

  The parsers of contracts and operands one level deeper are arguments, and so are the streams that
  these are known to stay inside: they are only called behind a token, hence on shorter streams.

  Two depths are compared at once.  `agrees_contractAt` says how much depth a stream needs: a
  contract two levels for every lexeme and one more, an operand two levels for every lexeme.  The
  depth that `Contract.parser` takes from the lexemes ahead is enough, and the lexemes behind the end
  only add to it.
-/
import LibrarySpec.Proofs.Confinement.Basic
import LibrarySpec.Proofs.Grammar.ContractReading

namespace LibrarySpec

open LibrarySpec.Parser
open Text (Position)

variable {places : Position → Prop} {size : Nat}

/-! ## Types -/

namespace SemanticType

/-- The mark in front of a cursor is told by two tokens. -/
theorem mark_apply (c : Cursor) :
    mark c =
      if c.current.token = .symbol .openBracket ∧ c.second.token = .symbol .closeBracket then
        .ok (some array, c.next.next)
      else (do if ← eat (.symbol .star) then return some pointer else return none) c := by
  rw [mark, bind_of_ok (check_apply _ c), bind_of_ok (peekSecond_apply c)]
  by_cases h : c.current.token = .symbol .openBracket ∧ c.second.token = .symbol .closeBracket
  · rw [if_pos h, if_pos (by simp [h.1, h.2])]
    rfl
  · rw [if_neg h, if_neg (by simpa using h)]

end SemanticType

namespace Parser

/-- A stream whose first token is not its end has a second lexeme. -/
theorem exists_second {behind : Lexeme} {ls : List Lexeme} {t : Token} (st : Stream ls)
    (first : (Cursor.mk behind ls).current.token = t) (ht : t ≠ .eof) :
    ∃ l m rest, ls = l :: m :: rest ∧ l.token = t ∧ Stream (m :: rest) := by
  subst first
  cases st with
  | eof l h => exact absurd h ht
  | @cons l rest _ tail =>
    cases rest with
    | nil => exact absurd rfl tail.ne_nil
    | cons m rest => exact ⟨l, m, rest, rfl, rfl, tail⟩

end Parser

namespace SemanticType

theorem steps_mark : Steps places size mark mark := by
  intro behind ls junk st inside _ bound
  have star : Steps places size
      (do if ← eat (.symbol .star) then return some pointer else return none)
      (do if ← eat (.symbol .star) then return some pointer else return none) := by
    refine (agrees_eat (by simp)).bind fun b => ?_
    cases b with
    | true => exact .pure _ rfl
    | false => exact .pure _ rfl
  rw [mark_apply, mark_apply, current_append st]
  by_cases opened : (Cursor.mk behind ls).current.token = .symbol .openBracket
  · obtain ⟨l, m, rest, rfl, hl, tail⟩ := exists_second st opened (by simp)
    by_cases closed : m.token = .symbol .closeBracket
    · rw [if_pos ⟨opened, closed⟩, if_pos ⟨opened, closed⟩]
      refine .ok (some array) m (tail.tail_of_token (by simp [closed])) ?_ ?_
      · exact (List.suffix_cons m rest).trans (List.suffix_cons l _)
      · simp
    · rw [if_neg fun h => closed h.2, if_neg fun h => closed h.2]
      exact star _ _ _ st inside trivial bound
  · rw [if_neg fun h => opened h.1, if_neg fun h => opened h.1]
    exact star _ _ _ st inside trivial bound

theorem spends_atom : Spends places size atom atom := by
  refine (spends_identifier _).bind fun name => ?_
  exact (keeps_collect steps_mark).bind fun marks => .pure _ rfl

theorem spends_type : Spends places size parser parser := by
  refine spends_atom.bind fun first => ?_
  refine Keeps.bind (keeps_collect ?_) fun more => .pure _ rfl
  refine Agrees.bind keeps_atIdentifier fun b => ?_
  cases b with
  | true => exact Agrees.bind spends_atom fun a => .pure _ rfl
  | false => exact .pure _ rfl

end SemanticType

/-! ## Arithmetic -/

namespace Arithmetic

variable {operand operand' : Parser Operand} {choices : List (Symbol × Operator)}
  {item item' : Parser Arithmetic}

theorem spends_negated : Spends places size negated negated := by
  refine .peek fun t _ => ?_
  cases t with
  | integer n => exact .passing (by simp) (.pure _ rfl)
  | float x => exact .passing (by simp) (.pure _ rfl)
  | _ => exact .fail _

theorem spends_atom (ho : Spends places (size - 1) operand operand') :
    Spends places size (atom operand) (atom operand') := by
  refine .peek fun t _ => ?_
  cases t with
  | integer n => exact .passing (by simp) (.pure _ rfl)
  | float x => exact .passing (by simp) (.pure _ rfl)
  | symbol s =>
    cases s with
    | minus => exact .passing (by simp) spends_negated.keeps
    | _ => exact .fail _
  | identifier name =>
    refine .passing (by simp) (Agrees.bind (agrees_eat (by simp)) fun b => ?_)
    cases b with
    | true =>
      have inside : Spends places (size - 1 - 1) operand operand' := ho.within (by omega)
      exact (spends_inParens _ inside).keeps.bind fun operands => .pure _ rfl
    | false => exact .pure _ rfl
  | eof => exact .place fun p hp => .reject hp
  | _ => exact .fail _

theorem steps_operatorOf : Steps places size (operatorOf choices) (operatorOf choices) := by
  refine .peek fun t _ => ?_
  cases t with
  | symbol sign =>
    dsimp only
    cases choices.lookup sign with
    | some operator => exact (agrees_advance (by simp)).bind fun _ => .pure _ rfl
    | none => exact .pure none rfl
  | _ => exact .pure none rfl

theorem spends_chain (hi : Spends places size item item') :
    Spends places size (chain choices item) (chain choices item') := by
  refine hi.bind fun first => ?_
  have step : Steps places (size - 1) (signed choices item) (signed choices item') := by
    refine Agrees.bind steps_operatorOf fun o => ?_
    cases o with
    | some operator =>
      have later : Keeps places (size - 1 - 1) item item' := hi.keeps.within (by omega)
      exact Agrees.bind later fun a => .pure (some (operator, a)) rfl
    | none => exact .pure none rfl
  exact (keeps_collect step).bind fun more => .pure _ rfl

theorem spends_sum (ho : Spends places (size - 1) operand operand') :
    Spends places size (sum operand) (sum operand') :=
  spends_chain (spends_chain (spends_atom ho))

end Arithmetic

/-! ## Logic -/

variable {contract contract' : Parser Contract} {operand operand' : Parser Operand}

theorem Operand.spends_parserWith (hc : Spends places (size - 1) contract contract')
    (ho : Spends places (size - 1) operand operand') :
    Spends places size (Operand.parserWith contract operand)
      (Operand.parserWith contract' operand') := by
  have sum : ∀ {F : Token → Prop}, Agrees places F size (fun _ => 1)
      (do return Operand.arithmetic (← Arithmetic.sum operand))
      (do return Operand.arithmetic (← Arithmetic.sum operand')) :=
    (Arithmetic.spends_sum ho).map.here
  refine .peek fun t _ => ?_
  cases t with
  | literal value => exact .passing (by simp) (.pure _ rfl)
  | symbol s =>
    cases s with
    | openParen =>
      refine .passing (by simp) (hc.keeps.bind fun inner => ?_)
      exact (spends_expect (by simp) _).keeps.bind fun _ => .pure _ rfl
    | _ => exact sum
  | _ => exact sum

namespace Term

theorem keeps_continued (ho : Spends places size operand operand') (left : Operand)
    (inverted : Bool) :
    Keeps places size (continued operand left inverted) (continued operand' left inverted) := by
  refine .peek fun t _ => ?_
  cases found : Comparison.ofToken? t with
  | none => exact .pure _ rfl
  | some sign =>
    have ht : t ≠ .eof := by
      rintro rfl
      cases found
    refine (Agrees.passing ht ?_).weaken (fun _ h => h) (Nat.le_refl _) fun _ => Nat.zero_le _
    exact (ho.keeps.within (Nat.sub_le _ _)).bind fun right => .pure _ rfl

theorem spends_parserWith (ho : Spends places size operand operand') :
    Spends places size (parserWith operand) (parserWith operand') := by
  have mark : Keeps places size (eat (.symbol .bang)) (eat (.symbol .bang)) :=
    (agrees_eat (by simp)).keeps
  refine mark.bindSpends fun inverted => ho.bind fun left => ?_
  exact keeps_continued (ho.within (Nat.sub_le _ _)) left inverted

end Term

namespace Clause

theorem keeps_continued (ho : Spends places size operand operand') (first : Term) :
    Keeps places size (continued operand first) (continued operand' first) := by
  have more : Keeps places (size - 1) (Term.parserWith operand) (Term.parserWith operand') :=
    (Term.spends_parserWith ho).keeps.within (Nat.sub_le _ _)
  exact (keeps_afterEach (by simp) more).bind fun terms => .pure _ rfl

theorem keeps_isExtended : Keeps places size isExtended isExtended :=
  .peek fun _ _ => .pure _ rfl

theorem keeps_behindGroup (ho : Spends places size operand operand') (inner : Contract)
    (extended : Bool) :
    Keeps places size (behindGroup operand inner extended)
      (behindGroup operand' inner extended) := by
  have goesOn : Keeps places size
      (do
        let first ← Term.continued operand (.group inner) true
        continued operand first)
      (do
        let first ← Term.continued operand' (.group inner) true
        continued operand' first) :=
    (Term.keeps_continued ho _ _).bind fun first => keeps_continued ho first
  rcases single_or_goesOn inner extended with ⟨terms, rfl, rfl⟩ | longer
  · exact .pure _ rfl
  · rw [behindGroup_eq longer, behindGroup_eq longer]
    exact goesOn

theorem spends_parserWith (hc : Spends places (size - 1) contract contract')
    (ho : Spends places size operand operand') :
    Spends places size (parserWith contract operand) (parserWith contract' operand') := by
  intro behind ls junk st inside _ bound
  rw [parserWith_apply, parserWith_apply, current_append st]
  have terms : Spends places size
      (do
        let first ← Term.parserWith operand
        continued operand first)
      (do
        let first ← Term.parserWith operand'
        continued operand' first) :=
    (Term.spends_parserWith ho).bind fun first =>
      keeps_continued (ho.within (Nat.sub_le _ _)) first
  have group : Keeps places (size - 1)
      (do
        let inner ← contract
        expect (.symbol .closeParen) "')'"
        behindGroup operand inner (← isExtended))
      (do
        let inner ← contract'
        expect (.symbol .closeParen) "')'"
        behindGroup operand' inner (← isExtended)) :=
    hc.keeps.bind fun inner => (spends_expect (by simp) _).keeps.bind fun _ =>
      keeps_isExtended.bind fun extended =>
        keeps_behindGroup (ho.within (Nat.sub_le _ _)) inner extended
  by_cases bang : (Cursor.mk behind ls).current.token = .symbol .bang
  · obtain ⟨l, m, rest, rfl, hl, tail⟩ := exists_second st bang (by simp)
    by_cases paren : m.token = .symbol .openParen
    · rw [if_pos ⟨bang, paren⟩, if_pos ⟨bang, paren⟩]
      -- both tokens are passed before the contract inside is read
      simp only [List.length_cons] at bound
      have deeper : rest <:+ l :: m :: rest := (List.suffix_cons m rest).trans (List.suffix_cons l _)
      have answers := group m rest junk (tail.tail_of_token (by simp [paren]))
        (fun x hx => inside x (deeper.subset hx)) trivial (by omega)
      exact answers.behind deeper fun _ => by simp only [List.length_cons]; omega
    · rw [if_neg fun h => paren h.2, if_neg fun h => paren h.2]
      exact terms _ _ _ st inside trivial bound
  · rw [if_neg fun h => bang h.1, if_neg fun h => bang h.1]
    exact terms _ _ _ st inside trivial bound

end Clause

namespace Contract

theorem spends_parserWith (hc : Spends places (size - 1) contract contract')
    (ho : Spends places size operand operand') :
    Spends places size (parserWith contract operand) (parserWith contract' operand') :=
  (spends_separated (by simp) (Clause.spends_parserWith hc ho)).map

/-- Two depths that are enough for a stream make no difference. -/
theorem agrees_contractAt (depth depth' : Nat) :
    (∀ size, 2 * size + 2 ≤ depth → 2 * size + 2 ≤ depth' →
      Spends places size (contractAt depth) (contractAt depth'))
    ∧ ∀ size, 2 * size + 1 ≤ depth → 2 * size + 1 ≤ depth' →
      Spends places size (operandAt depth) (operandAt depth') := by
  induction depth generalizing depth' with
  | zero => exact ⟨fun _ h => absurd h (by omega), fun _ h => absurd h (by omega)⟩
  | succ depth ih =>
    cases depth' with
    | zero => exact ⟨fun _ _ h => absurd h (by omega), fun _ _ h => absurd h (by omega)⟩
    | succ depth' =>
      obtain ⟨contracts, operands⟩ := ih depth'
      constructor
      · intro size h h'
        cases size with
        | zero => exact .zero
        | succ size =>
          exact spends_parserWith (contracts size (by omega) (by omega))
            (operands (size + 1) (by omega) (by omega))
      · intro size h h'
        cases size with
        | zero => exact .zero
        | succ size =>
          exact Operand.spends_parserWith (contracts size (by omega) (by omega))
            (operands size (by omega) (by omega))

theorem spends_contract : Spends places size parser parser := by
  intro behind ls junk st inside first bound
  have longer : ls.length ≤ (ls ++ junk).length := by
    rw [List.length_append]
    exact Nat.le_add_right _ _
  have deep : Spends places ls.length (contractAt (2 * ls.length + 2))
      (contractAt (2 * (ls ++ junk).length + 2)) :=
    (agrees_contractAt _ _).1 ls.length (Nat.le_refl _) (by omega)
  exact deep behind ls junk st inside first (Nat.le_refl _)

end Contract
end LibrarySpec
