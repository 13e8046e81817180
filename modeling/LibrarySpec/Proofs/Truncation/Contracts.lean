/-
  The parsers of types and contracts on lists cut short.

  A type is read on as long as identifiers and stars are seen, a contract as long as opening
  parentheses are: with one of these past the last lexeme there is no end to it, and nothing is counted.
  Otherwise an operand is read where one can begin.  Past the last lexeme the token that is seen is the
  one that stands before an operand, a symbol or a keyword (`Grounded`), and none of them is an operand.

  The depth of a contract counts like the limit of a repetition.  It is reached only where groups are
  opened again and again.
-/
import LibrarySpec.Proofs.Confinement.Contracts
import LibrarySpec.Proofs.Truncation.Basic

namespace LibrarySpec

open LibrarySpec.Parser
open Cursor (Inside Past)

variable {kept : List Lexeme} {P : Cursor → Prop} {n : Nat}

/-! ## Types -/

namespace SemanticType

theorem paces_mark : Paces kept P n mark := by
  have star : Paces kept P n
      (do if ← eat (.symbol .star) then return some pointer else return none) := by
    refine (bears_eat (.inr (.inl rfl))).bind fun b => ?_
    cases b with
    | true => exact .pure _ rfl
    | false => exact .pure _ rfl
  intro c inside here bound
  rw [mark_apply]
  by_cases pair : c.current.token = .symbol .openBracket ∧ c.second.token = .symbol .closeBracket
  · rw [if_pos pair]
    obtain ⟨behind, _ | ⟨l, _ | ⟨m, rest⟩⟩⟩ := c
    -- one lexeme is not both brackets
    · exact absurd (pair.1.symm.trans pair.2) (by simp)
    · exact absurd (pair.1.symm.trans pair.2) (by simp)
    · refine .ok (some array) inside.next.next fun _ => ?_
      exact Nat.le_succ _
  · rw [if_neg pair]
    exact star c inside here bound

theorem pays_atom : Pays kept P n atom :=
  (pays_identifier _).bind fun _ => Copes.bind (copes_collect paces_mark) fun _ => .pure _ rfl

theorem pays_type : Pays kept P n parser := by
  refine pays_atom.bind fun first => Copes.bind (copes_collect ?_) fun more => .pure _ rfl
  refine copes_atIdentifier.bind fun b => ?_
  cases b with
  | true => exact pays_atom.step
  | false => exact paces_none

variable {l : Lexeme}

/-- With a star past the last lexeme, marks are read forever. -/
theorem mark_endless (h : l.token = .symbol .star) (limit : Nat) :
    collectWithin mark limit ⟨l, []⟩ = .error .endless := by
  refine collectWithin_endless (a := pointer) ?_ limit
  have seen : (Cursor.mk l []).current.token = .symbol .star := h
  have starred : eat (.symbol .star) ⟨l, []⟩ = .ok (true, ⟨l, []⟩) := by
    rw [eat_apply, if_pos seen]
    rfl
  rw [mark_apply, if_neg fun pair => by simp [seen] at pair, bind_of_ok starred]
  rfl

/-- With an identifier past the last lexeme, atoms are read forever. -/
theorem atom_endless {name : String} (h : l.token = .identifier name) (limit : Nat) :
    collectWithin (do if ← atIdentifier then return some (← atom) else return none) limit ⟨l, []⟩
      = .error .endless := by
  have seen : (Cursor.mk l []).current.token = .identifier name := h
  have there : atIdentifier ⟨l, []⟩ = .ok (true, ⟨l, []⟩) := by
    rw [atIdentifier, bind_of_ok (peek_apply _), seen]
    rfl
  have unmarked : mark ⟨l, []⟩ = .ok (none, ⟨l, []⟩) := by
    have left : eat (.symbol .star) ⟨l, []⟩ = .ok (false, ⟨l, []⟩) := by
      rw [eat_apply, if_neg fun star => by simp [seen] at star]
    rw [mark_apply, if_neg fun pair => by simp [seen] at pair, bind_of_ok left]
    rfl
  have named : identifier "type name" ⟨l, []⟩ = .ok (name, ⟨l, []⟩) := by
    rw [identifier, bind_of_ok (peek_apply _), seen]
    rfl
  have none : collect mark ⟨l, []⟩ = .ok ([], ⟨l, []⟩) := by
    show collectWithin mark 1 ⟨l, []⟩ = _
    rw [collectWithin, bind_of_ok unmarked]
    rfl
  refine collectWithin_endless (a := simple name) ?_ limit
  rw [bind_of_ok there]
  show (atom >>= _) _ = _
  rw [atom, bind_assoc, bind_of_ok named, bind_assoc, bind_of_ok none]
  rfl

end SemanticType

/-! ## Cursors in front of operands -/

/-- Past the last lexeme the cursor sees a symbol or a keyword. -/
def Cursor.Grounded (c : Cursor) : Prop :=
  c.ahead = [] → (∃ s, c.current.token = .symbol s) ∨ ∃ k, c.current.token = .keyword k

theorem Cursor.Past.grounded_symbol {s : Symbol} {c : Cursor} (h : c.Past (.symbol s)) :
    c.Grounded :=
  fun nil => .inl ⟨s, h.current nil⟩

theorem Cursor.Past.grounded_keyword {k : Keyword} {c : Cursor} (h : c.Past (.keyword k)) :
    c.Grounded :=
  fun nil => .inr ⟨k, h.current nil⟩

/-- A token that is neither a symbol nor a keyword is ahead of a grounded cursor. -/
theorem Parser.Pays.grounded {α : Type} {t : Token} {q : Parser α} (symbol : ∀ s, t ≠ .symbol s)
    (keyword : ∀ k, t ≠ .keyword k) (h : Copes kept (Past t) (n - 1) q) :
    Pays kept (fun c => c.Grounded ∧ c.current.token = t) n (advance >>= fun _ => q) := by
  refine .passing 1 (fun c _ grounded here _ => ?_) fun _ => h
  refine Nat.le_of_eq (Cursor.length_next fun nil => ?_)
  rcases grounded nil with ⟨s, seen⟩ | ⟨k, seen⟩
  · exact symbol s (here.symm.trans seen)
  · exact keyword k (here.symm.trans seen)

open Cursor (Grounded)

/-! ## Arithmetic -/

namespace Arithmetic

variable {operand : Parser Operand} {choices : List (Symbol × Operator)} {item : Parser Arithmetic}

theorem pays_negated : Pays kept Grounded n negated := by
  refine .peek fun t => ?_
  cases t with
  | integer | float => exact Pays.grounded (by simp) (by simp) (.pure _ rfl)
  | _ => exact .fail _

theorem pays_atom (ho : (¬Feeding kept → 1 ≤ n) → Pays kept Grounded (n - 1) operand) :
    Pays kept Grounded n (atom operand) := by
  refine .peek fun t => ?_
  cases t with
  | integer | float => exact Pays.grounded (by simp) (by simp) (.pure _ rfl)
  | symbol s =>
    cases s with
    | minus => exact .skipping (pays_negated.mono fun _ h => h.grounded_symbol)
    | _ => exact .fail _
  | identifier name =>
    refine Pays.feeding (.inl ⟨name, rfl⟩) fun room => .eat ?_ (.pure _ rfl)
    have first : Pays kept (Past (.symbol .openParen)) (n - 1) operand :=
      (ho room).mono fun _ h => h.grounded_symbol
    have later : Pays kept (Past (.symbol .comma)) (n - 1) operand :=
      (ho room).mono fun _ h => h.grounded_symbol
    exact (copes_inParens first later).bind fun operands => .pure _ rfl
  | eof => exact .place fun _ here => .reject here
  | _ => exact .fail _

theorem paces_signed (hi : Pays kept Grounded n item) : Paces kept P n (signed choices item) := by
  rw [signed_eq]
  refine .peek fun t => ?_
  cases t with
  | symbol sign =>
    dsimp only
    cases choices.lookup sign with
    | some operator => exact .skipping (Pays.step (hi.mono fun _ h => h.grounded_symbol))
    | none => exact paces_none
  | _ => exact paces_none

theorem pays_chain (hi : Pays kept Grounded n item) :
    Pays kept Grounded n (chain choices item) := by
  refine hi.bind fun first => ?_
  have step : Paces kept Anywhere (n - 1) (signed choices item) :=
    paces_signed (hi.within (Nat.sub_le n 1))
  exact Copes.bind (copes_collect step) fun more => .pure _ rfl

theorem pays_sum (ho : (¬Feeding kept → 1 ≤ n) → Pays kept Grounded (n - 1) operand) :
    Pays kept Grounded n (sum operand) :=
  pays_chain (pays_chain (pays_atom ho))

end Arithmetic

/-! ## Logic -/

variable {contract : Parser Contract} {operand : Parser Operand}

theorem Operand.pays_parserWith
    (hc : (¬Feeding kept → 1 ≤ n) → Pays kept Grounded (n - 1) contract)
    (ho : (¬Feeding kept → 1 ≤ n) → Pays kept Grounded (n - 1) operand) :
    Pays kept Grounded n (Operand.parserWith contract operand) := by
  have sum : Pays kept Grounded n (do return Operand.arithmetic (← Arithmetic.sum operand)) :=
    (Arithmetic.pays_sum ho).map
  refine .peek fun t => ?_
  cases t with
  | literal value => exact Pays.grounded (by simp) (by simp) (.pure _ rfl)
  | symbol s =>
    cases s with
    | openParen =>
      refine Pays.feeding (.inr (.inr rfl)) fun room => ?_
      refine Copes.bind ((hc room).copes.mono fun _ h => h.grounded_symbol) fun inner => ?_
      exact .expect (.pure _ rfl)
    | _ => exact sum.mono fun _ h => h.1
  | _ => exact sum.mono fun _ h => h.1

namespace Term

theorem copes_continued (ho : Pays kept Grounded n operand) (left : Operand) (inverted : Bool) :
    Copes kept P n (continued operand left inverted) := by
  refine .peek fun t => ?_
  cases found : Comparison.ofToken? t with
  | none => exact .pure _ rfl
  | some sign =>
    cases t with
    | symbol s =>
      refine .skipping (Copes.bind (ho.copes.mono fun _ h => h.grounded_symbol) fun right => ?_)
      exact .pure _ rfl
    | _ => cases found

theorem pays_parserWith (ho : Pays kept Grounded n operand) :
    Pays kept Grounded n (parserWith operand) := by
  have term : ∀ inverted, Pays kept Grounded n
      (do
        let left ← operand
        continued operand left inverted) :=
    fun inverted => ho.bind fun left => copes_continued (ho.within (Nat.sub_le n 1)) left inverted
  exact .eat ((term true).mono fun _ h => h.grounded_symbol) (term false)

end Term

namespace Clause

theorem copes_continued (ho : Pays kept Grounded n operand) (first : Term) :
    Copes kept P n (continued operand first) := by
  have more : Pays kept (Past (.symbol .bar)) n (Term.parserWith operand) :=
    (Term.pays_parserWith ho).mono fun _ h => h.grounded_symbol
  exact Copes.bind (copes_afterEach more) fun terms => .pure _ rfl

theorem copes_isExtended : Copes kept P n isExtended :=
  .peek fun _ => .pure _ rfl

theorem copes_behindGroup (ho : Pays kept Grounded n operand) (inner : Contract)
    (extended : Bool) : Copes kept P n (behindGroup operand inner extended) := by
  rcases single_or_goesOn inner extended with ⟨terms, rfl, rfl⟩ | longer
  · exact .pure _ rfl
  · rw [behindGroup_eq longer]
    exact Copes.bind (Term.copes_continued ho _ _) fun first => copes_continued ho first

theorem pays_parserWith (hc : (¬Feeding kept → 1 ≤ n) → Pays kept Grounded (n - 1) contract)
    (ho : Pays kept Grounded n operand) :
    Pays kept Grounded n (parserWith contract operand) := by
  have terms : Pays kept Grounded n
      (do
        let first ← Term.parserWith operand
        continued operand first) :=
    (Term.pays_parserWith ho).bind fun first => copes_continued (ho.within (Nat.sub_le n 1)) first
  have group : (¬Feeding kept → 1 ≤ n) → Pays kept (Past (.symbol .openParen)) (n - 1)
      (do
        let inner ← contract
        expect (.symbol .closeParen) "')'"
        behindGroup operand inner (← isExtended)) := by
    intro room
    refine ((hc room).mono fun _ h => h.grounded_symbol).bind fun inner => .expect ?_
    refine Copes.bind copes_isExtended fun extended => ?_
    exact copes_behindGroup (ho.within (by omega)) inner extended
  intro c inside grounded bound
  rw [parserWith_apply]
  by_cases front : c.current.token = .symbol .bang ∧ c.second.token = .symbol .openParen
  · rw [if_pos front]
    obtain ⟨behind, _ | ⟨l, _ | ⟨m, rest⟩⟩⟩ := c
    -- one lexeme is not both tokens
    · exact absurd (front.1.symm.trans front.2) (by simp)
    · exact absurd (front.1.symm.trans front.2) (by simp)
    · have length : ¬Feeding kept → rest.length + 2 ≤ n := bound
      have outcome := group (fun starved => by have := length starved; omega) ⟨m, rest⟩
        inside.next.next front.2 fun starved => by have := length starved; show rest.length ≤ _; omega
      exact outcome.lift fun _ _ => by show rest.length + 1 ≤ rest.length + 2 + 1; omega
  · rw [if_neg front]
    exact terms c inside grounded bound

end Clause

namespace Contract

theorem pays_parserWith (hc : (¬Feeding kept → 1 ≤ n) → Pays kept Grounded (n - 1) contract)
    (ho : Pays kept Grounded n operand) : Pays kept Grounded n (parserWith contract operand) := by
  have clause : Pays kept Grounded n (Clause.parserWith contract operand) :=
    Clause.pays_parserWith hc ho
  exact (pays_separated clause (clause.mono fun _ h => h.grounded_symbol)).map

/-- A depth of two for each lexeme ahead is enough, unless groups are opened again and again. -/
theorem pays_contractAt (depth : Nat) :
    (∀ n, (¬Feeding kept → 2 * n + 2 ≤ depth) → Pays kept Grounded n (contractAt depth))
    ∧ ∀ n, (¬Feeding kept → 2 * n + 1 ≤ depth) → Pays kept Grounded n (operandAt depth) := by
  induction depth with
  | zero =>
    have fed : ∀ {b : Nat}, (¬Feeding kept → b + 1 ≤ 0) → Feeding kept :=
      fun enough => Classical.not_not.1 fun starved => Nat.not_succ_le_zero _ (enough starved)
    exact ⟨fun n enough _ _ _ _ => .error (.inr (.inr ⟨rfl, fed enough⟩)),
      fun n enough _ _ _ _ => .error (.inr (.inr ⟨rfl, fed enough⟩))⟩
  | succ depth ih =>
    obtain ⟨contracts, operands⟩ := ih
    constructor
    · intro n enough
      refine pays_parserWith (fun room => contracts (n - 1) fun starved => ?_)
        (operands n fun starved => ?_)
      · have := room starved
        have := enough starved
        omega
      · have := enough starved
        omega
    · intro n enough
      refine Operand.pays_parserWith (fun room => contracts (n - 1) fun starved => ?_)
        fun room => operands (n - 1) fun starved => ?_
      · have := room starved
        have := enough starved
        omega
      · have := room starved
        have := enough starved
        omega

theorem pays_contract : Pays kept Grounded n parser := by
  intro c inside grounded _
  exact (pays_contractAt (2 * c.ahead.length + 2)).1 c.ahead.length (fun _ => Nat.le_refl _) c inside
    grounded fun _ => Nat.le_refl _

/-- With an opening parenthesis past the last lexeme, groups are opened at every depth. -/
theorem contractAt_endless {l : Lexeme} (h : l.token = .symbol .openParen) (depth : Nat) :
    contractAt depth ⟨l, []⟩ = .error .endless ∧ operandAt depth ⟨l, []⟩ = .error .endless := by
  have seen : (Cursor.mk l []).current.token = .symbol .openParen := h
  induction depth with
  | zero => exact ⟨rfl, rfl⟩
  | succ depth ih =>
    obtain ⟨contract, operand⟩ := ih
    constructor
    · have left : eat (.symbol .bang) ⟨l, []⟩ = .ok (false, ⟨l, []⟩) := by
        rw [eat_apply, if_neg fun bang => by simp [seen] at bang]
      have term : Term.parserWith (operandAt depth) ⟨l, []⟩ = .error .endless := by
        rw [Term.parserWith, bind_of_ok left]
        exact bind_of_error operand
      have clause : Clause.parserWith (contractAt depth) (operandAt depth) ⟨l, []⟩
          = .error .endless := by
        rw [Clause.parserWith_apply, if_neg fun front => by simp [seen] at front]
        exact bind_of_error term
      exact bind_of_error (bind_of_error clause)
    · show Operand.parserWith (contractAt depth) (operandAt depth) ⟨l, []⟩ = _
      rw [Operand.parserWith, bind_of_ok (peek_apply _), seen]
      exact (bind_of_ok (advance_apply _)).trans (bind_of_error contract)

end Contract
end LibrarySpec
