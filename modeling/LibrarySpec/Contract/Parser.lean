/-
  Parsing of contracts.

      contract := clause ('&' clause)*
      clause   := '!' '(' clause ')' | term ('|' term)*
      term     := '!'? operand (comparison operand)?
      operand  := string | '(' contract ')' | sum
      sum      := product (('+' | '-') product)*
      product  := atom (('*' | '/') atom)*
      atom     := number | '-' number | identifier '(' operands ')' | identifier

  A clause that starts with `!(` can be read in two ways.  It is an inverted clause if the
  parentheses hold exactly one clause, itself not inverted, and neither `|` nor a comparison
  follows; otherwise it starts with an inverted term whose operand is the group in parentheses.

  Contracts and operands contain each other.  The parsers below take the parsers of what is one
  level deeper as arguments, and `contractAt` and `operandAt` tie them together for a bounded depth.
  Every level passes a token, and at most two levels share one, so twice the number of tokens ahead
  bounds the depth.
-/
import LibrarySpec.Contract.Basic
import LibrarySpec.Parser

namespace LibrarySpec

open LibrarySpec.Parser

/-! ## Arithmetic -/

namespace Arithmetic

/-- A number after a unary minus. -/
def negated : Parser Arithmetic := do
  match ← peek with
  | .integer n =>
    advance
    return .number (.int (-n))
  | .float x =>
    advance
    return .number (.float (-x))
  | _ => fail "number after unary '-'"

/-- A number, a variable or a call. -/
def atom (operand : Parser Operand) : Parser Arithmetic := do
  match ← peek with
  | .integer n =>
    advance
    return .number (.int n)
  | .float x =>
    advance
    return .number (.float x)
  | .symbol .minus =>
    advance
    negated
  | .identifier name =>
    advance
    if ← eat (.symbol .openParen) then
      return .call name (← inParens operand "')' to close call")
    else
      return .variableName name
  | .eof => reject (.contractCut (← place))
  | _ => fail "contract expression"

/-- The operator under the cursor, if it is one of two; it is passed. -/
def operatorOf (choices : List (Symbol × Operator)) : Parser (Option Operator) := do
  match ← peek with
  | .symbol sign =>
    match choices.lookup sign with
    | some operator =>
      advance
      return some operator
    | none => return none
  | _ => return none

/-- Items joined by operators of one rank, associated to the left. -/
def chain (choices : List (Symbol × Operator)) (item : Parser Arithmetic) : Parser Arithmetic := do
  let first ← item
  let more ← collect do
    match ← operatorOf choices with
    | some operator => return some (operator, ← item)
    | none => return none
  return more.foldl (fun left (operator, right) => .binary operator left right) first

/-- Atoms under `*` and `/`. -/
def product (operand : Parser Operand) : Parser Arithmetic :=
  chain [(.star, .times), (.slash, .divide)] (atom operand)

/-- Products under `+` and `-`. -/
def sum (operand : Parser Operand) : Parser Arithmetic :=
  chain [(.plus, .plus), (.minus, .minus)] (product operand)

end Arithmetic

/-! ## Logic -/

/-- An operand, given the parsers of the contracts and operands inside it. -/
def Operand.parserWith (contract : Parser Contract) (operand : Parser Operand) :
    Parser Operand := do
  match ← peek with
  | .literal value =>
    advance
    return .text value
  | .symbol .openParen =>
    advance
    let inner ← contract
    expect (.symbol .closeParen) "')'"
    return .group inner
  | _ => return .arithmetic (← Arithmetic.sum operand)

namespace Term

/-- A term whose first operand is read already. -/
def continued (operand : Parser Operand) (left : Operand) (inverted : Bool) : Parser Term := do
  match Comparison.ofToken? (← peek) with
  | none => return .lone left inverted
  | some sign =>
    advance
    return .comparison left sign (← operand) inverted

/-- A term. -/
def parserWith (operand : Parser Operand) : Parser Term := do
  let inverted ← eat (.symbol .bang)
  let left ← operand
  continued operand left inverted

end Term

namespace Clause

/-- A clause whose first term is read already. -/
def continued (operand : Parser Operand) (first : Term) : Parser Clause := do
  let more ← afterEach (.symbol .bar) (Term.parserWith operand)
  return .any (first :: more) false

/-- Whether the token under the cursor makes a term or a clause go on. -/
def isExtended : Parser Bool := do
  let token ← peek
  return token = .symbol .bar || token.isComparison

/-- A clause, given the parsers of the contracts and operands inside it. -/
def parserWith (contract : Parser Contract) (operand : Parser Operand) : Parser Clause := do
  if (← check (.symbol .bang)) && (← peekSecond) = .symbol .openParen then
    advance
    advance
    let inner ← contract
    expect (.symbol .closeParen) "')'"
    match inner, ← isExtended with
    | .all [.any terms false], false => return .any terms true
    | inner, _ =>
      let first ← Term.continued operand (.group inner) true
      continued operand first
  else
    let first ← Term.parserWith operand
    continued operand first

end Clause

namespace Contract

/-- A contract, given the parsers of the contracts and operands inside it. -/
def parserWith (contract : Parser Contract) (operand : Parser Operand) : Parser Contract := do
  return .all (← separated (.symbol .ampersand) (Clause.parserWith contract operand))

mutual

/-- A contract at most `depth` levels deep. -/
def contractAt (depth : Nat) : Parser Contract := fun c =>
  match depth with
  | 0 => .error .endless
  | depth + 1 => parserWith (contractAt depth) (operandAt depth) c

/-- An operand at most `depth` levels deep. -/
def operandAt (depth : Nat) : Parser Operand := fun c =>
  match depth with
  | 0 => .error .endless
  | depth + 1 => Operand.parserWith (contractAt depth) (operandAt depth) c

end

/-- A contract. -/
def parser : Parser Contract := do
  contractAt (2 * (← get).ahead.length + 2)

end Contract
end LibrarySpec
