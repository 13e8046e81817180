/-
  The written form of contracts.

  Operators stand between single spaces.  Parentheses are written for groups, calls and inverted
  clauses only: arithmetic is written flat, so a product of sums cannot be told from a sum of
  products, and only contracts in the shape that parsing gives read back as they were.
-/
import LibrarySpec.Contract.Basic
import LibrarySpec.Text.Quoted

namespace LibrarySpec

mutual

/-- The text of a contract. -/
def Contract.print : Contract → String
  | .all clauses => " & ".intercalate (Clause.printList clauses)

/-- The texts of clauses. -/
def Clause.printList : List Clause → List String
  | [] => []
  | c :: rest => Clause.print c :: Clause.printList rest

/-- The text of a clause. -/
def Clause.print : Clause → String
  | .any terms inverted =>
    let body := " | ".intercalate (Term.printList terms)
    if inverted then "!(" ++ body ++ ")" else body

/-- The texts of terms. -/
def Term.printList : List Term → List String
  | [] => []
  | t :: rest => Term.print t :: Term.printList rest

/-- The text of a term. -/
def Term.print : Term → String
  | .comparison left sign right inverted =>
    (if inverted then "!" else "") ++
      (Operand.print left ++ " " ++ sign.text ++ " " ++ Operand.print right)
  | .lone operand inverted => (if inverted then "!" else "") ++ Operand.print operand

/-- The text of an operand. -/
def Operand.print : Operand → String
  | .arithmetic value => Arithmetic.print value
  | .text value => Text.Quoted.write value
  | .group contract => "(" ++ Contract.print contract ++ ")"

/-- The texts of operands. -/
def Operand.printList : List Operand → List String
  | [] => []
  | o :: rest => Operand.print o :: Operand.printList rest

/-- The text of an arithmetic expression. -/
def Arithmetic.print : Arithmetic → String
  | .variableName name => name
  | .call name arguments => name ++ "(" ++ ", ".intercalate (Operand.printList arguments) ++ ")"
  | .number value => value.text
  | .binary operator left right =>
    Arithmetic.print left ++ " " ++ operator.text ++ " " ++ Arithmetic.print right

end

end LibrarySpec
