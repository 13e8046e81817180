/-
  Contracts: the conditions behind `requires` and `ensures`.

  The nodes, loosest first:

    1. `Contract`: clauses joined by `&`;
    2. `Clause`: terms joined by `|`, the whole possibly inverted, `!(a | b)`;
    3. `Term`: a comparison of two operands or one operand standing alone, possibly inverted;
    4. `Operand`: arithmetic, a string, or a contract in parentheses;
    5. `Arithmetic`: numbers, variables and calls under `+ -` and `* /`.

  A number is an integer of 64 bits or a floating-point number; the two kinds are never equal, and
  floating-point numbers compare as numbers.  `==` on every node follows from that.
-/
import LibrarySpec.Fault

namespace LibrarySpec

/-! ## Operators -/

/-- How a comparison compares. -/
inductive Comparison where
  | equal
  | notEqual
  | lessEqual
  | greaterEqual
  | less
  | greater
deriving BEq, DecidableEq, Repr

namespace Comparison

/-- The spelling of a comparison. -/
def text : Comparison → String
  | equal => "=="
  | notEqual => "!="
  | lessEqual => "<="
  | greaterEqual => ">="
  | less => "<"
  | greater => ">"

/-- Every comparison. -/
def all : List Comparison := [equal, notEqual, lessEqual, greaterEqual, less, greater]

/-- The comparison with this spelling. -/
def ofText (text : String) : Except Fault Comparison :=
  match all.find? fun c => c.text = text with
  | some c => .ok c
  | none => .error (.unknownOperator text)

/-- The comparison that a token stands for. -/
def ofToken? : Token → Option Comparison
  | .symbol .equal => some equal
  | .symbol .notEqual => some notEqual
  | .symbol .lessEqual => some lessEqual
  | .symbol .greaterEqual => some greaterEqual
  | .symbol .less => some less
  | .symbol .greater => some greater
  | _ => none

end Comparison

/-- The arithmetic operators. -/
inductive Operator where
  | times
  | divide
  | plus
  | minus
deriving BEq, DecidableEq, Repr

namespace Operator

/-- The spelling of an operator. -/
def text : Operator → String
  | times => "*"
  | divide => "/"
  | plus => "+"
  | minus => "-"

/-- Every operator. -/
def all : List Operator := [times, divide, plus, minus]

/-- The operator with this spelling. -/
def ofText (text : String) : Except Fault Operator :=
  match all.find? fun o => o.text = text with
  | some o => .ok o
  | none => .error (.unknownOperator text)

end Operator

/-! ## Numbers -/

/-- A number in a contract. -/
inductive Number where
  | int (value : Int64)
  | float (value : Binary64)
deriving DecidableEq

namespace Number

/-- Equality as numbers of one kind. -/
def same : Number → Number → Bool
  | int a, int b => a == b
  | float x, float y => x == y
  | _, _ => false

instance : BEq Number := ⟨same⟩

/-- The written form.  A finite floating-point number always has a point. -/
def text : Number → String
  | int value => toString value.toInt
  | float value => Notation.pointed.text value

end Number

/-! ## Nodes -/

mutual

/-- A conjunction of clauses. -/
inductive Contract where
  | all (clauses : List Clause)

/-- A disjunction of terms, or its opposite. -/
inductive Clause where
  | any (terms : List Term) (inverted : Bool)

/-- A comparison or a lone operand, or its opposite. -/
inductive Term where
  | comparison (left : Operand) (sign : Comparison) (right : Operand) (inverted : Bool)
  | lone (operand : Operand) (inverted : Bool)

/-- One side of a comparison. -/
inductive Operand where
  | arithmetic (value : Arithmetic)
  | text (value : String)
  /-- A contract in parentheses. -/
  | group (contract : Contract)

/-- An arithmetic expression. -/
inductive Arithmetic where
  | variableName (name : String)
  | call (name : String) (arguments : List Operand)
  | number (value : Number)
  | binary (operator : Operator) (left right : Arithmetic)

end

/-- The clauses of a contract. -/
def Contract.clauses : Contract → List Clause
  | .all clauses => clauses

/-- The terms of a clause. -/
def Clause.terms : Clause → List Term
  | .any terms _ => terms

/-- Whether a clause is inverted. -/
def Clause.inverted : Clause → Bool
  | .any _ inverted => inverted

/-- Whether a term is inverted. -/
def Term.inverted : Term → Bool
  | .comparison _ _ _ inverted => inverted
  | .lone _ inverted => inverted

namespace Operand

/-- The name, if the operand is a variable. -/
def variableName? : Operand → Option String
  | arithmetic (.variableName name) => some name
  | _ => none

/-- The name and the arguments, if the operand is a call. -/
def call? : Operand → Option (String × List Operand)
  | arithmetic (.call name arguments) => some (name, arguments)
  | _ => none

/-- The number, if the operand is one. -/
def number? : Operand → Option Number
  | arithmetic (.number value) => some value
  | _ => none

end Operand

/-! ## Equality -/

mutual

/-- Equality of contracts. -/
def Contract.same : Contract → Contract → Bool
  | .all a, .all b => Clause.sameList a b

/-- Equality of lists of clauses. -/
def Clause.sameList : List Clause → List Clause → Bool
  | [], [] => true
  | a :: as, b :: bs => Clause.same a b && Clause.sameList as bs
  | _, _ => false

/-- Equality of clauses. -/
def Clause.same : Clause → Clause → Bool
  | .any a i, .any b j => Term.sameList a b && i == j

/-- Equality of lists of terms. -/
def Term.sameList : List Term → List Term → Bool
  | [], [] => true
  | a :: as, b :: bs => Term.same a b && Term.sameList as bs
  | _, _ => false

/-- Equality of terms. -/
def Term.same : Term → Term → Bool
  | .comparison l s r i, .comparison l' s' r' i' =>
    Operand.same l l' && s == s' && Operand.same r r' && i == i'
  | .lone a i, .lone b j => Operand.same a b && i == j
  | _, _ => false

/-- Equality of operands. -/
def Operand.same : Operand → Operand → Bool
  | .arithmetic a, .arithmetic b => Arithmetic.same a b
  | .text a, .text b => a == b
  | .group a, .group b => Contract.same a b
  | _, _ => false

/-- Equality of lists of operands. -/
def Operand.sameList : List Operand → List Operand → Bool
  | [], [] => true
  | a :: as, b :: bs => Operand.same a b && Operand.sameList as bs
  | _, _ => false

/-- Equality of arithmetic expressions. -/
def Arithmetic.same : Arithmetic → Arithmetic → Bool
  | .variableName a, .variableName b => a == b
  | .call a as, .call b bs => a == b && Operand.sameList as bs
  | .number a, .number b => a == b
  | .binary o l r, .binary o' l' r' => o == o' && Arithmetic.same l l' && Arithmetic.same r r'
  | _, _ => false

end

instance : BEq Contract := ⟨Contract.same⟩

/-! ## Variables -/

mutual

/-- The variables of a contract, as often as they stand in it. -/
def Contract.mentions : Contract → List String
  | .all clauses => Clause.mentionsList clauses

/-- The variables of a list of clauses. -/
def Clause.mentionsList : List Clause → List String
  | [] => []
  | c :: rest => Clause.mentions c ++ Clause.mentionsList rest

/-- The variables of a clause. -/
def Clause.mentions : Clause → List String
  | .any terms _ => Term.mentionsList terms

/-- The variables of a list of terms. -/
def Term.mentionsList : List Term → List String
  | [] => []
  | t :: rest => Term.mentions t ++ Term.mentionsList rest

/-- The variables of a term. -/
def Term.mentions : Term → List String
  | .comparison left _ right _ => Operand.mentions left ++ Operand.mentions right
  | .lone operand _ => Operand.mentions operand

/-- The variables of an operand. -/
def Operand.mentions : Operand → List String
  | .arithmetic value => Arithmetic.mentions value
  | .text _ => []
  | .group contract => Contract.mentions contract

/-- The variables of a list of operands. -/
def Operand.mentionsList : List Operand → List String
  | [] => []
  | o :: rest => Operand.mentions o ++ Operand.mentionsList rest

/-- The variables of an arithmetic expression. -/
def Arithmetic.mentions : Arithmetic → List String
  | .variableName name => [name]
  | .call _ arguments => Operand.mentionsList arguments
  | .number _ => []
  | .binary _ left right => Arithmetic.mentions left ++ Arithmetic.mentions right

end

/-- The variables of a contract, each once, in order of first mention. -/
def Contract.variableNames (contract : Contract) : List String :=
  contract.mentions.foldl (fun found name => if found.contains name then found else found ++ [name])
    []

end LibrarySpec
