/-
  The grammar of library specifications, as derivation trees.

      start       ::= 'library' name ';' sections eof
      sections    ::= ('import' dotted ';')* ('include' dotted ';')* types automaton* converters?
                      function*
      types       ::= 'types' '{' (type '(' text ')' ';')* '}'
      automaton   ::= 'automaton' type '{' item* '}'
      item        ::= ('extendable' | 'javapackage' dotted | 'var' name ':' type | 'states' names
                      | 'finishstate' name | 'shift' name '->' name '(' names ')') ';'
      converters  ::= 'converters' '{' (type '<' '-' text ';')* '}'
      function    ::= atom* name '(' arguments? ')' ('requires' contract)? ('ensures' contract)?
                      (':' mark* type)? '{' property* '}'
      argument    ::= mark* name ':' type                      mark ::= '@' name
      property    ::= ('action' name '(' names? ')' | 'static' name? | 'property' name '=' text
                      | name '=' 'new' type '(' names? ')') ';'
      type        ::= atom type?                               atom ::= name ('[' ']' | '*')*
      contract    ::= disjunction ('&' disjunction)*
      disjunction ::= '!' '(' disjunction ')' | term ('|' term)*
      term        ::= '!'? part (compare part)?
      part        ::= string | '(' contract ')' | sum
      sum         ::= product (('+' | '-') product)*
      product     ::= factor (('*' | '/') factor)*
      factor      ::= number | '-' number | name '(' parts? ')' | name

  A tree type stands for each nonterminal.  Every tree has

    1. its leaves, the tokens it derives in order (`tokens` where no verbatim text can occur);
    2. its value, the part of a library that it means;
    3. where the grammar has side conditions, the predicate `Admissible`.

  Nothing here refers to a parser.  The one ambiguity of the grammar, a disjunction that starts with
  `!(`, is settled by the values: both derivations mean the same clause (`clauseOf`).
-/
import LibrarySpec.Library.Basic
import LibrarySpec.Parser

namespace LibrarySpec.Grammar

/-! ## Leaves

  Verbatim text is a leaf of its own: the run of tokens it stands for and the source text that the
  run spans. -/

/-- A leaf of a derivation tree. -/
inductive Leaf where
  | token (token : Token)
  | text (tokens : List Token) (source : String)

/-- The leaf of a symbol. -/
def sym (s : Symbol) : Leaf := .token (.symbol s)

/-- The leaf of a keyword. -/
def kw (k : Keyword) : Leaf := .token (.keyword k)

/-- The leaf of a name. -/
def ident (name : String) : Leaf := .token (.identifier name)

/-- Tokens as leaves. -/
def plain (tokens : List Token) : List Leaf := tokens.map .token

/-- The leaves that a list of lexemes spells. -/
inductive Spells : List Leaf → List Lexeme → Prop where
  | nil : Spells [] []
  | token (l : Lexeme) {leaves : List Leaf} {rest : List Lexeme} :
      Spells leaves rest → Spells (.token l.token :: leaves) (l :: rest)
  | text (run : List Lexeme) {leaves : List Leaf} {rest : List Lexeme} :
      Spells leaves rest →
      Spells (.text (run.map (·.token)) (String.ofList (Parser.spannedText run)) :: leaves)
        (run ++ rest)

/-- Items with a separator between them. -/
def separate {α : Type} (separator : Symbol) (leaves : α → List Leaf) : List α → List Leaf
  | [] => []
  | a :: rest => leaves a ++ rest.flatMap fun b => sym separator :: leaves b

/-- One or more items. -/
structure Chain (α : Type) where
  first : α
  rest : List α

/-- The items of a chain. -/
def Chain.toList {α : Type} (c : Chain α) : List α := c.first :: c.rest

/-- Names with a separator between them. -/
def names (separator : Symbol) (items : List String) : List Leaf :=
  separate separator (fun name => [ident name]) items

/-! ## Verbatim text -/

/-- Whether the token opens a bracket of any kind. -/
def opens (t : Token) : Prop :=
  t = .symbol .openParen ∨ t = .symbol .openBracket ∨ t = .symbol .openBrace

/-- Whether the token closes a bracket of any kind. -/
def closes (t : Token) : Prop :=
  t = .symbol .closeParen ∨ t = .symbol .closeBracket ∨ t = .symbol .closeBrace

instance (t : Token) : Decidable (opens t) := inferInstanceAs (Decidable (_ ∨ _ ∨ _))

instance (t : Token) : Decidable (closes t) := inferInstanceAs (Decidable (_ ∨ _ ∨ _))

/-- How many brackets are open behind a token when `depth` are open before it; the three kinds of
    bracket are counted together.  No token closes a bracket that is not open. -/
def depthPast (depth : Nat) (t : Token) : Option Nat :=
  if opens t then some (depth + 1)
  else if closes t then if depth = 0 then none else some (depth - 1)
  else some depth

/-- The run of tokens, entered `depth` brackets deep, ends outside all brackets, closes none that is
    not open, and has no stop symbol outside all brackets. -/
def Balanced (stop : Symbol) : Nat → List Token → Prop
  | depth, [] => depth = 0
  | depth, t :: rest =>
    ¬(depth = 0 ∧ t = .symbol stop) ∧ ∃ d, depthPast depth t = some d ∧ Balanced stop d rest

/-- Verbatim text: a run of tokens and the source text it spans. -/
structure RawText where
  tokens : List Token
  source : String

namespace RawText

/-- The leaf of verbatim text. -/
def leaf (r : RawText) : Leaf := .text r.tokens r.source

/-- The text is not empty and ends where the stop symbol first stands outside all brackets. -/
def EndsAt (r : RawText) (stop : Symbol) : Prop := r.tokens ≠ [] ∧ Balanced stop 0 r.tokens

end RawText

/-! ## Types -/

/-- An array or pointer mark. -/
inductive TypeMark where
  | array
  | pointer

namespace TypeMark

/-- The tokens of a mark. -/
def tokens : TypeMark → List Token
  | array => [.symbol .openBracket, .symbol .closeBracket]
  | pointer => [.symbol .star]

/-- The type that a mark makes of the type before it. -/
def wrap : TypeMark → SemanticType → SemanticType
  | array => .array
  | pointer => .pointer

end TypeMark

/-- A name and its marks; a mark binds to all that is before it. -/
structure TypeAtom where
  name : String
  marks : List TypeMark

namespace TypeAtom

/-- The tokens of an atom. -/
def tokens (a : TypeAtom) : List Token := .identifier a.name :: a.marks.flatMap TypeMark.tokens

/-- The type of an atom. -/
def type (a : TypeAtom) : SemanticType := a.marks.foldl (fun t m => m.wrap t) (.simple a.name)

/-- The leaves of an atom. -/
def leaves (a : TypeAtom) : List Leaf := plain a.tokens

end TypeAtom

/-- A type: adjacent atoms, nested to the right. -/
inductive TypeNode where
  | atom (a : TypeAtom)
  | adjacent (outer : TypeAtom) (inner : TypeNode)

namespace TypeNode

/-- The tokens of a type. -/
def tokens : TypeNode → List Token
  | atom a => a.tokens
  | adjacent outer inner => outer.tokens ++ inner.tokens

/-- The semantic type. -/
def type : TypeNode → SemanticType
  | atom a => a.type
  | adjacent outer inner => .generic outer.type inner.type

/-- The leaves of a type. -/
def leaves (t : TypeNode) : List Leaf := plain t.tokens

/-- The type of one or more adjacent atoms. -/
def ofAtoms : TypeAtom → List TypeAtom → TypeNode
  | a, [] => atom a
  | a, b :: rest => adjacent a (ofAtoms b rest)

end TypeNode

/-! ## Contracts -/

/-- The clause that terms joined by `|` mean.  A single inverted group with a single clause in it,
    itself not inverted, is that clause inverted. -/
def clauseOf : List Term → Clause
  | [.lone (.group (.all [.any inner false])) true] => .any inner true
  | terms => .any terms false

/-- The symbol of a comparison. -/
def comparisonSymbol : Comparison → Symbol
  | .equal => .equal
  | .notEqual => .notEqual
  | .lessEqual => .lessEqual
  | .greaterEqual => .greaterEqual
  | .less => .less
  | .greater => .greater

/-- A number as it is written, without a sign. -/
inductive Numeral where
  | int (value : Int64)
  | float (value : Binary64)

namespace Numeral

/-- The token of a numeral. -/
def token : Numeral → Token
  | int value => .integer value
  | float value => .float value

/-- The number. -/
def number : Numeral → Number
  | int value => .int value
  | float value => .float value

/-- The number behind a minus sign. -/
def negated : Numeral → Number
  | int value => .int (-value)
  | float value => .float (-value)

end Numeral

mutual

/-- Disjunctions joined by `&`. -/
inductive Conjunction where
  | mk (first : Disjunction) (rest : List Disjunction)

/-- A disjunction: inverted as a whole, or terms joined by `|`. -/
inductive Disjunction where
  | inverted (body : Disjunction)
  | terms (first : TermNode) (rest : List TermNode)

/-- A part standing alone or a comparison of two; a mark `!` may stand before it. -/
inductive TermNode where
  | lone (inverted : Bool) (part : PartNode)
  | comparison (inverted : Bool) (left : PartNode) (sign : Comparison) (right : PartNode)

/-- One side of a comparison. -/
inductive PartNode where
  | string (value : String)
  | group (inner : Conjunction)
  | sum (value : SumNode)

/-- Products joined by `+` and `-`, associated to the left. -/
inductive SumNode where
  | one (value : ProductNode)
  | plus (left : SumNode) (right : ProductNode)
  | minus (left : SumNode) (right : ProductNode)

/-- Factors joined by `*` and `/`, associated to the left. -/
inductive ProductNode where
  | one (value : FactorNode)
  | times (left : ProductNode) (right : FactorNode)
  | divide (left : ProductNode) (right : FactorNode)

/-- A number, a negative number, a call or a variable. -/
inductive FactorNode where
  | number (value : Numeral)
  | negative (value : Numeral)
  | call (name : String) (arguments : List PartNode)
  | variableName (name : String)

end

mutual

/-- The tokens of a conjunction. -/
def Conjunction.tokens : Conjunction → List Token
  | .mk first rest => first.tokens ++ Disjunction.tokensAfter rest

/-- The tokens of disjunctions with an ampersand before each. -/
def Disjunction.tokensAfter : List Disjunction → List Token
  | [] => []
  | d :: rest => .symbol .ampersand :: d.tokens ++ Disjunction.tokensAfter rest

/-- The tokens of a disjunction. -/
def Disjunction.tokens : Disjunction → List Token
  | .inverted body =>
    .symbol .bang :: .symbol .openParen :: body.tokens ++ [.symbol .closeParen]
  | .terms first rest => first.tokens ++ TermNode.tokensAfter rest

/-- The tokens of terms with a bar before each. -/
def TermNode.tokensAfter : List TermNode → List Token
  | [] => []
  | t :: rest => .symbol .bar :: t.tokens ++ TermNode.tokensAfter rest

/-- The tokens of a term. -/
def TermNode.tokens : TermNode → List Token
  | .lone inverted part => (if inverted then [.symbol .bang] else []) ++ part.tokens
  | .comparison inverted left sign right =>
    (if inverted then [.symbol .bang] else []) ++ left.tokens
      ++ .symbol (comparisonSymbol sign) :: right.tokens

/-- The tokens of a part. -/
def PartNode.tokens : PartNode → List Token
  | .string value => [.literal value]
  | .group inner => .symbol .openParen :: inner.tokens ++ [.symbol .closeParen]
  | .sum value => value.tokens

/-- The tokens of parts with a comma before each. -/
def PartNode.tokensAfter : List PartNode → List Token
  | [] => []
  | p :: rest => .symbol .comma :: p.tokens ++ PartNode.tokensAfter rest

/-- The tokens of parts with commas between them. -/
def PartNode.tokensOf : List PartNode → List Token
  | [] => []
  | p :: rest => p.tokens ++ PartNode.tokensAfter rest

/-- The tokens of a sum. -/
def SumNode.tokens : SumNode → List Token
  | .one value => value.tokens
  | .plus left right => left.tokens ++ .symbol .plus :: right.tokens
  | .minus left right => left.tokens ++ .symbol .minus :: right.tokens

/-- The tokens of a product. -/
def ProductNode.tokens : ProductNode → List Token
  | .one value => value.tokens
  | .times left right => left.tokens ++ .symbol .star :: right.tokens
  | .divide left right => left.tokens ++ .symbol .slash :: right.tokens

/-- The tokens of a factor. -/
def FactorNode.tokens : FactorNode → List Token
  | .number value => [value.token]
  | .negative value => [.symbol .minus, value.token]
  | .call name arguments =>
    .identifier name :: .symbol .openParen :: PartNode.tokensOf arguments ++ [.symbol .closeParen]
  | .variableName name => [.identifier name]

end

mutual

/-- The contract that a conjunction means. -/
def Conjunction.contract : Conjunction → Contract
  | .mk first rest => .all (first.clause :: Disjunction.clauses rest)

/-- The clauses that disjunctions mean. -/
def Disjunction.clauses : List Disjunction → List Clause
  | [] => []
  | d :: rest => d.clause :: Disjunction.clauses rest

/-- The clause that a disjunction means. -/
def Disjunction.clause : Disjunction → Clause
  | .inverted body => clauseOf [.lone (.group (.all [body.clause])) true]
  | .terms first rest => clauseOf (first.term :: TermNode.terms rest)

/-- The terms that nodes mean. -/
def TermNode.terms : List TermNode → List Term
  | [] => []
  | t :: rest => t.term :: TermNode.terms rest

/-- The term that a node means. -/
def TermNode.term : TermNode → Term
  | .lone inverted part => .lone part.operand inverted
  | .comparison inverted left sign right => .comparison left.operand sign right.operand inverted

/-- The operand that a part means. -/
def PartNode.operand : PartNode → Operand
  | .string value => .text value
  | .group inner => .group inner.contract
  | .sum value => .arithmetic value.arithmetic

/-- The operands that parts mean. -/
def PartNode.operands : List PartNode → List Operand
  | [] => []
  | p :: rest => p.operand :: PartNode.operands rest

/-- The value of a sum. -/
def SumNode.arithmetic : SumNode → Arithmetic
  | .one value => value.arithmetic
  | .plus left right => .binary .plus left.arithmetic right.arithmetic
  | .minus left right => .binary .minus left.arithmetic right.arithmetic

/-- The value of a product. -/
def ProductNode.arithmetic : ProductNode → Arithmetic
  | .one value => value.arithmetic
  | .times left right => .binary .times left.arithmetic right.arithmetic
  | .divide left right => .binary .divide left.arithmetic right.arithmetic

/-- The value of a factor. -/
def FactorNode.arithmetic : FactorNode → Arithmetic
  | .number value => .number value.number
  | .negative value => .number value.negated
  | .call name arguments => .call name (PartNode.operands arguments)
  | .variableName name => .variableName name

end

/-- The leaves of a contract. -/
def Conjunction.leaves (c : Conjunction) : List Leaf := plain c.tokens

/-- The leaves of a disjunction. -/
def Disjunction.leaves (d : Disjunction) : List Leaf := plain d.tokens

/-- The leaves of a term. -/
def TermNode.leaves (t : TermNode) : List Leaf := plain t.tokens

/-- The leaves of a part. -/
def PartNode.leaves (p : PartNode) : List Leaf := plain p.tokens

/-- The leaves of a sum. -/
def SumNode.leaves (s : SumNode) : List Leaf := plain s.tokens

/-- The leaves of a product. -/
def ProductNode.leaves (p : ProductNode) : List Leaf := plain p.tokens

/-- The leaves of a factor. -/
def FactorNode.leaves (f : FactorNode) : List Leaf := plain f.tokens

end LibrarySpec.Grammar
