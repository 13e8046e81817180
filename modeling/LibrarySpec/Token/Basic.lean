/-
  Tokens of the specification language.

  A token is a keyword, a symbol, a literal, an identifier, a piece of foreign text, or the end of
  the input.  Foreign text is a character with no meaning in the language, or a run in single
  quotes; only verbatim text (a code type, a converter expression, a property value) takes it in.

  Keywords and symbols have a fixed spelling each: `Keyword.text` and `Symbol.text`.  `describe`
  names a token in an error message.
-/
import LibrarySpec.Decimal.Notation

namespace LibrarySpec

/-! ## Keywords -/

/-- The reserved words. -/
inductive Keyword where
  | library
  | importName
  | includeName
  | types
  | automaton
  | javaPackage
  | extendable
  | states
  | finishState
  | shift
  | var
  | converters
  | requires
  | ensures
  | static
  | action
  | property
  | new
deriving DecidableEq, Repr

namespace Keyword

/-- The spelling of a keyword. -/
def text : Keyword → String
  | library => "library"
  | importName => "import"
  | includeName => "include"
  | types => "types"
  | automaton => "automaton"
  | javaPackage => "javapackage"
  | extendable => "extendable"
  | states => "states"
  | finishState => "finishstate"
  | shift => "shift"
  | var => "var"
  | converters => "converters"
  | requires => "requires"
  | ensures => "ensures"
  | static => "static"
  | action => "action"
  | property => "property"
  | new => "new"

/-- Every keyword. -/
def all : List Keyword :=
  [library, importName, includeName, types, automaton, javaPackage, extendable, states, finishState,
   shift, var, converters, requires, ensures, static, action, property, new]

/-- The keyword with this spelling. -/
def ofText? (word : String) : Option Keyword :=
  all.find? fun k => k.text = word

/-- A keyword is found by its spelling. -/
theorem ofText?_text (k : Keyword) : ofText? k.text = some k := by
  cases k <;> decide

end Keyword

/-! ## Symbols -/

/-- Operators and punctuation. -/
inductive Symbol where
  | equal
  | notEqual
  | lessEqual
  | greaterEqual
  | less
  | greater
  | star
  | slash
  | plus
  | minus
  | ampersand
  | bar
  | bang
  | openBrace
  | closeBrace
  | openBracket
  | closeBracket
  | openParen
  | closeParen
  | semicolon
  | colon
  | comma
  | dot
  | atSign
  | assign
  | arrow
deriving DecidableEq, Repr

namespace Symbol

/-- The spelling of a symbol. -/
def text : Symbol → String
  | equal => "=="
  | notEqual => "!="
  | lessEqual => "<="
  | greaterEqual => ">="
  | less => "<"
  | greater => ">"
  | star => "*"
  | slash => "/"
  | plus => "+"
  | minus => "-"
  | ampersand => "&"
  | bar => "|"
  | bang => "!"
  | openBrace => "\x7b"
  | closeBrace => "\x7d"
  | openBracket => "["
  | closeBracket => "]"
  | openParen => "("
  | closeParen => ")"
  | semicolon => ";"
  | colon => ":"
  | comma => ","
  | dot => "."
  | atSign => "@"
  | assign => "="
  | arrow => "->"

/-- Whether the symbol compares two operands. -/
def isComparison : Symbol → Bool
  | equal | notEqual | lessEqual | greaterEqual | less | greater => true
  | _ => false

/-- The symbol that two characters spell. -/
def ofPair? : Char → Char → Option Symbol
  | '-', '>' => some arrow
  | '=', '=' => some equal
  | '!', '=' => some notEqual
  | '<', '=' => some lessEqual
  | '>', '=' => some greaterEqual
  | _, _ => none

/-- The symbol that one character spells. -/
def ofChar? : Char → Option Symbol
  | '<' => some less
  | '>' => some greater
  | '*' => some star
  | '/' => some slash
  | '+' => some plus
  | '-' => some minus
  | '&' => some ampersand
  | '|' => some bar
  | '!' => some bang
  | '\x7b' => some openBrace
  | '\x7d' => some closeBrace
  | '[' => some openBracket
  | ']' => some closeBracket
  | '(' => some openParen
  | ')' => some closeParen
  | ';' => some semicolon
  | ':' => some colon
  | ',' => some comma
  | '.' => some dot
  | '@' => some atSign
  | '=' => some assign
  | _ => none

/-- The longest symbol at the start of a text, and the text after it. -/
def read? : List Char → Option (Symbol × List Char)
  | [] => none
  | [c] => (ofChar? c).map fun s => (s, [])
  | c :: d :: rest =>
    match ofPair? c d with
    | some s => some (s, rest)
    | none => (ofChar? c).map fun s => (s, d :: rest)

theorem text_of_ofPair? {c d : Char} {s : Symbol} (h : ofPair? c d = some s) :
    s.text.toList = [c, d] := by
  unfold ofPair? at h
  split at h <;> cases h <;> decide

theorem text_of_ofChar? {c : Char} {s : Symbol} (h : ofChar? c = some s) :
    s.text.toList = [c] := by
  unfold ofChar? at h
  split at h <;> cases h <;> decide

/-- What was read is the spelling of the symbol and what follows it. -/
theorem text_append_of_read? {input rest : List Char} {s : Symbol}
    (h : read? input = some (s, rest)) : s.text.toList ++ rest = input := by
  unfold read? at h
  split at h
  · cases h
  · obtain ⟨s', hs, h⟩ := Option.map_eq_some_iff.1 h
    cases h
    simp [text_of_ofChar? hs]
  · split at h
    · rename_i hs
      cases h
      simp [text_of_ofPair? hs]
    · obtain ⟨s', hs, h⟩ := Option.map_eq_some_iff.1 h
      cases h
      simp [text_of_ofChar? hs]

end Symbol

/-! ## Tokens -/

/-- The units a specification is made of. -/
inductive Token where
  | keyword (word : Keyword)
  | symbol (sign : Symbol)
  /-- A string literal, with its value. -/
  | literal (value : String)
  | integer (value : Int64)
  | float (value : Binary64)
  | identifier (name : String)
  /-- Foreign text, as it is written. -/
  | other (text : String)
  | eof
deriving DecidableEq

namespace Token

/-- The spelling of a symbol. -/
def symbolText? : Token → Option String
  | symbol sign => some sign.text
  | _ => none

/-- Whether the token compares two operands. -/
def isComparison : Token → Bool
  | symbol sign => sign.isComparison
  | _ => false

/-- How a message names the token. -/
def describe : Token → String
  | keyword word => "keyword '" ++ word.text ++ "'"
  | symbol sign => "'" ++ sign.text ++ "'"
  | literal value => "string \"" ++ value ++ "\""
  | integer value => "integer " ++ toString value.toInt
  | float value => "float " ++ Notation.plain.text value
  | identifier name => "identifier '" ++ name ++ "'"
  | other text => "'" ++ text ++ "'"
  | eof => "end of input"

end Token
end LibrarySpec
