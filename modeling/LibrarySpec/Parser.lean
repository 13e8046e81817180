/-
  Parsing of lexeme streams.

  A `Parser` walks a `Cursor` along a list of lexemes and either answers or fails with a `Fault`.
  The lexemes scanned from a text end with an end of input, which no parser passes, so the cursor
  never leaves such a list.  Of a list without that end the last lexeme is seen again and again once
  it has been passed; an empty list shows the end of an empty input.

    1. `peek`, `eat`, `expect` and `identifier` look at the lexeme under the cursor.
    2. `collect` repeats a step until it answers `none`, `separated` reads a list with separators.
       Every step of theirs passes a lexeme, so a step for every lexeme ahead and one more is
       enough; a stream that still goes on is `endless`.
    3. `verbatim` reads text whose tokens have no meaning here, up to a stop symbol.
-/
import LibrarySpec.Token.Scan

namespace LibrarySpec

open Text (Position)

/-! ## Cursors -/

/-- A place in a list of lexemes. -/
structure Cursor where
  /-- The lexeme passed last; the end of an empty input before any. -/
  behind : Lexeme
  ahead : List Lexeme
deriving DecidableEq

namespace Cursor

/-- The start of a list. -/
def ofList (lexemes : List Lexeme) : Cursor := ⟨.nothing, lexemes⟩

/-- The lexeme under the cursor. -/
def current (c : Cursor) : Lexeme := c.ahead.headD c.behind

/-- The lexeme after the one under the cursor. -/
def second (c : Cursor) : Lexeme := (c.ahead.drop 1).headD c.current

/-- The cursor one lexeme further on. -/
def next (c : Cursor) : Cursor :=
  match c.ahead with
  | [] => c
  | l :: rest => ⟨l, rest⟩

end Cursor

/-- A computation that walks a cursor. -/
abbrev Parser (α : Type) := StateT Cursor (Except Fault) α

namespace Parser

/-! ## Single lexemes -/

/-- The token under the cursor. -/
def peek : Parser Token := do return (← get).current.token

/-- The token after the one under the cursor. -/
def peekSecond : Parser Token := do return (← get).second.token

/-- The place of the lexeme under the cursor. -/
def place : Parser Position := do return (← get).current.start

/-- Passes a lexeme. -/
def advance : Parser Unit := modify Cursor.next

/-- Whether this token is under the cursor. -/
def check (token : Token) : Parser Bool := do return (← peek) = token

/-- Whether an identifier is under the cursor. -/
def atIdentifier : Parser Bool := do
  match ← peek with
  | .identifier _ => return true
  | _ => return false

/-- Fails on a syntax fault. -/
def reject {α : Type} (fault : SyntaxFault) : Parser α := throw (.syntactic fault)

/-- Fails because something else was wanted here. -/
def fail {α : Type} (wanted : String) : Parser α := do
  reject (.unexpected wanted (← peek) (← place))

/-- Passes this token if it is under the cursor. -/
def eat (token : Token) : Parser Bool := do
  if ← check token then
    advance
    return true
  else
    return false

/-- Passes this token, which has to be under the cursor. -/
def expect (token : Token) (wanted : String) : Parser Unit := do
  if ← eat token then return () else fail wanted

/-- Passes an identifier, which has to be under the cursor. -/
def identifier (wanted : String) : Parser String := do
  match ← peek with
  | .identifier name =>
    advance
    return name
  | _ => fail wanted

/-! ## Repetition -/

/-- Repeats a step until it answers `none`, fewer than `limit` times. -/
def collectWithin {α : Type} (step : Parser (Option α)) : (limit : Nat) → Parser (List α)
  | 0 => throw .endless
  | limit + 1 => do
    match ← step with
    | none => return []
    | some a => return a :: (← collectWithin step limit)

/-- Repeats a step until it answers `none`. -/
def collect {α : Type} (step : Parser (Option α)) : Parser (List α) := do
  collectWithin step ((← get).ahead.length + 1)

/-- Repeats an item as long as its first token is under the cursor; the token is passed. -/
def afterEach {α : Type} (opening : Token) (item : Parser α) : Parser (List α) :=
  collect do
    if ← eat opening then return some (← item) else return none

/-- Repeats an item up to a closing token; that token is passed. -/
def upTo {α : Type} (closing : Token) (item : Parser α) : Parser (List α) :=
  collect do
    if ← eat closing then return none else return some (← item)

/-- One or more items with separators between them. -/
def separated {α : Type} (separator : Token) (item : Parser α) : Parser (List α) := do
  let first ← item
  return first :: (← afterEach separator item)

/-- Items with separators between them, in parentheses; there may be none. -/
def inParens {α : Type} (item : Parser α) (closing : String) : Parser (List α) := do
  if ← check (.symbol .closeParen) then
    advance
    return []
  else
    let items ← separated (.symbol .comma) item
    expect (.symbol .closeParen) closing
    return items

/-! ## Verbatim text -/

/-- How verbatim text goes on over a lexeme, `depth` brackets deep: `none` if it stops before it,
    otherwise the depth after it.  The three kinds of bracket are counted together. -/
def depthAfter (stop : Symbol) (wanted : String) (depth : Nat) (l : Lexeme) :
    Except Fault (Option Nat) :=
  if l.token = .eof then
    .error (.syntactic (.unexpected ("'" ++ stop.text ++ "'") .eof l.start))
  else if depth = 0 ∧ l.token = .symbol stop then .ok none
  else
    match l.token with
    | .symbol .openParen | .symbol .openBracket | .symbol .openBrace => .ok (some (depth + 1))
    | .symbol .closeParen | .symbol .closeBracket | .symbol .closeBrace =>
      if depth = 0 then .error (.syntactic (.unexpected wanted l.token l.start))
      else .ok (some (depth - 1))
    | _ => .ok (some depth)

/-- The lexemes up to the first stop symbol outside all brackets, and the cursor before it. -/
def lexemesTo (stop : Symbol) (wanted : String) (depth : Nat) (behind : Lexeme) :
    List Lexeme → Except Fault (List Lexeme × Cursor)
  | [] =>
    match depthAfter stop wanted depth behind with
    | .error fault => .error fault
    | .ok none => .ok ([], ⟨behind, []⟩)
    | .ok (some _) => .error .overrun
  | l :: rest =>
    match depthAfter stop wanted depth l with
    | .error fault => .error fault
    | .ok none => .ok ([], ⟨behind, l :: rest⟩)
    | .ok (some depth) =>
      (lexemesTo stop wanted depth l rest).map fun (passed, c) => (l :: passed, c)

/-- The source text that lexemes span, from the first spelling to the last. -/
def spannedText : List Lexeme → List Char
  | [] => []
  | l :: rest => l.text ++ rest.flatMap fun l => l.gap ++ l.text

/-- The source text up to the first stop symbol outside all brackets, which is not passed.  Brackets
    nest; the text may not be empty and may not close a bracket that it did not open. -/
def verbatim (stop : Symbol) (wanted : String) : Parser String := fun c =>
  match lexemesTo stop wanted 0 c.behind c.ahead with
  | .error fault => .error fault
  | .ok (passed, c') =>
    let text := Text.trim (spannedText passed)
    if text.isEmpty then .error (.syntactic (.emptyText wanted c.current.start))
    else .ok (String.ofList text, c')

/-- The answer of a parser on a list of lexemes. -/
def onLexemes {α : Type} (parser : Parser α) (lexemes : List Lexeme) : Except Fault α :=
  (parser.run (.ofList lexemes)).map (·.1)

end Parser
end LibrarySpec
