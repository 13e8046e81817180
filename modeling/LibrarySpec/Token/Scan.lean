/-
  Scanning: from the text of a specification to its tokens.

  A `Lexeme` is a token as it stands in a text: the gap before it, the token, its spelling, and the
  place where the spelling starts.  `scan` cuts a text into lexemes.  The last lexeme, and only the
  last, is the end of the input; its spelling is empty.  Put one after another, the gaps and the
  spellings of all lexemes give the text back.

    1. `Token.read` reads one token off the start of a text.  It knows nothing of places.
    2. `scanFrom` takes gaps and tokens in turn and keeps count of the place.
    3. `Defect` is what can be wrong inside a token; `Defect.locate` turns it into a fault with a
       place, given the place where the token starts.

  Identifiers and digits are ASCII.  An identifier starts with a letter or an underscore.
-/
import LibrarySpec.Fault
import LibrarySpec.Text.Quoted
import LibrarySpec.Token.Gap

namespace LibrarySpec

open Text (Position)

/-! ## One token -/

namespace Token

/-- What is wrong inside a token.  Two of the defects are seen in the middle of the token; they
    carry the text that follows the place where they are seen. -/
inductive Defect where
  | unterminatedComment
  | unterminatedString
  | unterminatedQuote
  | unterminatedEscape
  | invalidEscape (letter : Char) (rest : List Char)
  | integerOutOfRange (digits : List Char)

/-- The fault that a defect is, in a token that starts at `start` in front of `text`. -/
def Defect.locate (start : Position) (text : List Char) : Defect → SyntaxFault
  | unterminatedComment => .unterminatedComment start
  | unterminatedString => .unterminatedString start
  | unterminatedQuote => .unterminatedQuote start
  | unterminatedEscape => .unterminatedEscape (start.advance text)
  | invalidEscape letter rest =>
    .invalidEscape letter (start.advance (text.take (text.length - rest.length)))
  | integerOutOfRange digits => .integerOutOfRange (String.ofList digits) start

/-- Whether a character can start an identifier. -/
def isWordStart (c : Char) : Bool := c.isAlpha || c == '_'

/-- Whether a character can stand inside an identifier. -/
def isWordPart (c : Char) : Bool := c.isAlphanum || c == '_'

/-- The token that a word is. -/
def ofWord (word : String) : Token :=
  match Keyword.ofText? word with
  | some k => .keyword k
  | none => .identifier word

/-- The inside of a run in single quotes up to and with the closing quote, and the text after it.
    A backslash takes the next character with it, whatever that is; a bare line feed ends the text
    that a run may span. -/
def quoteEnd? : List Char → Option (List Char × List Char)
  | [] => none
  | '\n' :: _ => none
  | '\'' :: rest => some (['\''], rest)
  | ['\\'] => none
  | '\\' :: c :: rest => (quoteEnd? rest).map fun (inside, after) => ('\\' :: c :: inside, after)
  | c :: rest => (quoteEnd? rest).map fun (inside, after) => (c :: inside, after)

/-- The whole digits and the fraction digits at the start of a text, and the text after them.  A
    point belongs to a number only if a digit follows it. -/
def splitNumber (text : List Char) : List Char × Option (List Char) × List Char :=
  let whole := text.takeWhile Char.isDigit
  match text.dropWhile Char.isDigit with
  | '.' :: d :: rest =>
    if d.isDigit then
      (whole, some ((d :: rest).takeWhile Char.isDigit), (d :: rest).dropWhile Char.isDigit)
    else (whole, none, '.' :: d :: rest)
  | after => (whole, none, after)

/-- The number at the start of a text: the token, its spelling and the text after it. -/
def readNumber (text : List Char) : Except Defect (Token × List Char × List Char) :=
  match splitNumber text with
  | (whole, some fraction, after) =>
    .ok (.float ((Decimal.ofParts whole fraction).toBinary64 false), whole ++ '.' :: fraction, after)
  | (whole, none, after) =>
    if (Nat.ofDigitChars 10 whole 0 : Int) ≤ Int64.maxValue.toInt then
      .ok (.integer (.ofNat (Nat.ofDigitChars 10 whole 0)), whole, after)
    else .error (.integerOutOfRange whole)

/-- The token at the start of a text that begins with neither a blank nor a comment, its spelling,
    and the text after it. -/
def read (c : Char) (rest : List Char) : Except Defect (Token × List Char × List Char) :=
  if c = '"' then
    match Text.Quoted.read rest with
    | .ok (value, spelling, after) => .ok (.literal (String.ofList value), '"' :: spelling, after)
    | .error .unterminated => .error .unterminatedString
    | .error .unterminatedEscape => .error .unterminatedEscape
    | .error (.invalidEscape letter after) => .error (.invalidEscape letter after)
  else if c = '\'' then
    match quoteEnd? rest with
    | some (inside, after) => .ok (.other (String.ofList ('\'' :: inside)), '\'' :: inside, after)
    | none => .error .unterminatedQuote
  else if c.isDigit then readNumber (c :: rest)
  else if isWordStart c then
    let word := c :: rest.takeWhile isWordPart
    .ok (ofWord (String.ofList word), word, rest.dropWhile isWordPart)
  else if c = '/' ∧ rest.head? = some '*' then .error .unterminatedComment
  else
    match Symbol.read? (c :: rest) with
    | some (sign, after) => .ok (.symbol sign, sign.text.toList, after)
    | none => .ok (.other (String.ofList [c]), [c], rest)

theorem append_of_quoteEnd? {text inside after : List Char}
    (h : quoteEnd? text = some (inside, after)) : inside ++ after = text := by
  fun_induction quoteEnd? text generalizing inside with
  | case1 => cases h
  | case2 => cases h
  | case3 rest => cases h; rfl
  | case4 => cases h
  | case5 c rest ih =>
    obtain ⟨⟨i, a⟩, hi, h⟩ := Option.map_eq_some_iff.1 h
    cases h
    simp [ih hi]
  | case6 c rest _ _ _ _ ih =>
    obtain ⟨⟨i, a⟩, hi, h⟩ := Option.map_eq_some_iff.1 h
    cases h
    simp [ih hi]

/-- The parts of a number and the text after it make up the text. -/
theorem append_splitNumber (text : List Char) :
    (splitNumber text).1
      ++ ((splitNumber text).2.1.elim [] ('.' :: ·)) ++ (splitNumber text).2.2 = text := by
  have joined := List.takeWhile_append_dropWhile (p := Char.isDigit) (l := text)
  unfold splitNumber
  split
  · rename_i d rest h
    rw [h] at joined
    split
    · simpa using joined
    · simp [joined]
  · simp [joined]

/-- The spelling of a token and the text after it make up the text, and no token has an empty
    spelling. -/
theorem append_of_read {c : Char} {rest text after : List Char} {token : Token}
    (h : read c rest = .ok (token, text, after)) : text ++ after = c :: rest ∧ text ≠ [] := by
  unfold read at h
  split at h
  · split at h
    · rename_i hq
      cases h
      simp [(Text.Quoted.append_of_read hq).1, *]
    · cases h
    · cases h
    · cases h
  · split at h
    · split at h
      · rename_i hq
        cases h
        simp [append_of_quoteEnd? hq, *]
      · cases h
    · split at h
      · rename_i digit
        have joined := append_splitNumber (c :: rest)
        have nonempty : (splitNumber (c :: rest)).1 ≠ [] := by
          unfold splitNumber
          split <;> (try split) <;> simp [digit]
        unfold readNumber at h
        split at h
        · rename_i hs
          cases h
          simp only [hs, Option.elim_some] at joined nonempty
          exact ⟨joined, by simp⟩
        · rename_i hs
          simp only [hs, Option.elim_none, List.append_nil] at joined nonempty
          split at h
          · cases h
            exact ⟨joined, nonempty⟩
          · cases h
      · split at h
        · cases h
          simp
        · split at h
          · cases h
          · split at h
            · rename_i hs
              cases h
              refine ⟨Symbol.text_append_of_read? hs, ?_⟩
              rename_i sign
              cases sign <;> decide
            · cases h
              simp

end Token

/-! ## Lexemes -/

/-- A token as it stands in a text. -/
structure Lexeme where
  /-- The blanks and comments before the token. -/
  gap : List Char
  token : Token
  /-- The spelling of the token. -/
  text : List Char
  /-- Where the spelling starts. -/
  start : Position
deriving DecidableEq

namespace Lexeme

/-- The offset of the end of the spelling. -/
def stop (l : Lexeme) : Nat := l.start.offset + l.text.length

/-- The end of an empty input. -/
def nothing : Lexeme := ⟨[], .eof, [], .start⟩

end Lexeme

/-- The lexemes of a text that starts at `place`. -/
def scanFrom (place : Position) (text : List Char) : Except SyntaxFault (List Lexeme) :=
  match h : Gap.split text with
  | (gap, []) => .ok [⟨gap, .eof, [], place.advance gap⟩]
  | (gap, c :: rest) =>
    let start := place.advance gap
    match h' : Token.read c rest with
    | .error defect => .error (defect.locate start (c :: rest))
    | .ok (token, spelling, after) =>
      have : after.length < text.length := by
        have whole := congrArg List.length (Gap.append_split text)
        obtain ⟨joined, nonempty⟩ := Token.append_of_read h'
        have := congrArg List.length joined
        have := List.length_pos_iff.2 nonempty
        simp only [h, List.length_append, List.length_cons] at *
        omega
      (scanFrom (start.advance spelling) after).map (⟨gap, token, spelling, start⟩ :: ·)
termination_by text.length

/-- The lexemes of a text, or its first lexical fault. -/
def scan (text : String) : Except SyntaxFault (List Lexeme) :=
  scanFrom .start text.toList

end LibrarySpec
