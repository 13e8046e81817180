/-
  The text of JSON values.

  A layout says which spaces stand between the parts.  Of the two layouts here, `compact` puts
  everything on one line without spaces, and `pretty` puts every item and every member on a line of
  its own, indented by two spaces a level; an empty array or object stays on one line in both.

  Strings escape the quote, the backslash and the characters below U+0020, and nothing else.
  Floating-point numbers are written with the fewest digits that read back, a tie going to the even
  digit: positionally with a point from 10^-5 up to 10^16, with an exponent outside that range.  An
  infinity has no written form in JSON and is written as null.
-/
import LibrarySpec.Decimal.Notation
import LibrarySpec.Json.Basic

namespace LibrarySpec.Json

/-- The written form of floating-point numbers. -/
def numberNotation : Notation := ⟨.even, fun point => -5 < point && point ≤ 16, true⟩

/-- The text of a floating-point number. -/
def floatText (x : Binary64) : String :=
  if x.isInfinite then "null" else numberNotation.text x

/-- The letter that stands for a control character after a backslash. -/
def controlLetter? (c : Char) : Option Char :=
  match c.toNat with
  | 8 => some 'b'
  | 9 => some 't'
  | 10 => some 'n'
  | 12 => some 'f'
  | 13 => some 'r'
  | _ => none

/-- A character inside a string. -/
def escaped (c : Char) : List Char :=
  if c = '"' ∨ c = '\\' then ['\\', c]
  else if 0x20 ≤ c.toNat then [c]
  else
    match controlLetter? c with
    | some letter => ['\\', letter]
    | none => ['\\', 'u', '0', '0', Nat.digitChar (c.toNat / 16), Nat.digitChar (c.toNat % 16)]

/-- The text of a string. -/
def quoted (s : String) : List Char := '"' :: s.toList.flatMap escaped ++ ['"']

/-! ## Layouts -/

/-- What stands between the parts of a document. -/
structure Layout where
  /-- In front of an item, a member or a closing bracket that stands inside so many brackets. -/
  margin : Nat → List Char
  /-- In front of the value of a member. -/
  gap : List Char
  blank_margin : ∀ level, ∀ c ∈ margin level, isSpace c = true
  blank_gap : ∀ c ∈ gap, isSpace c = true

/-- Everything on one line, without spaces. -/
def Layout.compact : Layout := ⟨fun _ => [], [], by simp, by simp⟩

/-- A line for every item and every member. -/
def Layout.pretty : Layout where
  margin level := '\n' :: List.replicate (2 * level) ' '
  gap := [' ']
  blank_margin := by
    intro level c hc
    rcases List.mem_cons.1 hc with rfl | hc
    · rfl
    · rw [List.eq_of_mem_replicate hc]
      rfl
  blank_gap := by simp [isSpace]

/-! ## Values -/

mutual

/-- The text of a value inside `level` brackets. -/
def written (layout : Layout) (level : Nat) : Json → List Char
  | null => ['n', 'u', 'l', 'l']
  | bool value => if value then ['t', 'r', 'u', 'e'] else ['f', 'a', 'l', 's', 'e']
  | integer value => (toString value).toList
  | float value => (floatText value).toList
  | string value => quoted value
  | array [] => ['[', ']']
  | array (item :: rest) =>
    '[' :: (layout.margin (level + 1) ++ (written layout (level + 1) item
      ++ writtenItems layout level rest))
  | object [] => ['\x7b', '\x7d']
  | object ((name, value) :: rest) =>
    '\x7b' :: (layout.margin (level + 1) ++ (quoted name ++ ':' :: (layout.gap
      ++ (written layout (level + 1) value ++ writtenMembers layout level rest))))

/-- The text behind an item: the other items and the closing bracket. -/
def writtenItems (layout : Layout) (level : Nat) : List Json → List Char
  | [] => layout.margin level ++ [']']
  | item :: rest =>
    ',' :: (layout.margin (level + 1) ++ (written layout (level + 1) item
      ++ writtenItems layout level rest))

/-- The text behind a member: the other members and the closing brace. -/
def writtenMembers (layout : Layout) (level : Nat) : List (String × Json) → List Char
  | [] => layout.margin level ++ ['\x7d']
  | (name, value) :: rest =>
    ',' :: (layout.margin (level + 1) ++ (quoted name ++ ':' :: (layout.gap
      ++ (written layout (level + 1) value ++ writtenMembers layout level rest))))

end

/-- The text without spaces. -/
def compact (json : Json) : String := String.ofList (json.written .compact 0)

/-- The text with a line for every item and member. -/
def pretty (json : Json) : String := String.ofList (json.written .pretty 0)

end LibrarySpec.Json
