/-
  Positions in a text.

  A position is the line, the column and the offset of a place between two characters.  Lines and
  columns count from one, offsets from zero, and all three count characters.  Only the line feed
  ends a line; a carriage return is a character of its line like any other.

  `Position.next` steps over one character and `Position.advance` over a run of them, so the
  position of a place is `Position.start.advance` of the text before it.
-/

namespace LibrarySpec.Text

/-- A place in a text. -/
structure Position where
  line : Nat
  column : Nat
  offset : Nat
deriving DecidableEq, Repr

namespace Position

/-- The place before the first character. -/
def start : Position := ⟨1, 1, 0⟩

/-- The place after one more character. -/
def next (p : Position) (c : Char) : Position :=
  if c = '\n' then ⟨p.line + 1, 1, p.offset + 1⟩ else ⟨p.line, p.column + 1, p.offset + 1⟩

/-- The place after a run of characters. -/
def advance (p : Position) (text : List Char) : Position :=
  text.foldl next p

/-- The written form, `line:column`. -/
def toText (p : Position) : String :=
  toString p.line ++ ":" ++ toString p.column

@[simp] theorem advance_nil (p : Position) : p.advance [] = p := rfl

@[simp] theorem advance_cons (p : Position) (c : Char) (text : List Char) :
    p.advance (c :: text) = (p.next c).advance text := rfl

theorem advance_append (p : Position) (a b : List Char) :
    p.advance (a ++ b) = (p.advance a).advance b :=
  List.foldl_append

@[simp] theorem offset_next (p : Position) (c : Char) : (p.next c).offset = p.offset + 1 := by
  unfold next
  split <;> rfl

@[simp] theorem offset_advance (p : Position) (text : List Char) :
    (p.advance text).offset = p.offset + text.length := by
  induction text generalizing p with
  | nil => rfl
  | cons c r ih => rw [advance_cons, ih, offset_next, List.length_cons]; omega

end Position
end LibrarySpec.Text
