/-
  Blank characters.

  A character is blank when it has the White_Space property of the Unicode standard.  The property
  holds of 25 characters; it does not hold of the zero-width space U+200B, of the byte order mark
  U+FEFF, of U+180E, or of the separators U+001C to U+001F, which a reader might expect here.

  `isBlank` decides the property and `trim` takes blank characters off both ends of a text.
-/

namespace LibrarySpec.Text

/-- The code points with the White_Space property, as ranges with both ends included, in
    ascending order. -/
def blankRanges : List (Nat × Nat) :=
  [(0x09, 0x0D), (0x20, 0x20), (0x85, 0x85), (0xA0, 0xA0), (0x1680, 0x1680), (0x2000, 0x200A),
   (0x2028, 0x2029), (0x202F, 0x202F), (0x205F, 0x205F), (0x3000, 0x3000)]

/-- Whether a character is blank. -/
def isBlank (c : Char) : Bool :=
  blankRanges.any fun range => range.1 ≤ c.toNat && c.toNat ≤ range.2

/-- The text without the blank characters at its two ends. -/
def trim (text : List Char) : List Char :=
  ((text.dropWhile isBlank).reverse.dropWhile isBlank).reverse

/-- A text that neither begins nor ends with a blank character is left alone. -/
theorem trim_eq_self {text : List Char} (first : ∀ c ∈ text.head?, isBlank c = false)
    (last : ∀ c ∈ text.getLast?, isBlank c = false) : trim text = text := by
  have untouched : ∀ l : List Char, (∀ c ∈ l.head?, isBlank c = false) →
      l.dropWhile isBlank = l := by
    intro l h
    cases l with
    | nil => rfl
    | cons c r => simp [h c (by simp)]
  unfold trim
  rw [untouched text first, untouched text.reverse (by simpa using last), List.reverse_reverse]

end LibrarySpec.Text
