/-
  Printed numbers, scanned again.

  A token of a number has no sign, so an integer token is not negative and a floating-point token is
  positive.  Such a number prints as one token, and its opposite as a minus sign and one
  token, with one exception: the opposite of the integer zero is zero and prints without a sign.  The
  two derivations of a zero mean the same.

  An infinite number prints as a word, so infinities are left out.
-/
import LibrarySpec.Proofs.Decimals
import LibrarySpec.Proofs.Printing.Basic

namespace LibrarySpec

/-- A number other than the infinities. -/
def Number.Finite : Number → Prop
  | int _ => True
  | float x => x.isInfinite = false

instance (n : Number) : Decidable n.Finite :=
  match n with
  | .int _ => .isTrue trivial
  | .float x => inferInstanceAs (Decidable (x.isInfinite = false))

namespace Grammar

open Token (Spelling)

/-! ## Integers -/

theorem nonneg_of_spelling {v : Int64} {text : List Char} (h : Spelling (.integer v) text) :
    0 ≤ v.toInt := by
  generalize ht : Token.integer v = t at h
  cases h with
  | @integer digits _ _ range =>
    obtain rfl := Token.integer.inj ht
    have bound : Nat.ofDigitChars 10 text 0 < 2 ^ 63 := by
      have maximum : Int64.maxValue.toInt = 2 ^ 63 - 1 := rfl
      omega
    rw [Int64.toInt_ofNat_of_lt bound]
    omega
  | word =>
    unfold Token.ofWord at ht
    split at ht <;> cases ht
  | _ => cases ht

/-- The opposite of an integer that is not negative is in range. -/
theorem toInt_neg_of_nonneg {v : Int64} (h : 0 ≤ v.toInt) : (-v).toInt = -v.toInt := by
  have bound := Int64.toInt_le v
  have maximum : Int64.maxValue.toInt = 2 ^ 63 - 1 := rfl
  rw [Int64.toInt_neg]
  exact Int.bmod_eq_of_le (by omega) (by omega)

theorem spelling_integer {v : Int64} (h : 0 ≤ v.toInt) :
    Spelling (.integer v) (Nat.toDigits 10 v.toInt.toNat) := by
  have value : Nat.ofDigitChars 10 (Nat.toDigits 10 v.toInt.toNat) 0 = v.toInt.toNat :=
    Nat.ofDigitChars_ten_toDigits
  have cast : (v.toInt.toNat : Int) = v.toInt := Int.toNat_of_nonneg h
  have whole : Int64.ofNat v.toInt.toNat = v := by
    rw [← Int64.ofInt_eq_ofNat, cast, Int64.ofInt_toInt]
  have spelled := @Spelling.integer (Nat.toDigits 10 v.toInt.toNat) Nat.toDigits_ne_nil
    (fun _ hc => Nat.isDigit_of_mem_toDigits (by decide) (by decide) hc)
    (by rw [value, cast]; exact Int64.toInt_le v)
  rw [value, whole] at spelled
  exact spelled

/-- The text of an integer is its digits, behind a minus sign if it is negative. -/
theorem text_int (v : Int64) :
    (Number.int v).text = String.ofList (if 0 ≤ v.toInt then Nat.toDigits 10 v.toInt.toNat
      else '-' :: Nat.toDigits 10 (-v.toInt).toNat) :=
  Decimal.toString_integer v.toInt

/-! ## Floating-point numbers -/

theorem positive_of_spelling {x : Binary64} {text : List Char} (h : Spelling (.float x) text) :
    x.negative = false := by
  generalize ht : Token.float x = t at h
  cases h with
  | float =>
    obtain rfl := Token.float.inj ht
    rfl
  | word =>
    unfold Token.ofWord at ht
    split at ht <;> cases ht
  | _ => cases ht

/-- The digits of a magnitude spell the positive number. -/
theorem spelling_float {x : Binary64} (positive : x.negative = false) :
    Spelling (.float x) (Notation.pointed.magnitudeText x.magnitude) := by
  obtain ⟨whole, fraction, text, wholeNe, fractionNe, wholeDigits, fractionDigits, value⟩ :=
    Notation.pointed_reads_back x.magnitude_le
  have same : (Decimal.ofParts whole fraction).toBinary64 false = x :=
    Binary64.eq_of_parts positive.symm value
  have spelled := Spelling.float wholeNe fractionNe wholeDigits fractionDigits
  rw [same, ← text] at spelled
  exact spelled

/-- The text of a finite number is its digits, behind a minus sign if it is negative. -/
theorem text_float {x : Binary64} (finite : x.isInfinite = false) :
    (Number.float x).text = String.ofList ((if x.negative then ['-'] else [])
      ++ Notation.pointed.magnitudeText x.magnitude) := by
  show Notation.pointed.text x = _
  rw [Notation.text, finite]
  rfl

/-! ## Numerals -/

theorem spelled_of_legible {n : Numeral} (legible : (Leaf.token n.token).Legible) :
    ∃ text, Spelling n.token text := by
  rcases legible with eof | spelled
  · cases n <;> cases eof
  · exact spelled

/-- A number without a sign prints as its token. -/
theorem spelling_number {n : Numeral} (legible : (Leaf.token n.token).Legible)
    (finite : n.number.Finite) : Spelling n.token n.number.text.toList := by
  obtain ⟨text, spelled⟩ := spelled_of_legible legible
  cases n with
  | int v =>
    have positive := nonneg_of_spelling spelled
    show Spelling (.integer v) (Number.int v).text.toList
    rw [text_int, if_pos positive, String.toList_ofList]
    exact spelling_integer positive
  | float x =>
    have positive := positive_of_spelling spelled
    show Spelling (.float x) (Number.float x).text.toList
    rw [text_float finite, positive, String.toList_ofList]
    exact spelling_float positive

/-- The opposite of a number without a sign is the number itself, or prints as a minus sign and the
    token of the number. -/
theorem spelling_negated {n : Numeral} (legible : (Leaf.token n.token).Legible)
    (finite : n.negated.Finite) :
    n.negated = n.number ∧ n.number.Finite
      ∨ ∃ digits, n.negated.text.toList = '-' :: digits ∧ Spelling n.token digits := by
  obtain ⟨text, spelled⟩ := spelled_of_legible legible
  cases n with
  | int v =>
    have positive := nonneg_of_spelling spelled
    by_cases zero : v = 0
    · left
      subst zero
      exact ⟨rfl, trivial⟩
    · right
      have nonzero : v.toInt ≠ 0 := fun h => zero (Int64.toInt.inj h)
      refine ⟨Nat.toDigits 10 v.toInt.toNat, ?_, spelling_integer positive⟩
      show (Number.int (-v)).text.toList = _
      rw [text_int, toInt_neg_of_nonneg positive, if_neg (by omega), String.toList_ofList, Int.neg_neg]
  | float x =>
    right
    have positive := positive_of_spelling spelled
    refine ⟨_, ?_, spelling_float positive⟩
    show (Number.float (-x)).text.toList = _
    have sign : (-x).negative = true := by
      show (!x.negative) = true
      rw [positive]
      rfl
    rw [text_float finite, sign, String.toList_ofList]
    rfl

end Grammar
end LibrarySpec
