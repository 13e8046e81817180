/-
  Numbers of contracts, printed and read back.

  A number is read as an atom: a token without a sign, or a minus sign and such a token.  What is
  printed is read back as the number itself, with two exceptions (`Number.Readable`):

    1. The least integer prints as a minus sign and digits beyond the largest integer.
    2. An infinity prints as a word.

  No integer literal means the least integer, with or without a sign.  A floating-point literal means
  an infinity if it is too large.
-/
import LibrarySpec.Proofs.Grammar.ContractAccepting
import LibrarySpec.Proofs.Printing.Contracts
import LibrarySpec.Proofs.Printing.Texts

namespace LibrarySpec

open Grammar LibrarySpec.Parser

namespace Binary64

theorem negative_neg (x : Binary64) : (-x).negative = !x.negative := rfl

theorem neg_neg (x : Binary64) : -(-x) = x := Binary64.eq_of_parts (Bool.not_not x.negative) rfl

end Binary64

namespace Number

/-- A number whose text is read back. -/
def Readable : Number → Prop
  | int v => v ≠ Int64.minValue
  | float x => x.isInfinite = false

instance (n : Number) : Decidable n.Readable :=
  match n with
  | .int v => inferInstanceAs (Decidable (v ≠ Int64.minValue))
  | .float x => inferInstanceAs (Decidable (x.isInfinite = false))

theorem Readable.finite {n : Number} (h : n.Readable) : n.Finite := by
  cases n with
  | int v => trivial
  | float x => exact h

/-! ## The tokens of a number -/

/-- The opposite of a negative integer is in range, unless it is the least integer. -/
theorem toInt_neg_of_neg {v : Int64} (h : v.toInt < 0) (least : v ≠ Int64.minValue) :
    (-v).toInt = -v.toInt := by
  have minimum : Int64.minValue.toInt = -2 ^ 63 := rfl
  have different : v.toInt ≠ Int64.minValue.toInt := fun same => least (Int64.toInt.inj same)
  have bound := Int64.le_toInt v
  rw [Int64.toInt_neg]
  exact Int.bmod_eq_of_le (by omega) (by omega)

/-- A token that is spelled makes a legible factor, with and without a sign. -/
theorem allLegible_numeral (n : Numeral) {text : List Char} (h : Token.Spelling n.token text) :
    AllLegible (FactorNode.number n).tokens ∧ AllLegible (FactorNode.negative n).tokens := by
  have token : (Leaf.token n.token).Legible := .inr ⟨text, h⟩
  have minus : (sym .minus).Legible := legible_symbol .minus
  simp only [FactorNode.tokens, allLegible_cons, allLegible_nil, and_true]
  exact ⟨token, minus, token⟩

/-- A readable number is a number without a sign or one behind a minus sign. -/
theorem exists_factor {n : Number} (h : n.Readable) :
    ∃ f : FactorNode, f.arithmetic = .number n ∧ AllLegible f.tokens := by
  cases n with
  | int v =>
    by_cases sign : 0 ≤ v.toInt
    · exact ⟨.number (.int v), rfl, (allLegible_numeral (.int v) (spelling_integer sign)).1⟩
    · -- a minus sign and the opposite, which is in range
      have opposite := toInt_neg_of_neg (by omega) h
      have spelled := spelling_integer (v := -v) (by omega)
      refine ⟨.negative (.int (-v)), ?_, (allLegible_numeral (.int (-v)) spelled).2⟩
      rw [FactorNode.arithmetic, Numeral.negated, Int64.neg_neg]
  | float x =>
    cases sign : x.negative with
    | false =>
      have spelled := spelling_float sign
      exact ⟨.number (.float x), rfl, (allLegible_numeral (.float x) spelled).1⟩
    | true =>
      have positive : (-x).negative = false := by rw [Binary64.negative_neg, sign]; rfl
      have spelled := spelling_float positive
      refine ⟨.negative (.float (-x)), ?_, (allLegible_numeral (.float (-x)) spelled).2⟩
      rw [FactorNode.arithmetic, Numeral.negated, Binary64.neg_neg]

/-- An atom that means a number is read without the parser of operands. -/
theorem accepts_of_factor {operand : Parser Operand} {f : FactorNode} {n : Number}
    {after : List Leaf} (h : f.arithmetic = .number n) :
    Accepts (Arithmetic.atom operand) f.leaves (.number n) after := by
  rw [← h]
  cases f with
  | number m => exact Arithmetic.accepts_number m
  | negative m => exact Arithmetic.accepts_negative m
  | call | variableName => cases h

/-! ## Texts read as numbers -/

/-- The whole text is read as an atom, and the atom is the number. -/
def ReadsAs (operand : Parser Operand) (text : String) (n : Number) : Prop :=
  ReadsText (Arithmetic.atom operand) text (.number n)

variable {operand : Parser Operand}

/-- A readable number is read back. -/
theorem Readable.readsAs {n : Number} (h : n.Readable) : ReadsAs operand n.text n := by
  obtain ⟨f, value, legible⟩ := exists_factor h
  have finite : AllFinite f.arithmetic.numbers := by
    rw [value]
    intro m hm
    rw [List.mem_singleton.1 hm]
    exact h.finite
  obtain ⟨f', value', prints, _⟩ := f.printed legible finite
  rw [value] at value' prints
  exact readsText_of_prints prints (accepts_of_factor value')

/-- The least integer has a text that is not cut into lexemes. -/
theorem not_readsAs_least (n : Number) :
    ¬ReadsAs operand (Number.int Int64.minValue).text n := by
  rintro ⟨lexemes, _, _, scanned, _⟩
  have failed : (scan (Number.int Int64.minValue).text).toOption = none := by decide +kernel
  rw [scanned] at failed
  cases failed

/-- An infinity has a text that is read as a variable, or not at all. -/
theorem not_readsAs_infinity {x : Binary64} (h : x.isInfinite = true) (n : Number) :
    ¬ReadsAs operand (Number.float x).text n := by
  rintro ⟨lexemes, behind, last, scanned, read, _⟩
  have text : (Number.float x).text
      = String.ofList ((if x.negative then ['-'] else []) ++ ['i', 'n', 'f']) := by
    show Notation.pointed.text x = _
    rw [Notation.text, h]
    rfl
  rw [text] at scanned
  cases sign : x.negative with
  | false =>
    rw [sign] at scanned
    have word : (scan (String.ofList ['i', 'n', 'f'])).toOption = some
        [⟨[], .identifier "inf", ['i', 'n', 'f'], ⟨1, 1, 0⟩⟩, ⟨[], .eof, [], ⟨1, 4, 3⟩⟩] := by
      decide +kernel
    obtain rfl := Except.ok.inj (scanned.symm.trans (eq_ok_of_toOption word))
    cases read
  | true =>
    rw [sign] at scanned
    have word : (scan (String.ofList ['-', 'i', 'n', 'f'])).toOption = some
        [⟨[], .symbol .minus, ['-'], ⟨1, 1, 0⟩⟩,
          ⟨[], .identifier "inf", ['i', 'n', 'f'], ⟨1, 2, 1⟩⟩, ⟨[], .eof, [], ⟨1, 5, 4⟩⟩] := by
      decide +kernel
    obtain rfl := Except.ok.inj (scanned.symm.trans (eq_ok_of_toOption word))
    cases read

theorem readsAs_iff {n m : Number} : ReadsAs operand n.text m ↔ n.Readable ∧ m = n := by
  constructor
  · intro h
    have readable : n.Readable := by
      cases n with
      | int v =>
        rintro rfl
        exact not_readsAs_least m h
      | float x =>
        show x.isInfinite = false
        rw [← Bool.not_eq_true]
        exact fun infinite => not_readsAs_infinity infinite m h
    exact ⟨readable, Arithmetic.number.inj (ReadsText.unique h readable.readsAs)⟩
  · rintro ⟨readable, rfl⟩
    exact readable.readsAs

/-! ## Literals -/

/-- An integer literal and its opposite are readable. -/
theorem readable_of_spelling {v : Int64} {text : List Char}
    (h : Token.Spelling (.integer v) text) : (int v).Readable ∧ (int (-v)).Readable := by
  have positive := nonneg_of_spelling h
  have opposite := toInt_neg_of_nonneg positive
  have bound := Int64.toInt_le v
  have maximum : Int64.maxValue.toInt = 2 ^ 63 - 1 := rfl
  have minimum : Int64.minValue.toInt = -2 ^ 63 := rfl
  constructor
  · rintro rfl
    omega
  · intro least
    rw [least] at opposite
    omega

/-- A finite floating-point number and its opposite are readable. -/
theorem readable_of_finite {x : Binary64} (h : x.isInfinite = false) :
    (float x).Readable ∧ (float (-x)).Readable := ⟨h, h⟩

/-- A number is read back from its text exactly if it is readable, and then as itself.  So every
    integer literal is read back, with and without a sign, and every floating-point literal that is
    not too large. -/
theorem readsAs_text_iff (operand : Parser Operand) :
    (∀ n m, ReadsAs operand n.text m ↔ n.Readable ∧ m = n)
    ∧ ∀ c rest token spelling after, c.isDigit = true →
      Token.readNumber (c :: rest) = .ok (token, spelling, after) →
      (∃ v, token = .integer v ∧ ReadsAs operand (int v).text (int v)
        ∧ ReadsAs operand (int (-v)).text (int (-v)))
      ∨ ∃ x, token = .float x ∧ (x.isInfinite = false →
        ReadsAs operand (float x).text (float x)
        ∧ ReadsAs operand (float (-x)).text (float (-x))) := by
  refine ⟨fun n m => readsAs_iff, fun c rest token spelling after digit read => ?_⟩
  have spelled := (Token.readNumber_eq_ok digit read).1
  unfold Token.readNumber at read
  split at read
  · cases read
    refine .inr ⟨_, rfl, fun finite => ?_⟩
    obtain ⟨readable, opposite⟩ := readable_of_finite finite
    exact ⟨readable.readsAs, opposite.readsAs⟩
  · split at read
    · cases read
      obtain ⟨readable, opposite⟩ := readable_of_spelling spelled
      exact .inl ⟨_, rfl, readable.readsAs, opposite.readsAs⟩
    · cases read

/-- The literal `12` is read back, with and without a sign. -/
theorem readsAs_text_twelve :
    Token.readNumber ['1', '2'] = .ok (.integer 12, ['1', '2'], [])
      ∧ ∀ operand, ReadsAs operand (int 12).text (int 12)
        ∧ ReadsAs operand (int (-12)).text (int (-12)) := by
  have read : Token.readNumber ['1', '2'] = .ok (.integer 12, ['1', '2'], []) :=
    eq_ok_of_toOption (by decide +kernel)
  refine ⟨read, fun operand => ?_⟩
  rcases (readsAs_text_iff operand).2 '1' ['2'] _ _ _ (by decide) read
    with ⟨v, same, back⟩ | ⟨x, other, _⟩
  · cases same
    exact back
  · cases other

/-- The digits of a whole number beyond the largest floating-point number. -/
def overlong : List Char := '1' :: List.replicate 309 '0'

/-- The least integer is not read back, and neither is a literal that is too large, with or without a
    sign. -/
theorem readsAs_text_fails :
    (¬∃ operand m, ReadsAs operand (int Int64.minValue).text m)
    ∧ ∃ x, Token.readNumber (overlong ++ ['.', '0'])
        = .ok (.float x, overlong ++ ['.', '0'], [])
      ∧ (¬∃ operand m, ReadsAs operand (float x).text m)
      ∧ ¬∃ operand m, ReadsAs operand (float (-x)).text m := by
  have infinite : ((Decimal.ofParts overlong ['0']).toBinary64 false).isInfinite = true := by
    decide +kernel
  have digits : ∀ c ∈ overlong, c.isDigit = true := by
    intro c hc
    rcases List.mem_cons.1 hc with rfl | hc
    · decide
    · rw [(List.mem_replicate.1 hc).2]
      decide
  have split := @Token.splitNumber_float overlong ['0'] [] digits (by simp) (by decide) nofun
  rw [List.append_nil] at split
  have read : Token.readNumber (overlong ++ ['.', '0']) = .ok
      (.float ((Decimal.ofParts overlong ['0']).toBinary64 false), overlong ++ ['.', '0'], []) := by
    rw [Token.readNumber, split]
  -- the number stays behind a name, for its exponent is large
  revert infinite read
  generalize (Decimal.ofParts overlong ['0']).toBinary64 false = x
  intro infinite read
  have opposite : (-x).isInfinite = true := infinite
  refine ⟨?_, x, read, ?_, ?_⟩
  · rintro ⟨_, m, h⟩
    exact not_readsAs_least m h
  · rintro ⟨_, m, h⟩
    exact not_readsAs_infinity infinite m h
  · rintro ⟨_, m, h⟩
    exact not_readsAs_infinity opposite m h

end Number
end LibrarySpec
