/-
  Numbers in documents read back.

  The text of a number is read in front of any text that does not go on with it (`Stops`).

    1. Integers (`number?_integer`).  They are read back within 64 bits, and outside of them they are
       read as something else.
    2. Floating-point numbers (`exists_parts`).  The text is digits, more digits behind a point and
       perhaps an exponent, the `Parts` of the decimal that is written.
    3. The crux, `floatOf?_of_few`.  Reading rounds twice, the digits first and their product with a
       power of ten then.  Digits below 2^53 need no rounding, and neither do the powers of ten up to
       10^22 (`units_powerOfTen`).  So only one rounding is left, that of `nearest`, and the number
       that it finds for the shortest decimal is the one that was written.

  Main statements: `integerOf?_toDigits`, `Binary64.IsShort.rereads`.
-/
import LibrarySpec.Json.Parser
import LibrarySpec.Json.Printer
import LibrarySpec.Proofs.Decimals
import LibrarySpec.Proofs.Scanning.Tokens

namespace LibrarySpec

/-! ## Numbers that need no rounding -/

namespace Binary64

/-- The units of a magnitude with fifty-three bits of significand. -/
theorem units_significand {significand shift : Nat} (low : binade ≤ significand)
    (high : significand < 2 * binade) :
    units (significand + shift * binade) = significand <<< shift := by
  have positive : 0 < binade := by decide
  have quotient : (significand + shift * binade) / binade = 1 + shift := by
    rw [Nat.add_mul_div_right _ _ positive]
    congr 1
    apply Nat.div_eq_of_lt_le
    · omega
    · omega
  have remainder : (significand + shift * binade) % binade = significand - binade := by
    rw [Nat.add_mul_mod_self_right, Nat.mod_eq_sub_mod low]
    apply Nat.mod_eq_of_lt
    omega
  have large : ¬significand + shift * binade < binade := by omega
  have back : significand - binade + binade = significand := by omega
  rw [units, if_neg large, quotient, remainder, back, Nat.add_sub_cancel_left]

/-- A quotient with a significand of fifty-three bits needs no rounding. -/
theorem nearest_significand {num den significand shift : Nat} (positive : 0 < den)
    (low : binade ≤ significand) (high : significand < 2 * binade)
    (value : num <<< 1074 = (significand <<< shift) * den)
    (fits : significand + shift * binade ≤ infinity) :
    nearest num den = significand + shift * binade := by
  have quotient : num <<< 1074 / den = significand <<< shift := by
    rw [value]
    exact Nat.mul_div_cancel _ positive
  have bits : (significand <<< shift).log2 - 52 = shift := by
    rw [log2_shiftLeft low high]
    exact Nat.add_sub_cancel shift 52
  have rounded : roundDiv (num <<< 1074) (den <<< shift) = significand := by
    have divisor : 0 < den * 2 ^ shift := Nat.mul_pos positive (Nat.two_pow_pos shift)
    rw [value, Nat.shiftLeft_eq, Nat.shiftLeft_eq, Nat.mul_assoc, Nat.mul_comm (2 ^ shift)]
    exact roundDiv_exact divisor significand
  unfold nearest
  simp only [quotient, bits, rounded]
  exact Nat.min_eq_left fits

/-- Fifty-three bits, and zeros behind them, need no rounding. -/
theorem units_nearest {bits zeros : Nat} (few : bits < 2 * binade) (bounded : zeros ≤ 900) :
    units (nearest (bits <<< zeros) 1) = bits <<< (zeros + 1074) := by
  by_cases zero : bits = 0
  · rw [zero, Nat.zero_shiftLeft, Nat.zero_shiftLeft, nearest_zero]
    rfl
  · have hbinade : binade = 2 ^ 52 := rfl
    have short : bits.log2 < 53 := (Nat.log2_lt zero).2 (by omega)
    obtain ⟨missing, hmissing⟩ : ∃ missing, bits.log2 + missing = 52 := ⟨52 - bits.log2, by omega⟩
    have first : 2 ^ bits.log2 ≤ bits := Nat.log2_self_le zero
    have last : bits < 2 ^ (bits.log2 + 1) := Nat.lt_log2_self
    have low : binade ≤ bits <<< missing := by
      rw [Nat.shiftLeft_eq, hbinade, ← hmissing, Nat.pow_add]
      exact Nat.mul_le_mul_right _ first
    have high : bits <<< missing < 2 * binade := by
      have whole : 2 * binade = 2 ^ (bits.log2 + 1) * 2 ^ missing := by
        have places : bits.log2 + 1 + missing = 53 := by omega
        rw [← Nat.pow_add, places]
        rfl
      rw [Nat.shiftLeft_eq, whole]
      exact Nat.mul_lt_mul_of_pos_right last (Nat.two_pow_pos _)
    have places : missing + (bits.log2 + zeros + 1022) = zeros + 1074 := by omega
    have value : (bits <<< zeros) <<< 1074
        = ((bits <<< missing) <<< (bits.log2 + zeros + 1022)) * 1 := by
      rw [Nat.mul_one, ← Nat.shiftLeft_add, ← Nat.shiftLeft_add, places]
    have fits : bits <<< missing + (bits.log2 + zeros + 1022) * binade ≤ infinity := by
      have top : infinity = 2047 * binade := rfl
      have : (bits.log2 + zeros + 1022) * binade ≤ 1974 * binade :=
        Nat.mul_le_mul_right _ (by omega)
      omega
    rw [nearest_significand (by decide) low high value fits, units_significand low high,
      ← Nat.shiftLeft_add, places]

theorem ofQuotient_congr {negative : Bool} {num den num' den' : Nat}
    (h : nearest num den = nearest num' den') :
    ofQuotient negative num den = ofQuotient negative num' den' := by
  unfold ofQuotient
  congr 1

variable {x y : Binary64} {a b : Nat}

/-- The quotient of two whole numbers is rounded once. -/
theorem scaleDown_whole (hx : units x.magnitude = a <<< 1074) (hy : units y.magnitude = b <<< 1074) :
    x.scaleDown y = ofQuotient x.negative a b := by
  unfold scaleDown
  apply ofQuotient_congr
  rw [hx, hy, shiftLeft_eq_mul, shiftLeft_eq_mul b, Nat.mul_comm a, Nat.mul_comm b]
  exact nearest_mul (one_shiftLeft_pos 1074) a b

/-- The product of two whole numbers is rounded once. -/
theorem scaleUp_whole (hx : units x.magnitude = a <<< 1074) (hy : units y.magnitude = b <<< 1074) :
    x.scaleUp y = ofQuotient x.negative (a * b) 1 := by
  have scale : ∀ s : Nat, (a <<< s) * (b <<< s) = (1 <<< (s + s)) * (a * b) := by
    intro s
    rw [Nat.shiftLeft_eq, Nat.shiftLeft_eq, Nat.shiftLeft_eq, Nat.one_mul, Nat.pow_add]
    exact Nat.mul_mul_mul_comm a _ b _ ▸ Nat.mul_comm _ _
  have unit : ∀ s : Nat, 1 <<< s = (1 <<< s) * 1 := fun s => (Nat.mul_one _).symm
  unfold scaleUp
  apply ofQuotient_congr
  rw [hx, hy, scale 1074, unit 2148]
  exact nearest_mul (one_shiftLeft_pos 2148) (a * b) 1

end Binary64

namespace Json

open Binary64 Decimal

/-- A power of ten up to 10^22 is a floating-point number. -/
theorem units_powerOfTen {n : Nat} (h : n ≤ 22) :
    units (powerOfTen n).magnitude = tens n <<< 1074 := by
  have odd : Nat.pow 5 n < 2 * binade :=
    calc Nat.pow 5 n ≤ Nat.pow 5 22 := Nat.pow_le_pow_right (by decide) h
      _ < 2 * binade := by decide
  have split : tens n = Nat.pow 5 n <<< n := by
    rw [Nat.shiftLeft_eq]
    exact Nat.mul_pow 5 2 n
  show units (nearest (tens n) 1) = _
  rw [split, units_nearest odd (by omega), ← Nat.shiftLeft_add]

/-- Digits behind others never make a number smaller. -/
theorem le_ofDigitChars (digits : List Char) (soFar : Nat) :
    soFar ≤ Nat.ofDigitChars 10 digits soFar := by
  rw [Nat.ofDigitChars_eq_ofDigitChars_zero]
  have : 0 < 10 ^ digits.length := Nat.pow_pos (by decide)
  have := Nat.le_mul_of_pos_left soFar this
  omega

/-- Digits that fit into 64 bits are all kept. -/
theorem significand_eq {soFar : Nat} {digits : List Char}
    (fits : Nat.ofDigitChars 10 digits soFar < UInt64.size) :
    significand soFar digits = (Nat.ofDigitChars 10 digits soFar, 0) := by
  induction digits generalizing soFar with
  | nil => rfl
  | cons d rest ih =>
    rw [Nat.ofDigitChars_cons] at fits ⊢
    have longer := le_ofDigitChars rest (10 * soFar + (d.toNat - '0'.toNat))
    rw [significand, if_pos (by omega)]
    exact ih fits

/-- Few digits times a small power of ten are read as the nearest number. -/
theorem floatOf?_of_few {negative : Bool} {whole fraction : List Char} {power place : Int}
    {digits : Nat} (value : Nat.ofDigitChars 10 (whole ++ fraction) 0 = digits)
    (few : digits < 2 * binade) (placed : power - (fraction.length : Int) = place)
    (low : -22 ≤ place) (high : place ≤ 22)
    (finite : ((⟨digits, place⟩ : Decimal).toBinary64 negative).isInfinite = false) :
    floatOf? negative whole fraction power
      = some ((⟨digits, place⟩ : Decimal).toBinary64 negative) := by
  have fits : 2 * binade ≤ UInt64.size := by decide
  rw [Nat.ofDigitChars_append] at value
  have keeps : significand (Nat.ofDigitChars 10 whole 0) fraction = (digits, 0) := by
    rw [significand_eq (by omega), value]
  have keepsWhole : significand 0 whole = (Nat.ofDigitChars 10 whole 0, 0) := by
    apply significand_eq
    have longer := le_ofDigitChars fraction (Nat.ofDigitChars 10 whole 0)
    omega
  have exponent : power + (0 : Nat) - ((fraction.length - 0 : Nat) : Int) = place := by omega
  -- the digits alone need no rounding
  have exact : units (ofQuotient negative digits 1).magnitude = digits <<< 1074 := by
    have scaled := @units_nearest digits 0 few (by omega)
    rwa [Nat.shiftLeft_zero, Nat.zero_add] at scaled
  have ten := @units_powerOfTen place.natAbs (by omega)
  unfold floatOf?
  simp only [keepsWhole, keeps, exponent]
  by_cases below : place < 0
  · have up : place.toNat = 0 := by omega
    have down : (-place).toNat = place.natAbs := by omega
    have rounded : (ofQuotient negative digits 1).scaleDown (powerOfTen place.natAbs)
        = (⟨digits, place⟩ : Decimal).toBinary64 negative := by
      rw [scaleDown_whole exact ten, toBinary64]
      simp only [up, down, tens_zero, Nat.mul_one]
      rfl
    rw [if_pos below, divideByPower, if_pos (by omega), rounded]
  · have up : place.toNat = place.natAbs := by omega
    have down : (-place).toNat = 0 := by omega
    have rounded : (ofQuotient negative digits 1).scaleUp (powerOfTen place.natAbs)
        = (⟨digits, place⟩ : Decimal).toBinary64 negative := by
      rw [scaleUp_whole exact ten, toBinary64]
      simp only [up, down, tens_zero]
      rfl
    rw [if_neg below, multiplyByPower?, if_pos (by omega)]
    simp only [rounded, finite, Bool.false_eq_true, if_false]

/-! ## The text of a number -/

/-- Whether a character goes on with a number. -/
def goesOn (c : Char) : Bool := c.isDigit || c == '.' || c == 'e' || c == 'E'

/-- A text that does not go on with a number that stands before it. -/
def Stops (rest : List Char) : Prop := ∀ c ∈ rest.head?, goesOn c = false

variable {rest : List Char}

theorem Stops.digit (stops : Stops rest) : ∀ c ∈ rest.head?, c.isDigit = false := by
  intro c hc
  have := stops c hc
  simp only [goesOn, Bool.or_eq_false_iff] at this
  exact this.1.1.1

theorem digits?_append {run : List Char} (some : run ≠ []) (digits : ∀ c ∈ run, c.isDigit = true)
    (stop : ∀ c ∈ rest.head?, c.isDigit = false) : digits? (run ++ rest) = .some (run, rest) := by
  obtain ⟨taken, left⟩ := Token.takeWhile_append digits stop
  unfold digits?
  rw [taken, left]
  simp [some]

theorem fraction?_append (stops : Stops rest) : fraction? rest = some (none, rest) := by
  unfold fraction?
  split
  · have := stops '.' rfl
    cases this
  · rfl

theorem exponent?_append (stops : Stops rest) : exponent? rest = some (none, rest) := by
  cases rest with
  | nil => rfl
  | cons c rest =>
    have stop := stops c rfl
    have letter : ¬(c = 'e' ∨ c = 'E') := by
      rintro (rfl | rfl)
      · cases stop
      · cases stop
    rw [exponent?, if_neg letter]

/-- Digits in front of a point, no zero before another digit. -/
structure Leading (whole : List Char) : Prop where
  nonempty : whole ≠ []
  digits : ∀ c ∈ whole, c.isDigit = true
  zero : whole.head? ≠ some '0' ∨ whole.length = 1

variable {negative : Bool} {whole fraction : List Char}

theorem Leading.whole?_append (leading : Leading whole)
    (stop : ∀ c ∈ rest.head?, c.isDigit = false) : whole? (whole ++ rest) = some (whole, rest) := by
  rw [whole?, digits?_append leading.nonempty leading.digits stop, Option.filter_some,
    if_pos (by simpa using leading.zero)]

/-- Digits alone are an integer. -/
theorem unsigned?_integer (leading : Leading whole) (stops : Stops rest) :
    unsigned? negative (whole ++ rest) = (integerOf? negative whole).map (·, rest) := by
  unfold unsigned?
  rw [leading.whole?_append stops.digit]
  show (fraction? rest >>= _) = _
  rw [fraction?_append stops]
  show (exponent? rest >>= _) = _
  rw [exponent?_append stops]
  exact Option.map_eq_bind.symm

/-- Digits, a point and digits are a floating-point number. -/
theorem unsigned?_pointed (leading : Leading whole) (some : fraction ≠ [])
    (digits : ∀ c ∈ fraction, c.isDigit = true) (stops : Stops rest) :
    unsigned? negative (whole ++ '.' :: (fraction ++ rest))
      = (floatOf? negative whole fraction 0).map fun x => (.float x, rest) := by
  have point : ∀ c ∈ ('.' :: (fraction ++ rest)).head?, c.isDigit = false := by simp
  have read : fraction? ('.' :: (fraction ++ rest)) = .some (.some fraction, rest) := by
    rw [fraction?, digits?_append some digits stops.digit]
    rfl
  unfold unsigned?
  rw [leading.whole?_append point]
  show (fraction? ('.' :: (fraction ++ rest)) >>= _) = _
  rw [read]
  show (exponent? rest >>= _) = _
  rw [exponent?_append stops]
  exact Option.map_eq_bind.symm

/-- The text of an exponent. -/
def exponentText (power : Int) : List Char :=
  'e' :: (if power < 0 then '-' else '+') :: Nat.toDigits 10 power.natAbs

theorem exponent?_exponentText (power : Int) (stops : Stops rest) :
    exponent? (exponentText power ++ rest) = some (some power, rest) := by
  have digits := @digits?_append rest (Nat.toDigits 10 power.natAbs) Nat.toDigits_ne_nil
    (fun _ hc => Nat.isDigit_of_mem_toDigits (by decide) (by decide) hc) stops.digit
  have read : ∀ mark negative, sign (mark :: (Nat.toDigits 10 power.natAbs ++ rest))
        = (negative, Nat.toDigits 10 power.natAbs ++ rest) →
      (if negative = true then -(power.natAbs : Int) else power.natAbs) = power →
      exponent? ('e' :: mark :: (Nat.toDigits 10 power.natAbs ++ rest))
        = some (some power, rest) := by
    intro mark negative marked value
    rw [exponent?, if_pos (.inl rfl)]
    simp only [marked, digits, Option.map_some, Nat.ofDigitChars_ten_toDigits, value]
  rw [exponentText]
  by_cases below : power < 0
  · rw [if_pos below]
    exact read '-' true rfl (by rw [if_pos rfl]; omega)
  · rw [if_neg below]
    exact read '+' false rfl (by rw [if_neg (by simp)]; omega)

/-- Digits, perhaps more behind a point, and an exponent are a floating-point number. -/
theorem unsigned?_scientific (leading : Leading whole)
    (digits : ∀ c ∈ fraction, c.isDigit = true) (power : Int) (stops : Stops rest) :
    unsigned? negative (whole ++ ((if fraction.isEmpty then [] else '.' :: fraction)
        ++ (exponentText power ++ rest)))
      = (floatOf? negative whole fraction power).map fun x => (.float x, rest) := by
  have behind : ∀ c ∈ (exponentText power ++ rest).head?, c.isDigit = false := by
    rw [exponentText]
    simp
  have point : ∀ c ∈ ((if fraction.isEmpty then [] else '.' :: fraction)
      ++ (exponentText power ++ rest)).head?, c.isDigit = false := by
    split
    · exact behind
    · simp
  have read : ∃ fraction', fraction? ((if fraction.isEmpty then [] else '.' :: fraction)
        ++ (exponentText power ++ rest)) = some (fraction', exponentText power ++ rest)
      ∧ fraction'.getD [] = fraction := by
    cases fraction with
    | nil => exact ⟨none, rfl, rfl⟩
    | cons d more =>
      refine ⟨some (d :: more), ?_, rfl⟩
      show fraction? ('.' :: ((d :: more) ++ (exponentText power ++ rest))) = _
      rw [fraction?, digits?_append (by simp) digits behind]
      rfl
  obtain ⟨fraction', read, rfl⟩ := read
  unfold unsigned?
  rw [leading.whole?_append point]
  show (fraction? _ >>= _) = _
  rw [read]
  show (exponent? _ >>= _) = _
  rw [exponent?_exponentText power stops]
  show (if (fraction'.isNone && false) = true then _ else _) = _
  rw [Bool.and_false, if_neg (by simp)]
  exact Option.map_eq_bind.symm

/-- A text with a minus sign in front, if it is negative. -/
def signed (negative : Bool) (text : List Char) : List Char := (if negative then ['-'] else []) ++ text

/-- A sign is told apart from the digits that follow it. -/
theorem number?_signed (negative : Bool) {text : List Char} (head : text.head? ≠ some '-') :
    number? (signed negative text) = unsigned? negative text := by
  cases negative with
  | true => rfl
  | false =>
    show number? text = unsigned? false text
    unfold number?
    split
    · exact absurd rfl head
    · rfl

/-- Digits have no sign. -/
theorem Leading.head_ne (leading : Leading whole) (after : List Char) :
    (whole ++ after).head? ≠ some '-' := by
  obtain ⟨d, more, rfl⟩ := List.exists_cons_of_ne_nil leading.nonempty
  rintro ⟨⟩
  cases leading.digits '-' List.mem_cons_self

/-- A text that begins like a number. -/
def Numeral (text : List Char) : Prop := ∃ c more, text = c :: more ∧ (c = '-' ∨ c.isDigit = true)

theorem Leading.numeral (leading : Leading whole) (negative : Bool) (after : List Char) :
    Numeral (signed negative (whole ++ after)) := by
  cases negative with
  | true => exact ⟨'-', _, rfl, .inl rfl⟩
  | false =>
    obtain ⟨d, more, rfl⟩ := List.exists_cons_of_ne_nil leading.nonempty
    exact ⟨d, _, rfl, .inr (leading.digits d List.mem_cons_self)⟩

/-! ## Integers -/

theorem leading_toDigits (n : Nat) : Leading (Nat.toDigits 10 n) where
  nonempty := Nat.toDigits_ne_nil
  digits := fun _ hc => Nat.isDigit_of_mem_toDigits (by decide) (by decide) hc
  zero := by
    by_cases zero : n = 0
    · right
      rw [zero]
      rfl
    · exact .inl (head_toDigits zero)

/-- The text of an integer is its digits, behind a minus sign if it is negative. -/
theorem toList_integer (n : Int) :
    (toString n).toList = signed (n < 0) (Nat.toDigits 10 n.natAbs) := by
  rw [toString_integer, String.toList_ofList, signed]
  by_cases h : 0 ≤ n
  · have size : n.toNat = n.natAbs := by omega
    have positive : ¬n < 0 := by omega
    simp only [if_pos h, size, positive, decide_false, Bool.false_eq_true, if_false, List.nil_append]
  · have size : (-n).toNat = n.natAbs := by omega
    have negative : n < 0 := by omega
    simp only [if_neg h, size, negative, decide_true, if_true, List.singleton_append]

/-- What an integer is read as. -/
theorem number?_integer (n : Int) (stops : Stops rest) :
    number? ((toString n).toList ++ rest)
      = (integerOf? (n < 0) (Nat.toDigits 10 n.natAbs)).map (·, rest) := by
  have leading := leading_toDigits n.natAbs
  rw [toList_integer, signed, List.append_assoc]
  show number? (signed _ (_ ++ rest)) = _
  rw [number?_signed _ (leading.head_ne rest), unsigned?_integer leading stops]

theorem numeral_integer (n : Int) : Numeral (toString n).toList := by
  have numeral := (leading_toDigits n.natAbs).numeral (n < 0) []
  rw [List.append_nil, ← toList_integer] at numeral
  exact numeral

/-- An integer is read back exactly if it fits into 64 bits, with a sign or without. -/
theorem integerOf?_toDigits (n : Int) :
    integerOf? (n < 0) (Nat.toDigits 10 n.natAbs) = some (.integer n)
      ↔ Int64.minValue.toInt ≤ n ∧ n < UInt64.size := by
  have float : ∀ x : Option Binary64, x.map Json.float ≠ some (.integer n) := by
    intro x
    cases x <;> simp
  have size : (0 : Int) < UInt64.size := by decide
  have least : Int64.minValue.toInt ≤ 0 := by decide
  unfold integerOf?
  simp only [Nat.ofDigitChars_ten_toDigits, decide_eq_true_eq]
  by_cases negative : n < 0
  · have back : -(n.natAbs : Int) = n := by omega
    rw [if_pos negative, back]
    by_cases fits : Int64.minValue.toInt ≤ n
    · rw [if_pos ⟨by omega, fits⟩]
      exact ⟨fun _ => ⟨fits, by omega⟩, fun _ => rfl⟩
    · rw [if_neg fun h => fits h.2]
      exact ⟨fun h => absurd h (float _), fun h => absurd h.1 fits⟩
  · have back : (n.natAbs : Int) = n := by omega
    rw [if_neg negative, back]
    by_cases fits : n.natAbs < UInt64.size
    · rw [if_pos fits]
      exact ⟨fun _ => ⟨by omega, by omega⟩, fun _ => rfl⟩
    · rw [if_neg fits]
      exact ⟨fun h => absurd h (float _), fun h => absurd h.2 (by omega)⟩

/-! ## Floating-point numbers -/

/-- The written form of a finite number is the parts of a decimal, in front of any text that does not
    go on with it. -/
theorem exists_parts {x : Binary64} (finite : x.isInfinite = false) :
    ∃ whole fraction power, Parts (numberNotation.decimalOf x.magnitude) whole fraction power
      ∧ Numeral (floatText x).toList ∧ ∀ rest, Stops rest → number? ((floatText x).toList ++ rest)
          = (floatOf? x.negative whole fraction power).map fun y => (.float y, rest) := by
  have text : (floatText x).toList = signed x.negative (numberNotation.magnitudeText x.magnitude) := by
    rw [floatText, finite, if_neg Bool.false_ne_true, Notation.text, String.toList_ofList, finite]
    rfl
  have normal : (numberNotation.decimalOf x.magnitude).digits = 0 →
      (numberNotation.decimalOf x.magnitude).exponent = 0 := Notation.exponent_decimalOf
  rw [text, Notation.magnitudeText_eq numberNotation rfl]
  generalize numberNotation.decimalOf x.magnitude = d at normal
  split
  · obtain ⟨whole, fraction, joined, more, parts⟩ := d.exists_positional
    have leading : Leading whole := ⟨parts.whole_ne, parts.whole_digits, parts.leads normal⟩
    rw [joined]
    refine ⟨whole, fraction, 0, parts, leading.numeral _ _, fun rest stops => ?_⟩
    rw [signed, List.append_assoc, List.append_assoc]
    show number? (signed _ (whole ++ '.' :: (fraction ++ rest))) = _
    rw [number?_signed _ (leading.head_ne _)]
    exact unsigned?_pointed leading more parts.fraction_digits stops
  · have parts := d.parts_scientific
    have leading : Leading (d.digitText.take 1) :=
      ⟨parts.whole_ne, parts.whole_digits, parts.leads normal⟩
    have scientific : d.scientific = d.digitText.take 1
        ++ ((if (d.digitText.drop 1).isEmpty then [] else '.' :: d.digitText.drop 1)
          ++ exponentText (d.point - 1)) := List.append_assoc _ _ _
    rw [scientific]
    refine ⟨d.digitText.take 1, d.digitText.drop 1, d.point - 1, parts, leading.numeral _ _,
      fun rest stops => ?_⟩
    rw [signed, List.append_assoc, List.append_assoc, List.append_assoc]
    show number? (signed _ (d.digitText.take 1 ++ _)) = _
    rw [number?_signed _ (leading.head_ne _)]
    exact unsigned?_scientific leading parts.fraction_digits _ stops

end Json

namespace Binary64

/-- What a document writes for the number is read as the number. -/
def Rereads (x : Binary64) : Prop :=
  Json.number? (Json.floatText x).toList = some (.float x, [])

/-- The decimal that a document writes has less than fifty-three bits and at most twenty-two places
    behind the point. -/
def IsShort (x : Binary64) : Prop :=
  x.isInfinite = false
    ∧ (Json.numberNotation.decimalOf x.magnitude).digits
        * Decimal.tens ((Json.numberNotation.decimalOf x.magnitude).exponent + 1).toNat < 2 * binade
    ∧ -22 ≤ (Json.numberNotation.decimalOf x.magnitude).exponent

instance (x : Binary64) : Decidable x.IsShort := inferInstanceAs (Decidable (_ ∧ _ ∧ _))

-- the sign is a variable here: at the sign of a number, its magnitude would be compared by evaluation
theorem negative_toBinary64 (d : Decimal) (negative : Bool) :
    (d.toBinary64 negative).negative = negative := rfl

theorem toBinary64_of_magnitude {d : Decimal} {x : Binary64} (h : d.magnitude = x.magnitude) :
    d.toBinary64 x.negative = x :=
  eq_of_parts (negative_toBinary64 d x.negative) h

/-- A number of few digits is read back. -/
theorem IsShort.rereads {x : Binary64} (h : x.IsShort) : x.Rereads := by
  obtain ⟨finite, few, long⟩ := h
  obtain ⟨whole, fraction, power, parts, _, read⟩ := Json.exists_parts finite
  obtain ⟨count, bounded, digits, exponent⟩ := parts.value
  have same := Notation.magnitude_decimalOf Json.numberNotation x.magnitude_le
  have normal : (Json.numberNotation.decimalOf x.magnitude).digits = 0 →
      (Json.numberNotation.decimalOf x.magnitude).exponent = 0 := Notation.exponent_decimalOf
  generalize Json.numberNotation.decimalOf x.magnitude = d at *
  have grows : ∀ {k n : Nat}, k ≤ n → Decimal.tens k ≤ Decimal.tens n :=
    fun h => Nat.pow_le_pow_right (by decide) h
  have high : d.exponent ≤ 22 := by
    by_cases zero : d.digits = 0
    · have := normal zero
      omega
    · -- one digit and so many zeros would have too many bits
      have large : 2 * binade ≤ Decimal.tens 22 := by decide
      have positive : 1 * Decimal.tens (d.exponent + 1).toNat
          ≤ d.digits * Decimal.tens (d.exponent + 1).toNat := Nat.mul_le_mul_right _ (by omega)
      rcases Nat.lt_or_ge (d.exponent + 1).toNat 22 with small | wide
      · omega
      · have := grows wide
        omega
  have fits : d.digits * Decimal.tens count < 2 * binade :=
    Nat.lt_of_le_of_lt (Nat.mul_le_mul_left _ (grows bounded)) few
  have back : (⟨d.digits * Decimal.tens count, d.exponent - count⟩ : Decimal).toBinary64 x.negative
      = x := toBinary64_of_magnitude ((d.magnitude_mul_tens count).trans same)
  have value : Json.floatOf? x.negative whole fraction power = some _ :=
    Json.floatOf?_of_few digits fits exponent (by omega) (by omega) (by rw [back]; exact finite)
  have alone := read [] (fun _ hc => by cases hc)
  rw [List.append_nil, value, back] at alone
  exact alone

/-- One tenth is short, and read back. -/
example : (ofQuotient false 1 10).Rereads := IsShort.rereads (by decide +kernel)

end Binary64
end LibrarySpec
