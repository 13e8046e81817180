/-
  Written numbers read back.

  A floating-point number is written as the digits of a decimal, and the decimal was chosen because
  it reads back, or it is exact.  So everything rests on three facts about `nearest`:

    1. it depends on the quotient alone (`nearest_mul`), so trailing zeros may move between the
       digits and the exponent;
    2. it finds every finite magnitude from its exact value (`nearest_units`);
    3. cutting the digits at a point, or at a point and an exponent, keeps their value (`Parts`).

  Main statement: `pointed_reads_back`, the written form of a finite magnitude is digits, a point and
  digits that read back to the magnitude.  The size of the exponents makes closed terms large, so
  powers of two and of ten stay behind names here.
-/
import LibrarySpec.Decimal.Notation

namespace LibrarySpec

namespace Binary64

theorem eq_of_parts {x y : Binary64} (sign : x.negative = y.negative)
    (size : x.magnitude = y.magnitude) : x = y := by
  obtain ⟨negative, magnitude, bound⟩ := x
  obtain ⟨negative', magnitude', bound'⟩ := y
  obtain rfl : negative = negative' := sign
  obtain rfl : magnitude = magnitude' := size
  rfl

/-! ## Rounding -/

theorem roundDiv_mul {k : Nat} (hk : 0 < k) (a b : Nat) :
    roundDiv (k * a) (k * b) = roundDiv a b := by
  have quotient : k * a / (k * b) = a / b := Nat.mul_div_mul_left a b hk
  have remainder : 2 * (k * a % (k * b)) = k * (2 * (a % b)) := by
    rw [Nat.mul_mod_mul_left, Nat.mul_left_comm]
  have below : k * (2 * (a % b)) < k * b ↔ 2 * (a % b) < b := Nat.mul_lt_mul_left hk
  have above : k * b < k * (2 * (a % b)) ↔ b < 2 * (a % b) := Nat.mul_lt_mul_left hk
  unfold roundDiv
  simp only [quotient, remainder, below, above]

/-- A whole quotient needs no rounding. -/
theorem roundDiv_exact {b : Nat} (hb : 0 < b) (q : Nat) : roundDiv (q * b) b = q := by
  unfold roundDiv
  simp only [Nat.mul_mod_left, Nat.mul_div_cancel q hb, Nat.mul_zero, if_pos hb]

/-- The magnitude nearest to a quotient depends on the quotient alone. -/
theorem nearest_mul {k : Nat} (hk : 0 < k) (num den : Nat) :
    nearest (k * num) (k * den) = nearest num den := by
  have shifted : ∀ n s : Nat, (k * n) <<< s = k * (n <<< s) := by
    intro n s
    rw [Nat.shiftLeft_eq, Nat.shiftLeft_eq, Nat.mul_assoc]
  unfold nearest
  simp only [shifted, Nat.mul_div_mul_left _ _ hk, roundDiv_mul hk]

theorem nearest_zero (den : Nat) : nearest 0 den = 0 := by
  have rounded : ∀ b : Nat, roundDiv 0 b = 0 := by
    intro b
    unfold roundDiv
    simp
  unfold nearest
  simp only [Nat.zero_shiftLeft, Nat.zero_div, rounded, Nat.log2_zero, Nat.zero_sub, Nat.zero_mul,
    Nat.add_zero, Nat.zero_min]

/-- A significand has fifty-three bits. -/
theorem log2_shiftLeft {significand : Nat} (low : binade ≤ significand)
    (high : significand < 2 * binade) (shift : Nat) : (significand <<< shift).log2 = shift + 52 := by
  have hbinade : binade = 2 ^ 52 := rfl
  have lower : 2 ^ (shift + 52) = 2 ^ 52 * 2 ^ shift := by
    rw [Nat.pow_add, Nat.mul_comm]
  have upper : 2 ^ (shift + 52 + 1) = 2 ^ 53 * 2 ^ shift := by
    rw [Nat.add_assoc, Nat.pow_add, Nat.mul_comm]
  have nonzero : significand * 2 ^ shift ≠ 0 :=
    Nat.mul_ne_zero (by omega) (Nat.ne_of_gt (Nat.two_pow_pos _))
  rw [Nat.shiftLeft_eq, Nat.log2_eq_iff nonzero, lower, upper]
  constructor
  · exact Nat.mul_le_mul_right _ (by omega)
  · exact Nat.mul_lt_mul_of_pos_right (by omega) (Nat.two_pow_pos _)

/-- How many bits the units of a magnitude have below the fifty-three of its significand, and the
    significand. -/
theorem units_eq {m : Nat} :
    ∃ significand shift, units m = significand <<< shift ∧ (units m).log2 - 52 = shift
      ∧ significand + shift * binade = m := by
  have hbinade : binade = 2 ^ 52 := rfl
  by_cases small : m < binade
  · refine ⟨m, 0, ?_, ?_, ?_⟩
    · rw [units, if_pos small, Nat.shiftLeft_zero]
    · rw [units, if_pos small]
      by_cases zero : m = 0
      · rw [zero]
        rfl
      · have : m.log2 < 52 := (Nat.log2_lt zero).2 (by omega)
        omega
    · rw [Nat.zero_mul, Nat.add_zero]
  · have positive : 0 < binade := by decide
    have exponent : 1 ≤ m / binade := (Nat.le_div_iff_mul_le positive).2 (by omega)
    have remainder : m % binade < binade := Nat.mod_lt m positive
    have bits : (units m).log2 = m / binade - 1 + 52 := by
      rw [units, if_neg small]
      exact log2_shiftLeft (by omega) (by omega) _
    refine ⟨m % binade + binade, m / binade - 1, if_neg small, by omega, ?_⟩
    have split := Nat.div_add_mod m binade
    obtain ⟨e, he⟩ : ∃ e, m / binade = e + 1 := ⟨m / binade - 1, by omega⟩
    rw [he] at split ⊢
    rw [Nat.mul_add, Nat.mul_one] at split
    rw [Nat.add_sub_cancel, Nat.mul_comm e binade]
    omega

theorem one_shiftLeft_pos (s : Nat) : 0 < 1 <<< s := by
  rw [Nat.shiftLeft_eq, Nat.one_mul]
  exact Nat.two_pow_pos s

theorem shiftLeft_eq_mul (n s : Nat) : n <<< s = n * (1 <<< s) := by
  rw [Nat.shiftLeft_eq, Nat.shiftLeft_eq, Nat.one_mul]

/-- Every finite magnitude is nearest to its exact value. -/
theorem nearest_units {m : Nat} (hm : m ≤ infinity) : nearest (units m) (1 <<< 1074) = m := by
  obtain ⟨significand, shift, whole, bits, sum⟩ := @units_eq m
  have positive := one_shiftLeft_pos 1074
  have scaled := shiftLeft_eq_mul (units m) 1074
  have quotient : units m <<< 1074 / 1 <<< 1074 = units m := by
    rw [scaled]
    exact Nat.mul_div_cancel _ positive
  have rounded : roundDiv (units m <<< 1074) ((1 <<< 1074) <<< shift) = significand := by
    have divisor : 0 < (1 <<< 1074) * 2 ^ shift := Nat.mul_pos positive (Nat.two_pow_pos shift)
    rw [scaled, whole, Nat.shiftLeft_eq significand, Nat.shiftLeft_eq _ shift, Nat.mul_assoc,
      Nat.mul_comm (2 ^ shift)]
    exact roundDiv_exact divisor significand
  unfold nearest
  simp only [quotient, bits, rounded, sum]
  exact Nat.min_eq_left hm

end Binary64

namespace Decimal

open Binary64

/-! ## Decimals of one value -/

theorem magnitude_eq (d : Decimal) :
    d.magnitude = nearest (d.digits * tens d.exponent.toNat) (tens (-d.exponent).toNat) := rfl

theorem tens_succ (n : Nat) : tens (n + 1) = 10 * tens n := by
  show 10 ^ (n + 1) = 10 * 10 ^ n
  rw [Nat.pow_succ, Nat.mul_comm]

theorem tens_zero : tens 0 = 1 := rfl

/-- A zero at the end of the digits may stand in the exponent. -/
theorem magnitude_mul_ten (digits : Nat) (exponent : Int) :
    magnitude ⟨10 * digits, exponent⟩ = magnitude ⟨digits, exponent + 1⟩ := by
  rw [magnitude_eq, magnitude_eq]
  by_cases whole : 0 ≤ exponent
  · have up : (exponent + 1).toNat = exponent.toNat + 1 := by omega
    have down : (-exponent).toNat = 0 := by omega
    have down' : (-(exponent + 1)).toNat = 0 := by omega
    simp only [up, down, down', tens_succ]
    congr 1
    rw [Nat.mul_comm 10 digits, Nat.mul_assoc]
  · have up : exponent.toNat = 0 := by omega
    have up' : (exponent + 1).toNat = 0 := by omega
    have down : (-exponent).toNat = (-(exponent + 1)).toNat + 1 := by omega
    simp only [up, up', down, tens_succ, tens_zero, Nat.mul_one]
    exact nearest_mul (by decide) _ _

/-- Any number of zeros at the end of the digits may stand in the exponent. -/
theorem magnitude_mul_tens (d : Decimal) (count : Nat) :
    magnitude ⟨d.digits * tens count, d.exponent - count⟩ = d.magnitude := by
  induction count with
  | zero =>
    rw [tens_zero, Nat.mul_one]
    show magnitude ⟨d.digits, d.exponent - 0⟩ = _
    rw [Int.sub_zero]
  | succ count ih =>
    have digits : d.digits * tens (count + 1) = 10 * (d.digits * tens count) := by
      rw [tens_succ, Nat.mul_left_comm]
    have exponent : d.exponent - (count + 1 : Nat) + 1 = d.exponent - count := by omega
    rw [digits, magnitude_mul_ten, exponent]
    exact ih

theorem magnitude_stripWithin (fuel : Nat) (d : Decimal) :
    (stripWithin fuel d).magnitude = d.magnitude := by
  induction fuel generalizing d with
  | zero => rfl
  | succ fuel ih =>
    unfold stripWithin
    split
    · rename_i trailing
      have digits : 10 * (d.digits / 10) = d.digits := by omega
      rw [ih, ← magnitude_mul_ten, digits]
    · rfl

theorem magnitude_strip (d : Decimal) : d.strip.magnitude = d.magnitude := by
  unfold strip
  split
  · rename_i zero
    rw [magnitude_eq, magnitude_eq, zero, Nat.zero_mul, Nat.zero_mul, nearest_zero, nearest_zero]
  · exact magnitude_stripWithin _ d

/-- Without trailing zeros, zero has no exponent. -/
theorem exponent_of_strip {d : Decimal} (h : d.strip.digits = 0) : d.strip.exponent = 0 := by
  have within : ∀ fuel, ∀ d : Decimal, d.digits ≠ 0 → (stripWithin fuel d).digits ≠ 0 := by
    intro fuel
    induction fuel with
    | zero => exact fun _ h => h
    | succ fuel ih =>
      intro d hd
      unfold stripWithin
      split
      · apply ih
        show d.digits / 10 ≠ 0
        omega
      · exact hd
  unfold strip at h ⊢
  by_cases zero : d.digits = 0
  · rw [if_pos zero]
  · rw [if_neg zero] at h
    exact absurd h (within _ d zero)

/-! ## The shortest decimal -/

/-- A quotient by a power of two, written as a quotient by a power of ten. -/
theorem nearest_tens (u k : Nat) :
    nearest (u * Nat.pow 5 k * tens 0) (tens k) = nearest u (1 <<< k) := by
  have powers : tens k = Nat.pow 5 k * 1 <<< k := by
    rw [Nat.shiftLeft_eq, Nat.one_mul]
    show (5 * 2) ^ k = 5 ^ k * 2 ^ k
    exact Nat.mul_pow 5 2 k
  have positive : 0 < Nat.pow 5 k := Nat.pow_pos (by decide)
  rw [tens_zero, Nat.mul_one, powers, Nat.mul_comm u]
  exact nearest_mul positive u _

/-- Units of the power of two that so many places behind the point can express. -/
theorem magnitude_units (u k : Nat) :
    (⟨u * Nat.pow 5 k, -(k : Int)⟩ : Decimal).magnitude = nearest u (1 <<< k) := by
  have whole : (-(k : Int)).toNat = 0 := by omega
  have below : (-(-(k : Int))).toNat = k := by omega
  rw [magnitude_eq]
  simp only [whole, below]
  exact nearest_tens u k

/-- The exact value reads back. -/
theorem magnitude_exact {m : Nat} (hm : m ≤ infinity) : (exact m).magnitude = m := by
  -- the exponent is a variable here: as a numeral, its power would be evaluated
  have value : ∀ k, 1074 = k → (exact m).magnitude = nearest (units m) (1 <<< k) := by
    intro k hk
    have places : (-1074 : Int) = -(k : Int) := by omega
    rw [exact, places, hk]
    exact magnitude_units (units m) k
  exact (value 1074 rfl).trans (nearest_units hm)

/-- A candidate is taken only if it reads back. -/
theorem magnitude_candidate {tie : Tie} {m wide width n : Nat} {d : Decimal}
    (h : candidate tie m wide width n = some d) : d.magnitude = m := by
  -- the search is unfolded as a function: applied, it would be compared by evaluating a magnitude
  obtain ⟨search, unfolded⟩ : ∃ search, search = candidate := ⟨candidate, rfl⟩
  rw [← unfolded] at h
  delta candidate at unfolded
  rw [unfolded] at h
  simp only at h
  generalize ((2 * (wide / tens (width - n)) + 1) * tens (width - n)) <<< 1074 = middle at h
  generalize 2 * (units m * tens 400) = twice at h
  generalize (⟨wide / tens (width - n), ((width - n : Nat) : Int) - 400⟩ : Decimal) = below at h
  generalize (⟨wide / tens (width - n) + 1, ((width - n : Nat) : Int) - 400⟩ : Decimal) = above at h
  generalize hbelow : (below.magnitude == m) = readsBelow at h
  generalize habove : (above.magnitude == m) = readsAbove at h
  rcases readsBelow with _ | _ <;> rcases readsAbove with _ | _
  · exact absurd h (by simp)
  · rw [Option.some.injEq] at h
    subst h
    exact beq_iff_eq.1 habove
  · rw [Option.some.injEq] at h
    subst h
    exact beq_iff_eq.1 hbelow
  · simp only [Option.some.injEq] at h
    subst h
    -- both neighbours read back, so whichever is nearer does
    split
    · exact beq_iff_eq.1 hbelow
    · split
      · exact beq_iff_eq.1 habove
      · rcases tie with _ | _
        · exact beq_iff_eq.1 habove
        · show (if wide / tens (width - n) % 2 = 0 then below else above).magnitude = m
          split
          · exact beq_iff_eq.1 hbelow
          · exact beq_iff_eq.1 habove

theorem magnitude_shortest (tie : Tie) {m : Nat} (hm : m ≤ infinity) :
    (shortest tie m).magnitude = m := by
  unfold shortest
  simp only [magnitude_strip]
  cases hfound : (List.range 17).findSome? fun n => candidate tie m
      ((units m * tens 400) >>> 1074)
      (Nat.toDigits 10 ((units m * tens 400) >>> 1074)).length (n + 1) with
  | none => exact magnitude_exact hm
  | some d =>
    obtain ⟨n, _, hn⟩ := List.exists_of_findSome?_eq_some hfound
    exact magnitude_candidate hn

/-! ## Digits around a point -/

/-- The text of an integer is its digits, behind a minus sign if it is negative. -/
theorem toString_integer (n : Int) :
    toString n = String.ofList (if 0 ≤ n then Nat.toDigits 10 n.toNat
      else '-' :: Nat.toDigits 10 (-n).toNat) := by
  have text : toString n = if 0 ≤ n then n.toNat.repr else "-" ++ (-n).toNat.repr := Int.repr_eq_if
  rw [text]
  by_cases h : 0 ≤ n
  · rw [if_pos h, if_pos h, Nat.repr_eq_ofList_toDigits]
  · rw [if_neg h, if_neg h, Nat.repr_eq_ofList_toDigits, ← String.toList_inj]
    simp

theorem isDigit_digitText (d : Decimal) : ∀ c ∈ d.digitText, c.isDigit = true :=
  fun _ hc => Nat.isDigit_of_mem_toDigits (by decide) (by decide) hc

theorem isDigit_zeros (n : Nat) : ∀ c ∈ zeros n, c.isDigit = true := by
  intro c hc
  rw [List.eq_of_mem_replicate hc]
  decide

theorem ofDigitChars_digitText (d : Decimal) : Nat.ofDigitChars 10 d.digitText 0 = d.digits :=
  Nat.ofDigitChars_ten_toDigits

/-- What stands behind digits does not change the first of them. -/
theorem head_toDigits_append (n : Nat) (after : List Char) :
    (Nat.toDigits 10 n ++ after).head? = (Nat.toDigits 10 n).head? := by
  rw [List.head?_append, List.head?_eq_some_head Nat.toDigits_ne_nil]
  rfl

/-- The digits of a positive number do not begin with a zero. -/
theorem head_toDigits {n : Nat} (h : n ≠ 0) : (Nat.toDigits 10 n).head? ≠ some '0' := by
  induction n using Nat.strongRecOn with
  | ind n ih =>
    rw [Nat.toDigits_eq_if (by decide)]
    split
    · intro zero
      exact h ((Nat.digitChar_eq_zero).1 (Option.some.inj zero))
    · rw [head_toDigits_append]
      exact ih (n / 10) (by omega) (by omega)

/-- Digits, more digits behind a point, and a power of ten that together stand for a decimal.  Some
    zeros may have moved from the exponent to the digits, at most as many as mark a whole number. -/
structure Parts (d : Decimal) (whole fraction : List Char) (power : Int) : Prop where
  whole_ne : whole ≠ []
  whole_digits : ∀ c ∈ whole, c.isDigit = true
  fraction_digits : ∀ c ∈ fraction, c.isDigit = true
  /-- A zero stands alone in front of the point, if zero itself has no exponent. -/
  leads : (d.digits = 0 → d.exponent = 0) → whole.head? ≠ some '0' ∨ whole.length = 1
  value : ∃ count ≤ (d.exponent + 1).toNat,
    Nat.ofDigitChars 10 (whole ++ fraction) 0 = d.digits * tens count
      ∧ power - (fraction.length : Int) = d.exponent - count

/-- The parts of a decimal keep its value. -/
theorem Parts.magnitude_eq {d : Decimal} {whole fraction : List Char} {power : Int}
    (parts : Parts d whole fraction power) :
    magnitude ⟨Nat.ofDigitChars 10 (whole ++ fraction) 0, power - (fraction.length : Int)⟩
      = d.magnitude := by
  obtain ⟨count, _, digits, exponent⟩ := parts.value
  rw [digits, exponent]
  exact d.magnitude_mul_tens count

/-- A whole number, marked as such by a zero behind the point. -/
theorem parts_whole {d : Decimal} (h : 0 ≤ d.exponent) :
    Parts d (d.digitText ++ zeros d.exponent.toNat) ['0'] 0 where
  whole_ne := by
    rw [Ne, List.append_eq_nil_iff]
    exact fun nil => Nat.toDigits_ne_nil nil.1
  whole_digits := by
    intro c hc
    rcases List.mem_append.1 hc with hc | hc
    · exact isDigit_digitText d c hc
    · exact isDigit_zeros _ c hc
  fraction_digits := by
    intro c hc
    rw [List.mem_singleton.1 hc]
    decide
  leads := by
    intro normal
    by_cases zero : d.digits = 0
    · right
      rw [digitText, zero, normal zero]
      rfl
    · left
      rw [digitText, head_toDigits_append]
      exact head_toDigits zero
  value := by
    refine ⟨d.exponent.toNat + 1, by omega, ?_, ?_⟩
    · rw [Nat.ofDigitChars_append, Nat.ofDigitChars_append, ofDigitChars_digitText, zeros,
        Nat.ofDigitChars_replicate_zero, tens_succ]
      show 10 * (10 ^ d.exponent.toNat * d.digits) + 0 = d.digits * (10 * 10 ^ d.exponent.toNat)
      rw [Nat.add_zero, Nat.mul_comm d.digits, Nat.mul_assoc]
    · show (0 : Int) - 1 = d.exponent - (d.exponent.toNat + 1 : Nat)
      omega

/-- The point stands among the digits. -/
theorem parts_inside {d : Decimal} (h : d.exponent < 0) (inside : 0 < d.point) :
    Parts d (d.digitText.take d.point.toNat) (d.digitText.drop d.point.toNat) 0 where
  whole_ne := by
    have place : d.point = d.digitText.length + d.exponent := rfl
    apply List.length_pos_iff.1
    rw [List.length_take]
    omega
  whole_digits := fun c hc => isDigit_digitText d c (List.mem_of_mem_take hc)
  fraction_digits := fun c hc => isDigit_digitText d c (List.mem_of_mem_drop hc)
  leads := by
    intro _
    left
    rw [List.head?_take, if_neg (by omega)]
    apply head_toDigits
    intro zero
    -- zero has one digit, so no point stands among its digits
    have place : d.point = d.digitText.length + d.exponent := rfl
    rw [digitText, zero] at place
    have : d.point = 1 + d.exponent := place
    omega
  value := by
    have place : d.point = d.digitText.length + d.exponent := rfl
    refine ⟨0, Nat.zero_le _, ?_, ?_⟩
    · rw [List.take_append_drop, ofDigitChars_digitText, tens_zero, Nat.mul_one]
    · rw [List.length_drop]
      omega

/-- The point stands before all digits, with zeros between. -/
theorem parts_before {d : Decimal} (before : d.point ≤ 0) :
    Parts d ['0'] (zeros (-d.point).toNat ++ d.digitText) 0 where
  whole_ne := by simp
  whole_digits := by
    intro c hc
    rw [List.mem_singleton.1 hc]
    decide
  fraction_digits := by
    intro c hc
    rcases List.mem_append.1 hc with hc | hc
    · exact isDigit_zeros _ c hc
    · exact isDigit_digitText d c hc
  leads := fun _ => .inr rfl
  value := by
    have place : d.point = d.digitText.length + d.exponent := rfl
    have filled : (zeros (-d.point).toNat).length = (-d.point).toNat := List.length_replicate
    have leading : Nat.ofDigitChars 10 ['0'] 0 = 0 := rfl
    refine ⟨0, Nat.zero_le _, ?_, ?_⟩
    · rw [Nat.ofDigitChars_append, Nat.ofDigitChars_append, leading, zeros,
        Nat.ofDigitChars_replicate_zero, Nat.mul_zero, ofDigitChars_digitText, tens_zero, Nat.mul_one]
    · rw [List.length_append]
      omega

/-- One digit stands before the point, and the exponent says where the point belongs. -/
theorem parts_scientific (d : Decimal) :
    Parts d (d.digitText.take 1) (d.digitText.drop 1) (d.point - 1) where
  whole_ne := by
    apply List.length_pos_iff.1
    rw [List.length_take]
    have : 0 < d.digitText.length := List.length_pos_iff.2 Nat.toDigits_ne_nil
    omega
  whole_digits := fun c hc => isDigit_digitText d c (List.mem_of_mem_take hc)
  fraction_digits := fun c hc => isDigit_digitText d c (List.mem_of_mem_drop hc)
  leads := by
    intro _
    right
    rw [List.length_take]
    have : 0 < d.digitText.length := List.length_pos_iff.2 Nat.toDigits_ne_nil
    omega
  value := by
    have place : d.point = d.digitText.length + d.exponent := rfl
    have : 0 < d.digitText.length := List.length_pos_iff.2 Nat.toDigits_ne_nil
    refine ⟨0, Nat.zero_le _, ?_, ?_⟩
    · rw [List.take_append_drop, ofDigitChars_digitText, tens_zero, Nat.mul_one]
    · rw [List.length_drop]
      omega

/-- The positional text of a decimal, marked if it is a whole number, has digits on both sides of a
    point. -/
theorem exists_positional (d : Decimal) :
    ∃ whole fraction, d.positional ++ (if 0 ≤ d.exponent then ['.', '0'] else [])
        = whole ++ '.' :: fraction
      ∧ fraction ≠ [] ∧ Parts d whole fraction 0 := by
  by_cases whole : 0 ≤ d.exponent
  · have positional : d.positional = d.digitText ++ zeros d.exponent.toNat := if_pos whole
    exact ⟨_, _, by rw [if_pos whole, positional], by simp, parts_whole whole⟩
  · rw [if_neg whole, List.append_nil]
    by_cases inside : 0 < d.point
    · have positional : d.positional
          = d.digitText.take d.point.toNat ++ '.' :: d.digitText.drop d.point.toNat :=
        (if_neg whole).trans (if_pos inside)
      refine ⟨_, _, positional, ?_, parts_inside (by omega) inside⟩
      have place : d.point = d.digitText.length + d.exponent := rfl
      apply List.length_pos_iff.1
      rw [List.length_drop]
      omega
    · have positional : d.positional
          = ['0'] ++ '.' :: (zeros (-d.point).toNat ++ d.digitText) :=
        (if_neg whole).trans (if_neg inside)
      refine ⟨_, _, positional, ?_, parts_before (by omega)⟩
      rw [Ne, List.append_eq_nil_iff]
      exact fun nil => Nat.toDigits_ne_nil nil.2

end Decimal

namespace Notation

open Decimal

/-- The decimal that is written for a finite magnitude. -/
def decimalOf (form : Notation) (m : Nat) : Decimal :=
  if m = 0 then ⟨0, 0⟩ else shortest form.tie m

theorem magnitude_decimalOf (form : Notation) {m : Nat} (hm : m ≤ Binary64.infinity) :
    (decimalOf form m).magnitude = m := by
  unfold decimalOf
  by_cases zero : m = 0
  · rw [if_pos zero, magnitude_eq, Nat.zero_mul, Binary64.nearest_zero, zero]
  · rw [if_neg zero]
    exact magnitude_shortest form.tie hm

/-- Zero is written without an exponent. -/
theorem exponent_decimalOf {form : Notation} {m : Nat} (h : (decimalOf form m).digits = 0) :
    (decimalOf form m).exponent = 0 := by
  unfold decimalOf at h ⊢
  split
  · rfl
  · rename_i positive
    rw [if_neg positive] at h
    exact exponent_of_strip h

/-- A form that marks whole numbers. -/
theorem magnitudeText_eq (form : Notation) (marks : form.marksWhole = true) (m : Nat) :
    form.magnitudeText m = if form.positional (decimalOf form m).point = true then
        (decimalOf form m).positional ++ (if 0 ≤ (decimalOf form m).exponent then ['.', '0'] else [])
      else (decimalOf form m).scientific := by
  unfold magnitudeText decimalOf
  generalize (if m = 0 then ⟨0, 0⟩ else shortest form.tie m : Decimal) = d
  simp only [marks, Bool.true_and, decide_eq_true_eq]

/-- The written form of a finite magnitude is digits, a point and digits, and it reads back. -/
theorem pointed_reads_back {m : Nat} (hm : m ≤ Binary64.infinity) :
    ∃ whole fraction, pointed.magnitudeText m = whole ++ '.' :: fraction
      ∧ whole ≠ [] ∧ fraction ≠ [] ∧ (∀ c ∈ whole, c.isDigit = true)
      ∧ (∀ c ∈ fraction, c.isDigit = true) ∧ (ofParts whole fraction).magnitude = m := by
  have text := (magnitudeText_eq pointed rfl m).trans (if_pos rfl)
  have value := magnitude_decimalOf pointed hm
  generalize decimalOf pointed m = d at text value
  obtain ⟨whole, fraction, joined, more, parts⟩ := d.exists_positional
  refine ⟨whole, fraction, text.trans joined, parts.whole_ne, more, parts.whole_digits,
    parts.fraction_digits, ?_⟩
  have same := parts.magnitude_eq
  rw [Int.zero_sub] at same
  exact same.trans value

end Notation
end LibrarySpec
