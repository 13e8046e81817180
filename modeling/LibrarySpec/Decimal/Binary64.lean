/-
  Floating-point numbers of 64 bits.

  A `Binary64` is a sign and a magnitude; it is a finite number or an infinity, never a
  not-a-number, because nothing in a library specification makes one.  The magnitude is held as
  its 63 bits, eleven of exponent above fifty-two of fraction, so a larger number has a larger bit
  pattern and the pattern after the largest finite number is infinity.

    1. `units` is the exact value of a finite magnitude in multiples of the smallest positive one,
       2^-1074.  Every finite magnitude is such a multiple, so no rounding hides in it.
    2. `nearest` rounds an exact quotient of naturals to the nearest magnitude; a tie goes to the
       one whose bit pattern is even, and a quotient too large for every finite magnitude gives
       infinity.  Reading, multiplying and dividing all end in `nearest`.
    3. `==` compares as numbers, so zero equals its negative; `=` tells the two apart.
-/

namespace LibrarySpec

/-- A floating-point number of 64 bits other than a not-a-number. -/
structure Binary64 where
  negative : Bool
  /-- The bits below the sign: eleven of exponent, fifty-two of fraction. -/
  magnitude : Nat
  magnitude_le : magnitude ≤ 0x7FF0000000000000 := by decide
deriving DecidableEq

namespace Binary64

/-- The magnitude of the infinities. -/
def infinity : Nat := 0x7FF0000000000000

/-- The quotient of two naturals rounded to the nearest natural, a tie to the even one. -/
def roundDiv (a b : Nat) : Nat :=
  let q := a / b
  let twice := 2 * (a % b)
  if twice < b then q else if b < twice then q + 1 else q + q % 2

/-- The distance of two binades in bit patterns, 2^52. -/
def binade : Nat := 0x10000000000000

/-- The value of a finite magnitude in multiples of 2^-1074. -/
def units (magnitude : Nat) : Nat :=
  if magnitude < binade then magnitude
  else (magnitude % binade + binade) <<< (magnitude / binade - 1)

/-- The magnitude nearest to `num / den`.  The quotient in units is cut to fifty-three bits by
    dropping `shift` of them; a significand of fifty-three bits with `shift` places below it has
    the bit pattern `significand + shift * binade`, also when rounding carried into the next binade. -/
def nearest (num den : Nat) : Nat :=
  let scaled := num <<< 1074
  let shift := (scaled / den).log2 - 52
  let significand := roundDiv scaled (den <<< shift)
  min (significand + shift * binade) infinity

/-- The number with this sign whose magnitude is nearest to `num / den`. -/
def ofQuotient (negative : Bool) (num den : Nat) : Binary64 :=
  ⟨negative, nearest num den, Nat.min_le_right _ _⟩

/-- Whether the number is an infinity. -/
def isInfinite (x : Binary64) : Bool := x.magnitude == infinity

/-- The number with the other sign. -/
def neg (x : Binary64) : Binary64 := ⟨!x.negative, x.magnitude, x.magnitude_le⟩

instance : Neg Binary64 := ⟨neg⟩

/-- Positive zero. -/
def zero : Binary64 := ⟨false, 0, by decide⟩

/-- The product of the magnitudes of two finite numbers, rounded once. -/
def scaleUp (x y : Binary64) : Binary64 :=
  ofQuotient x.negative (units x.magnitude * units y.magnitude) (1 <<< 2148)

/-- The quotient of the magnitudes of two finite numbers, rounded once. -/
def scaleDown (x y : Binary64) : Binary64 :=
  ofQuotient x.negative (units x.magnitude) (units y.magnitude)

/-- Equality as numbers: zero has two signs and one value. -/
def same (x y : Binary64) : Bool :=
  x.magnitude == y.magnitude && (x.negative == y.negative || x.magnitude == 0)

instance : BEq Binary64 := ⟨same⟩

end Binary64
end LibrarySpec
