/-
  Decimal numbers and the shortest decimal of a floating-point number.

  A `Decimal` is a natural number times a power of ten.  Among the decimals that read back to a
  given magnitude, `Decimal.shortest` picks the one with the fewest digits and, of two with
  equally many, the nearer to the exact value; `Tie` says which to take when both are equally near.

  The search runs over grids: with `n` digits the decimals form a grid, the exact value has one
  neighbour on it below (or at) itself and one above, and only these two can be nearest.  The
  first `n` for which one of the two reads back wins.  Seventeen digits are always enough; should
  none be found, the exact value is taken, which reads back whatever its length, so a wrong number
  can never be written.
-/
import LibrarySpec.Decimal.Binary64

namespace LibrarySpec

/-- The number `digits * 10 ^ exponent`. -/
structure Decimal where
  digits : Nat
  exponent : Int
deriving DecidableEq, Repr

namespace Decimal

/-- A power of ten. -/
def tens (n : Nat) : Nat := Nat.pow 10 n

/-- Which of two equally near decimals to take. -/
inductive Tie where
  /-- The larger. -/
  | up
  /-- The one whose last digit is even. -/
  | even
deriving DecidableEq, Repr

/-- The floating-point number nearest to a decimal, with a sign. -/
def toBinary64 (d : Decimal) (negative : Bool) : Binary64 :=
  .ofQuotient negative (d.digits * tens d.exponent.toNat) (tens (-d.exponent).toNat)

/-- The magnitude nearest to a decimal. -/
def magnitude (d : Decimal) : Nat := (d.toBinary64 false).magnitude

/-- The decimal with its trailing zeros moved into the exponent; at most `fuel` of them. -/
def stripWithin : Nat → Decimal → Decimal
  | 0, d => d
  | fuel + 1, d =>
    if d.digits % 10 = 0 then stripWithin fuel ⟨d.digits / 10, d.exponent + 1⟩ else d

/-- The same number without trailing zeros among its digits.  A positive number has fewer trailing
    zeros than bits. -/
def strip (d : Decimal) : Decimal :=
  if d.digits = 0 then ⟨0, 0⟩ else stripWithin d.digits.log2 d

/-- The exact value of a finite magnitude. -/
def exact (magnitude : Nat) : Decimal :=
  ⟨Binary64.units magnitude * Nat.pow 5 1074, -1074⟩

/-- Of the two neighbours of a positive finite magnitude on the grid with `n` digits, the nearer
    one that reads back.  `wide` is the value times 10^400 without its fraction and `width` the
    number of its digits. -/
def candidate (tie : Tie) (magnitude wide width n : Nat) : Option Decimal :=
  let lower := wide / tens (width - n)
  let exponent : Int := (width - n : Nat) - 400
  let below : Decimal := ⟨lower, exponent⟩
  let above : Decimal := ⟨lower + 1, exponent⟩
  let middle := ((2 * lower + 1) * tens (width - n)) <<< 1074
  let twice := 2 * (Binary64.units magnitude * tens 400)
  let nearer :=
    if twice < middle then below
    else if middle < twice then above
    else match tie with
      | .up => above
      | .even => if lower % 2 = 0 then below else above
  match below.magnitude == magnitude, above.magnitude == magnitude with
  | true, true => some nearer
  | true, false => some below
  | false, true => some above
  | false, false => none

/-- The shortest decimal that reads back to a positive finite magnitude. -/
def shortest (tie : Tie) (magnitude : Nat) : Decimal :=
  let wide := (Binary64.units magnitude * tens 400) >>> 1074
  let width := (Nat.toDigits 10 wide).length
  let found := (List.range 17).findSome? fun n => candidate tie magnitude wide width (n + 1)
  strip (found.getD (exact magnitude))

end Decimal
end LibrarySpec
