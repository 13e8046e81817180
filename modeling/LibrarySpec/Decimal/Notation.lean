/-
  Written forms of floating-point numbers.

  A written form is the digits of the shortest decimal laid out around a decimal point.  What the
  forms used in this library decide differently stands in a `Notation`; `plain` is the form of a
  bare number and `pointed` the one that a contract or a document can read back as a
  floating-point number.

  `Decimal.ofText?` reads the positional form: digits, or digits, a point and digits.
-/
import LibrarySpec.Decimal.Shortest

namespace LibrarySpec

namespace Decimal

/-- The digits of a decimal. -/
def digitText (d : Decimal) : List Char := Nat.toDigits 10 d.digits

/-- The place of the decimal point, counted in digits from the first. -/
def point (d : Decimal) : Int := d.digitText.length + d.exponent

/-- A run of zeros. -/
def zeros (n : Nat) : List Char := List.replicate n '0'

/-- The positional text: no exponent, and a point only where a fraction follows. -/
def positional (d : Decimal) : List Char :=
  let digits := d.digitText
  if 0 ≤ d.exponent then digits ++ zeros d.exponent.toNat
  else if 0 < d.point then digits.take d.point.toNat ++ '.' :: digits.drop d.point.toNat
  else '0' :: '.' :: zeros (-d.point).toNat ++ digits

/-- The scientific text: one digit before the point and a signed exponent. -/
def scientific (d : Decimal) : List Char :=
  let fraction := d.digitText.drop 1
  let power := d.point - 1
  d.digitText.take 1
    ++ (if fraction.isEmpty then [] else '.' :: fraction)
    ++ 'e' :: (if power < 0 then '-' else '+') :: Nat.toDigits 10 power.natAbs

/-- The decimal that digits stand for, with a fraction of digits after them. -/
def ofParts (whole fraction : List Char) : Decimal :=
  ⟨Nat.ofDigitChars 10 (whole ++ fraction) 0, -(fraction.length : Int)⟩

end Decimal

/-- The decisions of a written form. -/
structure Notation where
  /-- Which of two equally near shortest decimals is written. -/
  tie : Decimal.Tie
  /-- Whether a number whose point stands at this place is written without an exponent. -/
  positional : Int → Bool
  /-- Whether a whole number written without an exponent ends in `.0`. -/
  marksWhole : Bool

namespace Notation

/-- A bare number: never an exponent, a point only before a fraction, a tie goes up. -/
def plain : Notation := ⟨.up, fun _ => true, false⟩

/-- A bare number that always has a point. -/
def pointed : Notation := ⟨.up, fun _ => true, true⟩

/-- The written form of a finite magnitude. -/
def magnitudeText (form : Notation) (magnitude : Nat) : List Char :=
  let d := if magnitude = 0 then ⟨0, 0⟩ else Decimal.shortest form.tie magnitude
  if form.positional d.point then
    d.positional ++ (if form.marksWhole && 0 ≤ d.exponent then ['.', '0'] else [])
  else d.scientific

/-- The written form of a number.  An infinity is the word `inf`. -/
def text (form : Notation) (x : Binary64) : String :=
  String.ofList ((if x.negative then ['-'] else []) ++
    if x.isInfinite then ['i', 'n', 'f'] else form.magnitudeText x.magnitude)

end Notation

end LibrarySpec
