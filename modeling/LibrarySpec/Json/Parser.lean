/-
  Reading JSON text.

  `Json.parse` reads a whole text as one value, or refuses it.  Arrays and objects may stand inside
  each other at most `deepest` levels deep; a document deeper than that is refused, well-formed or
  not.

  Numbers:

    1. Digits alone are an integer from -2^63 up to 2^64 - 1.  Outside that range, and for `-0`,
       they are a floating-point number.
    2. A floating-point number is read in two roundings.  As many leading digits as fit into 64
       bits make the significand; digits after them are dropped.  The significand is rounded, and
       then multiplied or divided by a power of ten.  So a number of more than fifteen digits can
       differ in its last bit from the nearest one.
    3. A number too large is refused; one too small is zero.
-/
import LibrarySpec.Decimal.Shortest
import LibrarySpec.Json.Basic

namespace LibrarySpec.Json

/-- How many arrays and objects may stand inside each other. -/
def deepest : Nat := 127

/-- The text after the spaces at its start. -/
def skipSpaces (text : List Char) : List Char := text.dropWhile isSpace

/-! ## Numbers -/

/-- Appends digits to a significand of at most 64 bits: the significand and the number of digits
    that did not fit. -/
def significand (soFar : Nat) : List Char → Nat × Nat
  | [] => (soFar, 0)
  | d :: rest =>
    let longer := 10 * soFar + (d.toNat - '0'.toNat)
    if longer < UInt64.size then significand longer rest else (soFar, rest.length + 1)

/-- A power of ten as a floating-point number. -/
def powerOfTen (n : Nat) : Binary64 := .ofQuotient false (Decimal.tens n) 1

/-- Divides by a power of ten, by at most 10^308 at a time. -/
def divideByPower (x : Binary64) (n : Nat) : Binary64 :=
  if n ≤ 308 then x.scaleDown (powerOfTen n)
  else if x.magnitude = 0 then x
  else divideByPower (x.scaleDown (powerOfTen 308)) (n - 308)
termination_by n

/-- Multiplies by a power of ten, unless that overflows. -/
def multiplyByPower? (x : Binary64) (n : Nat) : Option Binary64 :=
  if n ≤ 308 then
    let product := x.scaleUp (powerOfTen n)
    if product.isInfinite then none else some product
  else if x.magnitude = 0 then some x
  else none

/-- The floating-point number with these digits before and after its point, times a power of
    ten. -/
def floatOf? (negative : Bool) (whole fraction : List Char) (power : Int) : Option Binary64 :=
  let (first, missedWhole) := significand 0 whole
  let (digits, missedFraction) := significand first fraction
  let exponent : Int := power + missedWhole - (fraction.length - missedFraction : Nat)
  let x := Binary64.ofQuotient negative digits 1
  if exponent < 0 then some (divideByPower x exponent.natAbs)
  else multiplyByPower? x exponent.natAbs

/-- The number that digits alone stand for. -/
def integerOf? (negative : Bool) (digits : List Char) : Option Json :=
  let n := Nat.ofDigitChars 10 digits 0
  if negative then
    if 0 < n ∧ Int64.minValue.toInt ≤ -n then some (.integer (-n))
    else (floatOf? true digits [] 0).map .float
  else if n < UInt64.size then some (.integer n)
  else (floatOf? false digits [] 0).map .float

/-- One or more digits at the start of a text, and the text after them. -/
def digits? (text : List Char) : Option (List Char × List Char) :=
  let digits := text.takeWhile Char.isDigit
  if digits.isEmpty then none else some (digits, text.dropWhile Char.isDigit)

/-- The digits before the point: no zero stands before another digit. -/
def whole? (text : List Char) : Option (List Char × List Char) :=
  (digits? text).filter fun (digits, _) => digits.head? ≠ some '0' || digits.length = 1

/-- The digits after the point, if there is one; `none` if the point has none. -/
def fraction? : List Char → Option (Option (List Char) × List Char)
  | '.' :: rest => (digits? rest).map fun (digits, after) => (some digits, after)
  | text => some (none, text)

/-- Whether a text begins with a minus sign, and the text after its sign, if it has one. -/
def sign : List Char → Bool × List Char
  | '-' :: rest => (true, rest)
  | '+' :: rest => (false, rest)
  | text => (false, text)

/-- The exponent, if there is one; `none` if it has no digits. -/
def exponent? : List Char → Option (Option Int × List Char)
  | c :: rest =>
    if c = 'e' ∨ c = 'E' then
      let (negative, rest) := sign rest
      (digits? rest).map fun (digits, after) =>
        let n : Int := Nat.ofDigitChars 10 digits 0
        (some (if negative then -n else n), after)
    else some (none, c :: rest)
  | [] => some (none, [])

/-- A number without its sign. -/
def unsigned? (negative : Bool) (text : List Char) : Option (Json × List Char) := do
  let (whole, text) ← whole? text
  let (fraction, text) ← fraction? text
  let (exponent, text) ← exponent? text
  if fraction.isNone && exponent.isNone then
    return (← integerOf? negative whole, text)
  else
    return (.float (← floatOf? negative whole (fraction.getD []) (exponent.getD 0)), text)

/-- A number. -/
def number? : List Char → Option (Json × List Char)
  | '-' :: rest => unsigned? true rest
  | text => unsigned? false text

/-! ## Strings -/

/-- The value of a hexadecimal digit. -/
def hexDigit? (c : Char) : Option Nat :=
  if c.isDigit then some (c.toNat - '0'.toNat)
  else if 'a' ≤ c ∧ c ≤ 'f' then some (c.toNat - 'a'.toNat + 10)
  else if 'A' ≤ c ∧ c ≤ 'F' then some (c.toNat - 'A'.toNat + 10)
  else none

/-- The number that four hexadecimal digits spell, and the text after them. -/
def hexFour? : List Char → Option (Nat × List Char)
  | a :: b :: c :: d :: rest => do
    let n := (((← hexDigit? a) * 16 + (← hexDigit? b)) * 16 + (← hexDigit? c)) * 16
    return (n + (← hexDigit? d), rest)
  | _ => none

/-- The character after `\u`, and the text after it.  A character above U+FFFF is written as two
    halves, the high half first; a half on its own is refused. -/
def unicode? (text : List Char) : Option (Char × List Char) := do
  let (high, rest) ← hexFour? text
  if 0xD800 ≤ high ∧ high < 0xDC00 then
    match rest with
    | '\\' :: 'u' :: rest =>
      let (low, rest) ← hexFour? rest
      if 0xDC00 ≤ low ∧ low < 0xE000 then
        return (Char.ofNat (0x10000 + (high - 0xD800) * 0x400 + (low - 0xDC00)), rest)
      else none
    | _ => none
  else if 0xDC00 ≤ high ∧ high < 0xE000 then none
  else return (Char.ofNat high, rest)

/-- The character that a letter after a backslash stands for. -/
def unescape? : Char → Option Char
  | '"' => some '"'
  | '\\' => some '\\'
  | '/' => some '/'
  | 'b' => some (Char.ofNat 8)
  | 'f' => some (Char.ofNat 12)
  | 'n' => some '\n'
  | 'r' => some '\r'
  | 't' => some '\t'
  | _ => none

/-- One character of a string, and the text after it. -/
def character? : List Char → Option (Char × List Char)
  | '\\' :: 'u' :: rest => unicode? rest
  | '\\' :: letter :: rest => (unescape? letter).map (·, rest)
  | c :: rest => if c.toNat < 0x20 ∨ c = '\\' then none else some (c, rest)
  | [] => none

/-- The inside of a string up to its closing quote, fewer than `fuel` characters. -/
def stringWithin? : (fuel : Nat) → List Char → Option (List Char × List Char)
  | 0, _ => none
  | fuel + 1, text =>
    match text with
    | '"' :: rest => some ([], rest)
    | _ => do
      let (c, rest) ← character? text
      let (value, after) ← stringWithin? fuel rest
      return (c :: value, after)

/-- A string after its opening quote, fewer than `fuel` characters. -/
def quotedWithin? (fuel : Nat) (text : List Char) : Option (String × List Char) :=
  (stringWithin? fuel text).map fun (value, after) => (String.ofList value, after)

/-! ## Values -/

mutual

/-- A value, in a text of fewer than `fuel` characters and at most `depth` brackets deep. -/
def valueWithin? (fuel depth : Nat) (text : List Char) : Option (Json × List Char) :=
  match fuel with
  | 0 => none
  | fuel + 1 =>
    match skipSpaces text with
    | 'n' :: 'u' :: 'l' :: 'l' :: rest => some (.null, rest)
    | 't' :: 'r' :: 'u' :: 'e' :: rest => some (.bool true, rest)
    | 'f' :: 'a' :: 'l' :: 's' :: 'e' :: rest => some (.bool false, rest)
    | '"' :: rest => (quotedWithin? fuel rest).map fun (value, after) => (.string value, after)
    | '[' :: rest =>
      match depth with
      | 0 => none
      | depth + 1 =>
        match skipSpaces rest with
        | ']' :: rest => some (.array [], rest)
        | rest => (itemsWithin? fuel depth rest).map fun (items, after) => (.array items, after)
    | '\x7b' :: rest =>
      match depth with
      | 0 => none
      | depth + 1 =>
        match skipSpaces rest with
        | '\x7d' :: rest => some (.object [], rest)
        | rest =>
          (membersWithin? fuel depth rest).map fun (members, after) => (.object members, after)
    | text => number? text

/-- The items of an array up to its closing bracket. -/
def itemsWithin? (fuel depth : Nat) (text : List Char) : Option (List Json × List Char) :=
  match fuel with
  | 0 => none
  | fuel + 1 => do
    let (item, rest) ← valueWithin? fuel depth text
    match skipSpaces rest with
    | ']' :: rest => return ([item], rest)
    | ',' :: rest =>
      let (items, after) ← itemsWithin? fuel depth rest
      return (item :: items, after)
    | _ => none

/-- The members of an object up to its closing brace. -/
def membersWithin? (fuel depth : Nat) (text : List Char) :
    Option (List (String × Json) × List Char) :=
  match fuel with
  | 0 => none
  | fuel + 1 =>
    match skipSpaces text with
    | '"' :: rest => do
      let (name, rest) ← quotedWithin? fuel rest
      match skipSpaces rest with
      | ':' :: rest =>
        let (value, rest) ← valueWithin? fuel depth rest
        match skipSpaces rest with
        | '\x7d' :: rest => return ([(name, value)], rest)
        | ',' :: rest =>
          let (members, after) ← membersWithin? fuel depth rest
          return ((name, value) :: members, after)
        | _ => none
      | _ => none
    | _ => none

end

/-- The value that a whole text spells, at most `depth` brackets deep. -/
def parseWithin (depth : Nat) (text : String) : Option Json :=
  match valueWithin? (text.toList.length + 1) depth text.toList with
  | some (value, rest) => if (skipSpaces rest).isEmpty then some value else none
  | none => none

/-- The value that a whole text spells. -/
def parse (text : String) : Option Json := parseWithin deepest text

end LibrarySpec.Json
