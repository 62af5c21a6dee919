/-
  Floating-point numbers as text.

  A finite number is written in positional notation, without an exponent however long that gets,
  with its shortest digits; an integral value has no decimal point, and zero keeps its sign.
-/
import JavaClass.Decimal.Shortest

namespace JavaClass.Decimal

/-- The decimal digits of a number without trailing zeros, and how many of those there were. -/
def significant (n : Nat) : List Char × Nat :=
  let reversed := (Nat.toDigits 10 n).reverse
  (((reversed.dropWhile (· == '0')).reverse), (reversed.takeWhile (· == '0')).length)

/-- A decimal in positional notation. -/
def Dec.positional (d : Dec) : String :=
  let (digits, zeros) := significant d.digits
  let exponent := d.exponent + zeros
  let whole := digits.length + exponent
  if 0 ≤ exponent then String.ofList (digits ++ List.replicate exponent.toNat '0')
  else if 0 < whole then
    String.ofList (digits.take whole.toNat ++ '.' :: digits.drop whole.toNat)
  else String.ofList ('0' :: '.' :: List.replicate (-whole).toNat '0' ++ digits)

/-- The text of a floating-point value. -/
def FloatValue.text : FloatValue → String
  | .nan => "NaN"
  | .infinity negative => if negative then "-inf" else "inf"
  | .finite negative significand exponent atBinade =>
    let sign := if negative then "-" else ""
    if significand = 0 then sign ++ "0"
    else sign ++ (Interval.around significand exponent atBinade).shortest.positional

/-- The text of a single-precision number, given by its bits. -/
def singleText (bits : UInt32) : String := (FloatFormat.single.decode bits.toNat).text

/-- The text of a double-precision number, given by its bits. -/
def doubleText (bits : UInt64) : String := (FloatFormat.double.decode bits.toNat).text

end JavaClass.Decimal
