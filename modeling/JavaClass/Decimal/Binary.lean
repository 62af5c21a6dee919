/-
  Binary floating point, read off its bits.

  A format has a sign bit, then an exponent field, then a fraction field.  A finite value is
  `± m · 2 ^ q` for a natural number `m`; the numbers nearer to it than to any other value of the
  format form the interval around it that `JavaClass.Decimal.Shortest` looks for decimals in.
-/

namespace JavaClass.Decimal

/-- The widths of the fields of a binary floating-point format. -/
structure FloatFormat where
  exponentBits : Nat
  fractionBits : Nat
deriving DecidableEq, Repr

/-- Single precision: 8 bits of exponent, 23 bits of fraction. -/
def FloatFormat.single : FloatFormat := ⟨8, 23⟩

/-- Double precision: 11 bits of exponent, 52 bits of fraction. -/
def FloatFormat.double : FloatFormat := ⟨11, 52⟩

/-- What a bit pattern stands for. -/
inductive FloatValue where
  | nan
  | infinity (negative : Bool)
  /-- The number `± significand · 2 ^ exponent`.  Below a power of two the values of the format lie
      twice as close as above it, which is what `atBinade` records. -/
  | finite (negative : Bool) (significand : Nat) (exponent : Int) (atBinade : Bool)
deriving DecidableEq, Repr

/-- Decodes a bit pattern of a format. -/
def FloatFormat.decode (format : FloatFormat) (bits : Nat) : FloatValue :=
  let fraction := bits % Nat.pow 2 format.fractionBits
  let exponent := bits / Nat.pow 2 format.fractionBits % Nat.pow 2 format.exponentBits
  let negative := bits / Nat.pow 2 (format.fractionBits + format.exponentBits) % 2 == 1
  let lowest : Int := 2 - Nat.pow 2 (format.exponentBits - 1) - format.fractionBits
  if exponent = Nat.pow 2 format.exponentBits - 1 then
    if fraction = 0 then .infinity negative else .nan
  else if exponent = 0 then .finite negative fraction lowest false
  else .finite negative (Nat.pow 2 format.fractionBits + fraction) (lowest + exponent - 1)
    (fraction == 0 && exponent > 1)

end JavaClass.Decimal
