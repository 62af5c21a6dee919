/-
  The shortest decimal that reads back.

  Of the decimals in the rounding interval of a binary floating-point value, the one with the
  fewest significant digits is chosen, and of several with as few digits the nearest to the value;
  an exact tie goes to the larger.  Everything is decided in natural numbers: the value is a
  quotient `num / den`, and for 1, 2, … digits its two neighbours on the grid of decimals with
  that many digits are tested against the interval.  If any point of a grid lies in the interval
  then one of these two does, and seventeen digits are always enough.
-/
import JavaClass.Decimal.Binary

namespace JavaClass.Decimal

/-- A value with the interval of the reals that round to it, all over one denominator.  The ends
    of the interval belong to it if `closed`. -/
structure Interval where
  low : Nat
  value : Nat
  high : Nat
  den : Nat
  closed : Bool
deriving DecidableEq, Repr

/-- The rounding interval of `significand · 2 ^ exponent`: half way to the value on either side,
    ends included exactly when the significand is even. -/
def Interval.around (significand : Nat) (exponent : Int) (atBinade : Bool) : Interval :=
  let scale := Nat.pow 2 exponent.toNat
  { low := (4 * significand - (if atBinade then 1 else 2)) * scale
    value := 4 * significand * scale
    high := (4 * significand + 2) * scale
    den := 4 * Nat.pow 2 (-exponent).toNat
    closed := significand % 2 == 0 }

/-- A decimal `digits · 10 ^ exponent`. -/
structure Dec where
  digits : Nat
  exponent : Int
deriving DecidableEq, Repr

/-- The numerator of `10 ^ e`. -/
def tenNum (e : Int) : Nat := Nat.pow 10 e.toNat

/-- The denominator of `10 ^ e`. -/
def tenDen (e : Int) : Nat := Nat.pow 10 (-e).toNat

/-- Whether a decimal lies in the interval. -/
def Interval.contains (i : Interval) (d : Dec) : Bool :=
  let point := d.digits * tenNum d.exponent * i.den
  let low := i.low * tenDen d.exponent
  let high := i.high * tenDen d.exponent
  if i.closed then low ≤ point && point ≤ high else low < point && point < high

/-- The distance of a decimal from the value, in units that depend only on the decimal's exponent. -/
def Interval.distance (i : Interval) (d : Dec) : Nat :=
  let point := d.digits * tenNum d.exponent * i.den
  let value := i.value * tenDen d.exponent
  (point - value) + (value - point)

/-- The point of the grid `10 ^ e` to be taken for the value: of its two neighbours the one in the
    interval, and if both are the nearer, the upper one on a tie. -/
def Interval.onGrid (i : Interval) (e : Int) : Option Dec :=
  let below := i.value * tenDen e / (tenNum e * i.den)
  let down : Dec := ⟨below, e⟩
  let up : Dec := ⟨below + 1, e⟩
  match i.contains down, i.contains up with
  | true, true => some (if i.distance down < i.distance up then down else up)
  | true, false => some down
  | false, true => some up
  | false, false => none

/-- How many decimal digits a number has; zero has none. -/
def digitCount (n : Nat) : Nat := if n = 0 then 0 else digitCount (n / 10) + 1

/-- The least `k` with the value below `10 ^ k`. -/
def Interval.magnitude (i : Interval) : Int :=
  if i.den ≤ i.value then digitCount (i.value / i.den)
  else 1 - digitCount ((i.den - 1) / i.value)

/-- The shortest decimal in the interval of a positive value.  A grid point of `n` digits is a
    multiple of `10 ^ (magnitude - n)`. -/
def Interval.shortest (i : Interval) : Dec :=
  let fits := (List.range 17).findSome? fun n => i.onGrid (i.magnitude - (n + 1 : Nat))
  fits.getD ⟨i.value * tenDen (i.magnitude - 17) / (tenNum (i.magnitude - 17) * i.den),
    i.magnitude - 17⟩

end JavaClass.Decimal
