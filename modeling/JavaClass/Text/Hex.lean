/-
  Hexadecimal text, in lower case.
-/

namespace JavaClass.Text

/-- The lower case hex digit of a number below sixteen. -/
def hexDigit (n : Nat) : Char :=
  if n < 10 then Char.ofNat (n + '0'.toNat) else Char.ofNat (n - 10 + 'a'.toNat)

/-- The `width` low hex digits of a number, most significant first. -/
def hexDigits : (width : Nat) → Nat → List Char
  | 0, _ => []
  | width + 1, n => hexDigits width (n / 16) ++ [hexDigit (n % 16)]

/-- A number of `width` hex digits in the notation `0x00ff`. -/
def hexLiteral (width n : Nat) : String := "0x" ++ String.ofList (hexDigits width n)

/-- A byte string, two hex digits to a byte. -/
def hexBytes (bytes : List UInt8) : String :=
  bytes.foldl (fun text byte => text ++ String.ofList (hexDigits 2 byte.toNat)) ""

end JavaClass.Text
