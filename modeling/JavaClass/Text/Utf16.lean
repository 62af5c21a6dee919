/-
  UTF-16 code units.

  A code point below U+10000 is one unit; any other is a pair of surrogates, a high one
  (D800 … DBFF) followed by a low one (DC00 … DFFF).  `decode` is strict: a surrogate without its
  partner makes the whole sequence undecodable.
-/

namespace JavaClass.Text.Utf16

/-- The first half of a surrogate pair. -/
def IsHigh (unit : UInt16) : Prop := 0xD800 ≤ unit.toNat ∧ unit.toNat < 0xDC00

/-- The second half of a surrogate pair. -/
def IsLow (unit : UInt16) : Prop := 0xDC00 ≤ unit.toNat ∧ unit.toNat < 0xE000

instance : DecidablePred IsHigh := fun _ => inferInstanceAs (Decidable (_ ∧ _))
instance : DecidablePred IsLow := fun _ => inferInstanceAs (Decidable (_ ∧ _))

/-- The code point of a surrogate pair: ten bits from each half, above U+10000. -/
def pairChar (high low : UInt16) : Char :=
  Char.ofNat (0x10000 + (high.toNat - 0xD800) * 0x400 + (low.toNat - 0xDC00))

/-- The characters of a sequence of units, after those in `done` (latest first). -/
def decodeAfter (done : List Char) : List UInt16 → Option (List Char)
  | [] => some done.reverse
  | unit :: rest =>
    if IsHigh unit then
      match rest with
      | low :: rest => if IsLow low then decodeAfter (pairChar unit low :: done) rest else none
      | [] => none
    else if IsLow unit then none
    else decodeAfter (Char.ofNat unit.toNat :: done) rest

/-- The characters that a sequence of units spells, if every surrogate has its partner. -/
def decode (units : List UInt16) : Option (List Char) := decodeAfter [] units

/-- The units of one character. -/
def encodeChar (c : Char) : List UInt16 :=
  if c.toNat < 0x10000 then [UInt16.ofNat c.toNat]
  else [UInt16.ofNat (0xD800 + (c.toNat - 0x10000) / 0x400),
        UInt16.ofNat (0xDC00 + (c.toNat - 0x10000) % 0x400)]

/-- The units of a text. -/
def encode (text : List Char) : List UInt16 := text.flatMap encodeChar

end JavaClass.Text.Utf16
