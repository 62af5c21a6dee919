/-
  Modified UTF-8, the text encoding of class files.

  A text is taken as UTF-16 code units, and each unit is written on its own in one to three bytes:

    * U+0001 … U+007F   one byte;
    * U+0000 and U+0080 … U+07FF   two bytes `110xxxxx 10xxxxxx` (so no byte of a text is zero);
    * U+0800 … U+FFFF, surrogates included   three bytes `1110xxxx 10xxxxxx 10xxxxxx`.

  A character above U+FFFF therefore takes six bytes, three for each surrogate.  `decode` is
  strict: no unit may be written longer than it has to be, and the units must be well paired.
-/
import JavaClass.Text.Utf16

namespace JavaClass.Text.Modified

/-- A byte that is a whole unit. -/
def IsSingle (byte : UInt8) : Prop := 0 < byte.toNat ∧ byte.toNat < 0x80

/-- The first byte of a unit of two bytes. -/
def IsLead2 (byte : UInt8) : Prop := 0xC0 ≤ byte.toNat ∧ byte.toNat < 0xE0

/-- The first byte of a unit of three bytes. -/
def IsLead3 (byte : UInt8) : Prop := 0xE0 ≤ byte.toNat ∧ byte.toNat < 0xF0

/-- A byte that continues a unit. -/
def IsContinuation (byte : UInt8) : Prop := 0x80 ≤ byte.toNat ∧ byte.toNat < 0xC0

instance : DecidablePred IsSingle := fun _ => inferInstanceAs (Decidable (_ ∧ _))
instance : DecidablePred IsLead2 := fun _ => inferInstanceAs (Decidable (_ ∧ _))
instance : DecidablePred IsLead3 := fun _ => inferInstanceAs (Decidable (_ ∧ _))
instance : DecidablePred IsContinuation := fun _ => inferInstanceAs (Decidable (_ ∧ _))

/-- The unit that two bytes spell, if it needs two: U+0000, or U+0080 and above. -/
def unit2? (b₀ b₁ : UInt8) : Option UInt16 :=
  let unit := (b₀.toNat - 0xC0) * 0x40 + (b₁.toNat - 0x80)
  if IsLead2 b₀ ∧ IsContinuation b₁ ∧ (unit = 0 ∨ 0x80 ≤ unit) then some (UInt16.ofNat unit)
  else none

/-- The unit that three bytes spell, if it needs three: U+0800 and above. -/
def unit3? (b₀ b₁ b₂ : UInt8) : Option UInt16 :=
  let unit := (b₀.toNat - 0xE0) * 0x1000 + (b₁.toNat - 0x80) * 0x40 + (b₂.toNat - 0x80)
  if IsLead3 b₀ ∧ IsContinuation b₁ ∧ IsContinuation b₂ ∧ 0x800 ≤ unit then
    some (UInt16.ofNat unit)
  else none

/-- The units that a byte string spells, after those in `done` (latest first).  The first byte
    alone tells how many bytes the unit has, so at most one of the three cases applies. -/
def unitsAfter (done : List UInt16) : List UInt8 → Option (List UInt16)
  | [] => some done.reverse
  | b₀ :: rest =>
    if IsSingle b₀ then unitsAfter (b₀.toUInt16 :: done) rest
    else match rest with
      | [] => none
      | b₁ :: rest =>
        match unit2? b₀ b₁ with
        | some unit => unitsAfter (unit :: done) rest
        | none =>
          match rest with
          | [] => none
          | b₂ :: rest =>
            match unit3? b₀ b₁ b₂ with
            | some unit => unitsAfter (unit :: done) rest
            | none => none

/-- The text that a byte string spells in modified UTF-8. -/
def decode (bytes : List UInt8) : Option (List Char) :=
  (unitsAfter [] bytes).bind Utf16.decode

/-- The bytes of one unit. -/
def encodeUnit (unit : UInt16) : List UInt8 :=
  let n := unit.toNat
  if 0 < n ∧ n < 0x80 then [UInt8.ofNat n]
  else if n < 0x800 then [UInt8.ofNat (0xC0 + n / 0x40), UInt8.ofNat (0x80 + n % 0x40)]
  else [UInt8.ofNat (0xE0 + n / 0x1000), UInt8.ofNat (0x80 + n / 0x40 % 0x40),
        UInt8.ofNat (0x80 + n % 0x40)]

/-- The modified UTF-8 form of a text. -/
def encode (text : List Char) : List UInt8 :=
  (Utf16.encode text).flatMap encodeUnit

end JavaClass.Text.Modified
