/-
  Written words.

  `BigEndian.value` reads a byte string as a number and `BigEndian.bytes` writes one back.  The
  library proves that writing then reading keeps a number up to its width (`value_bytes`); here is
  the other order, `bytes_value`: a byte string is the word that its value is written as.  So the
  bytes of a word are known as soon as the width and the value are (`value_eq_iff`).

  A signed word is written in two's complement: the number modulo the width.
-/
import JavaClass.Bytes.BigEndian

namespace JavaClass.BigEndian

/-! ## A byte string is what its value is written as -/

/-- Writing the value of a byte string gives the byte string back. -/
theorem bytes_value (stored : List UInt8) : bytes stored.length (value stored) = stored := by
  have hind : ∀ (width : Nat) (stored : List UInt8), stored.length = width →
      bytes width (value stored) = stored := by
    intro width
    induction width with
    | zero =>
      intro stored h
      rw [List.length_eq_zero_iff.mp h]
      rfl
    | succ width ih =>
      intro stored h
      have hne : stored ≠ [] := by
        rintro rfl
        exact absurd h (by simp)
      -- the last byte is the low one, so the word is taken apart from its end
      obtain ⟨high, low, rfl⟩ : ∃ high low, stored = high ++ [low] :=
        ⟨_, _, (List.dropLast_concat_getLast hne).symm⟩
      have hlen : high.length = width := by simpa using h
      have hlow : low.toNat < 256 := low.toNat_lt
      have hq : (value high * 256 + low.toNat) / 256 = value high := by omega
      have hr : UInt8.ofNat (value high * 256 + low.toNat) = low := by
        apply UInt8.toNat_inj.mp
        rw [UInt8.toNat_ofNat']
        omega
      rw [value_concat, bytes, hq, hr, ih high hlen]
  exact hind _ stored rfl

/-- The byte strings of a width that have a value are the one that the value is written as. -/
theorem value_eq_iff {stored : List UInt8} {width n : Nat} :
    stored.length = width ∧ value stored = n ↔ n < range width ∧ stored = bytes width n := by
  constructor
  · rintro ⟨rfl, rfl⟩
    exact ⟨value_lt stored, (bytes_value stored).symm⟩
  · rintro ⟨hn, rfl⟩
    exact ⟨length_bytes width n, by rw [value_bytes, Nat.mod_eq_of_lt hn]⟩

/-- A word of one byte. -/
theorem bytes_one (n : Nat) : bytes 1 n = [UInt8.ofNat n] := rfl

/-! ## Signed words -/

/-- A signed number as a word of `width` bytes, in two's complement. -/
def signedBytes (width : Nat) (n : Int) : List UInt8 := bytes width (n % range width).toNat

/-- Signed words are as long as unsigned ones. -/
@[simp] theorem length_signedBytes (width : Nat) (n : Int) :
    (signedBytes width n).length = width := length_bytes _ _

/-- There are as many words as numbers of eight bits for each byte. -/
theorem range_eq_pow (width : Nat) : range width = Nat.pow 2 (8 * width) := by
  induction width with
  | zero => rfl
  | succ width ih =>
    have hpow : Nat.pow 2 (8 * width + 8) = Nat.pow 2 (8 * width) * 256 := Nat.pow_add 2 _ 8
    rw [range, ih]
    exact hpow.symm

/-- The number that a byte string stands for in two's complement: its upper half is negative. -/
def signedValue (stored : List UInt8) : Int :=
  if 2 * value stored < range stored.length then value stored
  else value stored - range stored.length

/-- Bits that are a stored number are the signed number that is stored. -/
theorem toInt_eq_signedValue {stored : List UInt8} {width : Nat} (hlen : stored.length = width)
    (x : BitVec (8 * width)) (hx : x.toNat = value stored) : x.toInt = signedValue stored := by
  have hcond := BitVec.toInt_eq_toNat_cond x
  rw [hx] at hcond
  rw [signedValue, hlen, range_eq_pow]
  exact hcond

/-- The word of a signed number has the bits of that number. -/
theorem signedBytes_toInt (width : Nat) (x : BitVec (8 * width)) :
    signedBytes width x.toInt = bytes width x.toNat := by
  have h := congrArg BitVec.toNat (BitVec.ofInt_toInt (x := x))
  rw [BitVec.toNat_ofInt] at h
  rw [signedBytes, range_eq_pow]
  exact congrArg (bytes width) h

theorem signedBytes_int8 (v : Int8) : signedBytes 1 v.toInt = bytes 1 v.toUInt8.toNat :=
  signedBytes_toInt 1 v.toBitVec

theorem signedBytes_int16 (v : Int16) : signedBytes 2 v.toInt = bytes 2 v.toUInt16.toNat :=
  signedBytes_toInt 2 v.toBitVec

theorem signedBytes_int32 (v : Int32) : signedBytes 4 v.toInt = bytes 4 v.toUInt32.toNat :=
  signedBytes_toInt 4 v.toBitVec

theorem signedBytes_int64 (v : Int64) : signedBytes 8 v.toInt = bytes 8 v.toUInt64.toNat :=
  signedBytes_toInt 8 v.toBitVec

end JavaClass.BigEndian
