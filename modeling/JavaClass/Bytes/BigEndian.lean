/-
  Big-endian words.

  Every number of a class file is stored most significant byte first.  One function gives the
  value of such a byte string, whatever its width; the fixed-width integers are cut out of it
  where they are read (`JavaClass.Bytes.Scan`).  A value is one of those that there are words of its
  width for (`value_lt`), and `bytes` writes a word of a given width back (`value_bytes`).
-/

namespace JavaClass.BigEndian

/-- The number that a byte string stands for, most significant byte first. -/
def value (bytes : List UInt8) : Nat :=
  bytes.foldl (fun high byte => high * 256 + byte.toNat) 0

/-- The `width` low bytes of a number, most significant byte first. -/
def bytes : (width : Nat) → Nat → List UInt8
  | 0, _ => []
  | width + 1, n => bytes width (n / 256) ++ [UInt8.ofNat n]

/-- How many numbers there are words of `width` bytes for. -/
def range : (width : Nat) → Nat
  | 0 => 1
  | width + 1 => range width * 256

/-! ## Laws of the functions -/

@[simp] theorem value_nil : value [] = 0 := rfl

/-- One more low byte shifts what came before it by eight bits. -/
theorem value_concat (high : List UInt8) (low : UInt8) :
    value (high ++ [low]) = value high * 256 + low.toNat := by
  simp [value]

/-- Starting from a number instead of zero shifts that number past the bytes. -/
theorem foldl_eq (start : Nat) (bytes : List UInt8) :
    bytes.foldl (fun high byte => high * 256 + byte.toNat) start
      = start * range bytes.length + value bytes := by
  induction bytes generalizing start with
  | nil => simp [range]
  | cons b bytes ih =>
    have hv : value (b :: bytes) = b.toNat * range bytes.length + value bytes := by
      rw [value, List.foldl_cons, ih, Nat.zero_mul, Nat.zero_add]
    rw [List.foldl_cons, ih, hv, List.length_cons, range, Nat.add_mul, Nat.mul_assoc,
      Nat.mul_comm 256, Nat.add_assoc]

/-- The first byte weighs as much as the bytes after it leave room for. -/
theorem value_cons (b : UInt8) (bytes : List UInt8) :
    value (b :: bytes) = b.toNat * range bytes.length + value bytes := by
  rw [value, List.foldl_cons, foldl_eq, Nat.zero_mul, Nat.zero_add]

/-- The value of a word is one of those that there are words of its width for. -/
theorem value_lt (bytes : List UInt8) : value bytes < range bytes.length := by
  induction bytes with
  | nil => exact Nat.zero_lt_one
  | cons b bytes ih =>
    have hb : b.toNat + 1 ≤ 256 := b.toNat_lt
    have := Nat.mul_le_mul_right (range bytes.length) hb
    rw [value_cons, List.length_cons, range, Nat.mul_comm _ 256]
    rw [Nat.add_mul] at this
    omega

@[simp] theorem length_bytes (width n : Nat) : (bytes width n).length = width := by
  induction width generalizing n with
  | zero => rfl
  | succ width ih => simp [bytes, ih]

/-- Writing a word keeps it modulo the width. -/
theorem value_bytes (width n : Nat) : value (bytes width n) = n % range width := by
  induction width generalizing n with
  | zero => exact (Nat.mod_one n).symm
  | succ width ih =>
    have hb : (UInt8.ofNat n).toNat = n % 256 := by simp
    rw [bytes, value_concat, ih, hb, range, Nat.mul_comm (range width), Nat.mod_mul]
    omega

end JavaClass.BigEndian
