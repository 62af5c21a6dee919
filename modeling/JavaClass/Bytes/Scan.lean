/-
  Scans: reading values off a cursor.

  A scan either yields a value and the cursor behind it, or fails, and then too it says where the
  cursor stands.  The primitive is `Scan.bytes`, which takes an exact number of bytes or fails
  without moving; every integer is cut out of such a byte string, most significant byte first.
  `Scan.text` is the one scan that can fail after it has moved: its bytes are taken before they
  are found to spell no text.

  `Forward` says that a scan only ever passes over bytes; it is kept by every way of building
  scans, and it is what ends the loops that run until the input is used up.
-/
import JavaClass.Bytes.BigEndian
import JavaClass.Bytes.Cursor
import JavaClass.Text.Stored

namespace JavaClass

/-- Why a value could not be read. -/
inductive ScanError where
  /-- Fewer bytes are left than the value takes. -/
  | endOfData (position requested available : Nat)
  /-- The bytes from this offset on are the encoding of no text. -/
  | invalidText (position : Nat)
deriving DecidableEq, Repr

/-- The wording of a failure. -/
def ScanError.message : ScanError → String
  | .endOfData position requested available =>
    s!"unexpected end of data at offset {position}: needed {requested} bytes, {available} available"
  | .invalidText position => s!"invalid cesu8 string at offset {position}"

/-- A way to read an `α` off a cursor, failing with an `ε`. -/
abbrev Scan (ε α : Type) := EStateM ε Cursor α

namespace Scan

variable {ε ε' α β : Type}

/-! ## The primitives -/

/-- The offset of the next byte. -/
def position : Scan ε Nat := fun c => .ok c.position c

/-- Whether the input is used up. -/
def atEnd : Scan ε Bool := fun c => .ok c.atEnd c

/-- Exactly the next `n` bytes. -/
def bytes (n : Nat) : Scan ScanError (List UInt8) := fun c =>
  let taken := c.rest.take n
  if taken.length = n then .ok taken (c.advance n)
  else .error (.endOfData c.position n c.remaining) c

/-- The next byte, left where it is. -/
def peek : Scan ScanError UInt8 := fun c =>
  match c.rest with
  | byte :: _ => .ok byte c
  | [] => .error (.endOfData c.position 1 0) c

/-- Renames the failure of a scan. -/
def mapError (f : ε → ε') (scan : Scan ε α) : Scan ε' α := fun c =>
  match scan c with
  | .ok a c => .ok a c
  | .error e c => .error (f e) c

/-- A value that may be missing; `e` is the failure if it is. -/
def ofOption (e : ε) : Option α → Scan ε α
  | some a => pure a
  | none => throw e

/-- A result found without reading, as a step of a scan. -/
def ofExcept : Except ε α → Scan ε α
  | .ok a => pure a
  | .error e => throw e

/-- A condition on what was read so far; `e` is the failure if it does not hold. -/
def require (condition : Prop) [Decidable condition] (e : ε) : Scan ε Unit :=
  if condition then pure () else throw e

/-! ## Numbers and text -/

/-- The number in the next `width` bytes. -/
def word (width : Nat) : Scan ScanError Nat := return BigEndian.value (← bytes width)

/-- An unsigned 8-bit number. -/
def u8 : Scan ScanError UInt8 := return UInt8.ofNat (← word 1)
/-- An unsigned 16-bit number. -/
def u16 : Scan ScanError UInt16 := return UInt16.ofNat (← word 2)
/-- An unsigned 32-bit number. -/
def u32 : Scan ScanError UInt32 := return UInt32.ofNat (← word 4)
/-- An unsigned 64-bit number. -/
def u64 : Scan ScanError UInt64 := return UInt64.ofNat (← word 8)
/-- A signed 8-bit number. -/
def i8 : Scan ScanError Int8 := return (← u8).toInt8
/-- A signed 16-bit number. -/
def i16 : Scan ScanError Int16 := return (← u16).toInt16
/-- A signed 32-bit number. -/
def i32 : Scan ScanError Int32 := return (← u32).toInt32
/-- A signed 64-bit number. -/
def i64 : Scan ScanError Int64 := return (← u64).toInt64

/-- The text stored in the next `n` bytes. -/
def text (n : Nat) : Scan ScanError String := do
  let start ← position
  let stored ← bytes n
  ofOption (.invalidText start) (Text.decode? stored)

/-! ## Repetition -/

/-- The results of `n` runs of a scan, after those in `done` (latest first). -/
def timesAfter (scan : Scan ε α) (done : List α) : Nat → Scan ε (List α)
  | 0 => return done.reverse
  | n + 1 => do timesAfter scan ((← scan) :: done) n

/-- The results of `n` runs of a scan, in order. -/
def times (n : Nat) (scan : Scan ε α) : Scan ε (List α) := timesAfter scan [] n

/-- A 16-bit count, and that many runs of a scan. -/
def counted (count : Scan ε UInt16) (scan : Scan ε α) : Scan ε (List α) := do
  times (← count).toNat scan

/-! ## What a run of a scan says -/

/-- Two scans in a row succeed exactly when the first does and the second does behind it. -/
theorem bind_eq_ok {scan : Scan ε α} {next : α → Scan ε β} {c c' : Cursor} {b : β} :
    (scan >>= next) c = .ok b c' ↔ ∃ a d, scan c = .ok a d ∧ next a d = .ok b c' := by
  change EStateM.bind scan next c = _ ↔ _
  unfold EStateM.bind
  constructor
  · intro h
    split at h
    · rename_i a d hd
      exact ⟨a, d, hd, h⟩
    · cases h
  · rintro ⟨a, d, hd, h⟩
    rw [hd]
    exact h

/-- Renaming the failures of a scan changes none of its successes. -/
theorem mapError_eq_ok {scan : Scan ε α} {f : ε → ε'} {c c' : Cursor} {a : α} :
    scan.mapError f c = .ok a c' ↔ scan c = .ok a c' := by
  unfold mapError
  constructor
  · intro h
    split at h
    · rename_i hd
      cases h
      exact hd
    · cases h
  · intro h
    rw [h]

/-- Enough bytes are left: they are read. -/
theorem bytes_of_le {c : Cursor} {n : Nat} (h : n ≤ c.remaining) :
    bytes n c = .ok (c.rest.take n) (c.advance n) :=
  if_pos (by rw [List.length_take]; unfold Cursor.remaining at h; omega)

/-- Too few bytes are left: none is read. -/
theorem bytes_of_lt {c : Cursor} {n : Nat} (h : c.remaining < n) :
    bytes n c = .error (.endOfData c.position n c.remaining) c :=
  if_neg (by rw [List.length_take]; unfold Cursor.remaining at h; omega)

/-- A byte string is read if there are enough bytes, and it is the next of them. -/
theorem bytes_eq_ok {c c' : Cursor} {n : Nat} {taken : List UInt8} :
    bytes n c = .ok taken c' ↔ n ≤ c.remaining ∧ taken = c.rest.take n ∧ c' = c.advance n := by
  rcases Nat.lt_or_ge c.remaining n with h | h
  · rw [bytes_of_lt h]
    constructor
    · intro h; cases h
    · rintro ⟨h', _⟩; omega
  · rw [bytes_of_le h]
    constructor
    · intro h'; cases h'; exact ⟨h, rfl, rfl⟩
    · rintro ⟨_, rfl, rfl⟩; rfl

/-! ## Scans only move forward -/

/-- A scan that succeeds leaves the cursor behind bytes that it has passed. -/
def Forward (scan : Scan ε α) : Prop :=
  ∀ c a c', scan c = .ok a c' → ∃ read, c.Reaches c' read

/-- To yield a value moves nowhere. -/
theorem Forward.pure (a : α) : Forward (Pure.pure a : Scan ε α) := by
  intro c a' c' h
  cases h
  exact ⟨[], .refl c⟩

theorem Forward.throw (e : ε) : Forward (throw e : Scan ε α) := by
  intro c a c' h
  cases h

/-- Two moves forward are one. -/
theorem Forward.bind {scan : Scan ε α} {next : α → Scan ε β} (h₁ : Forward scan)
    (h₂ : ∀ a, Forward (next a)) : Forward (scan >>= next) := by
  intro c b c' h
  obtain ⟨a, d, hd, hb⟩ := bind_eq_ok.1 h
  obtain ⟨first, hf⟩ := h₁ _ _ _ hd
  obtain ⟨second, hs⟩ := h₂ a _ _ _ hb
  exact ⟨first ++ second, hf.trans hs⟩

theorem Forward.mapError {scan : Scan ε α} (h : Forward scan) (f : ε → ε') :
    Forward (scan.mapError f) := by
  intro c a c' hc
  exact h _ _ _ (mapError_eq_ok.1 hc)

theorem forward_ofOption (e : ε) (value : Option α) : Forward (ofOption e value) := by
  cases value with
  | some a => exact .pure a
  | none => exact .throw e

theorem forward_ofExcept (result : Except ε α) : Forward (ofExcept result) := by
  cases result with
  | ok a => exact .pure a
  | error e => exact .throw e

theorem forward_require (condition : Prop) [Decidable condition] (e : ε) :
    Forward (require condition e) := by
  unfold require
  split
  · exact .pure ()
  · exact .throw e

theorem forward_position : Forward (position : Scan ε Nat) := by
  intro c a c' h
  cases h
  exact ⟨[], .refl c⟩

theorem forward_peek : Forward peek := by
  intro c a c' h
  unfold peek at h
  split at h
  · cases h; exact ⟨[], .refl c⟩
  · cases h

/-- Reading passes the bytes that are read. -/
theorem forward_bytes (n : Nat) : Forward (bytes n) := by
  intro c a c' h
  obtain ⟨hn, rfl, rfl⟩ := bytes_eq_ok.1 h
  exact ⟨_, Cursor.reaches_advance hn⟩

theorem forward_word (width : Nat) : Forward (word width) :=
  (forward_bytes width).bind fun _ => .pure _

theorem forward_u8 : Forward u8 := (forward_word 1).bind fun _ => .pure _
theorem forward_u16 : Forward u16 := (forward_word 2).bind fun _ => .pure _
theorem forward_u32 : Forward u32 := (forward_word 4).bind fun _ => .pure _
theorem forward_i8 : Forward i8 := forward_u8.bind fun _ => .pure _
theorem forward_i16 : Forward i16 := forward_u16.bind fun _ => .pure _
theorem forward_i32 : Forward i32 := forward_u32.bind fun _ => .pure _

/-- So does repeating a scan, however often. -/
theorem Forward.timesAfter {scan : Scan ε α} (h : Forward scan) (done : List α) (n : Nat) :
    Forward (timesAfter scan done n) := by
  induction n generalizing done with
  | zero => exact .pure _
  | succ n ih => exact h.bind fun a => ih (a :: done)

theorem Forward.times {scan : Scan ε α} (h : Forward scan) (n : Nat) : Forward (times n scan) :=
  h.timesAfter [] n

/-- A scan that moves forward leaves no more than it found. -/
theorem Forward.remaining_le {scan : Scan ε α} (h : Forward scan) {c c' : Cursor} {a : α}
    (hc : scan c = .ok a c') : c'.remaining ≤ c.remaining := by
  obtain ⟨read, hr, _⟩ := h _ _ _ hc
  simp [Cursor.remaining, hr]

/-- Reading a byte uses it up. -/
theorem remaining_of_u8 {c c' : Cursor} {byte : UInt8} (h : u8 c = .ok byte c') :
    c'.remaining + 1 = c.remaining := by
  obtain ⟨n, d, hd, h⟩ := bind_eq_ok.1 h
  obtain ⟨taken, e, he, hd⟩ := bind_eq_ok.1 hd
  cases h; cases hd
  obtain ⟨hn, rfl, rfl⟩ := bytes_eq_ok.1 he
  simp only [Cursor.remaining, Cursor.advance, List.length_drop] at hn ⊢
  omega

end Scan

end JavaClass
