/-
  The reads off a cursor.

  `Read` names what can be read off a cursor: numbers, texts, byte strings, and the next byte
  without moving.  A read asks for a number of bytes (`size`), moves past them unless it only looks
  (`width`), and yields the value that they stand for (`Stores`).  `Outcome` says what a read comes
  to in these terms, and the scans come to exactly that (`scan_eq_iff`).

  A read can fail in two ways.  If it asks for more bytes than are left, it stays where it is.  A
  text whose bytes spell nothing is found out behind them, so that read fails and moves all the
  same (`position_of_failed`).
-/
import JavaClass.Proofs.Bytes.Accepts
import JavaClass.Proofs.Bytes.Words

namespace JavaClass

open BigEndian (signedValue)

/-- What can be read off a cursor. -/
inductive Read where
  | u8 | u16 | u32 | i8 | i16 | i32 | i64
  /-- A single-precision number. -/
  | f32
  /-- A double-precision number. -/
  | f64
  /-- A text that takes so many bytes. -/
  | text (length : Nat)
  | bytes (length : Nat)
  /-- The next byte, left where it is. -/
  | peek
deriving DecidableEq, Repr

namespace Read

/-- What a read yields; a floating-point number is its bit pattern. -/
@[reducible] def Value : Read → Type
  | .u8 | .peek => UInt8
  | .u16 => UInt16
  | .u32 | .f32 => UInt32
  | .i8 => Int8
  | .i16 => Int16
  | .i32 => Int32
  | .i64 => Int64
  | .f64 => UInt64
  | .text _ => String
  | .bytes _ => List UInt8

/-- The scan of a read. -/
def scan : (r : Read) → Scan ScanError r.Value
  | .u8 => Scan.u8
  | .u16 => Scan.u16
  | .u32 | .f32 => Scan.u32
  | .i8 => Scan.i8
  | .i16 => Scan.i16
  | .i32 => Scan.i32
  | .i64 => Scan.i64
  | .f64 => Scan.u64
  | .text length => Scan.text length
  | .bytes length => Scan.bytes length
  | .peek => Scan.peek

/-- How many bytes a read asks for. -/
def size : Read → Nat
  | .u8 | .i8 | .peek => 1
  | .u16 | .i16 => 2
  | .u32 | .i32 | .f32 => 4
  | .i64 | .f64 => 8
  | .text length | .bytes length => length

/-- How many bytes a read moves by, if there are as many as it asks for. -/
def width : Read → Nat
  | .peek => 0
  | r => r.size

/-- The value that a byte string stands for. -/
def Stores : (r : Read) → List UInt8 → r.Value → Prop
  | .u8, stored, v | .peek, stored, v => v.toNat = BigEndian.value stored
  | .u16, stored, v => v.toNat = BigEndian.value stored
  | .u32, stored, v | .f32, stored, v => v.toNat = BigEndian.value stored
  | .f64, stored, v => v.toNat = BigEndian.value stored
  | .i8, stored, v => v.toInt = signedValue stored
  | .i16, stored, v => v.toInt = signedValue stored
  | .i32, stored, v => v.toInt = signedValue stored
  | .i64, stored, v => v.toInt = signedValue stored
  | .text _, stored, v => Text.decode? stored = some v
  | .bytes _, stored, v => v = stored

/-- What a read comes to. -/
inductive Outcome : (r : Read) → Cursor → EStateM.Result ScanError Cursor r.Value → Prop
  /-- It asks for more bytes than are left. -/
  | short {r : Read} {c : Cursor} (few : c.remaining < r.size) :
    Outcome r c (.error (.endOfData c.position r.size c.remaining) c)
  /-- The bytes that it asks for stand for a value. -/
  | value {r : Read} {c : Cursor} {v : r.Value} (enough : r.size ≤ c.remaining)
    (stored : r.Stores (c.rest.take r.size) v) : Outcome r c (.ok v (c.advance r.width))
  /-- The bytes of a text spell nothing. -/
  | noText {length : Nat} {c : Cursor} (enough : length ≤ c.remaining)
    (spells : Text.decode? (c.rest.take length) = none) :
    Outcome (.text length) c (.error (.invalidText c.position) (c.advance length))

/-! ## Every read comes to that

  All reads but two take a word or a byte string and make a value of it.  A text may be none, and
  a look does not move, so these two stand apart. -/

section
variable {r : Read} {c : Cursor}

/-- A read of a byte string that is made a value, whatever its bytes are. -/
theorem outcome_of_bytes (ofBytes : List UInt8 → r.Value)
    (hscan : r.scan = Scan.bytes r.size >>= fun stored => pure (ofBytes stored))
    (hwidth : r.width = r.size)
    (hstores : ∀ stored, stored.length = r.size → r.Stores stored (ofBytes stored)) :
    r.Outcome c (r.scan c) := by
  -- too few bytes, or enough of them
  rcases Nat.lt_or_ge c.remaining r.size with hfew | henough
  · have hc : r.scan c = .error (.endOfData c.position r.size c.remaining) c := by
      rw [hscan]
      exact Scan.bind_eq_error.mpr (Or.inl (Scan.bytes_of_lt hfew))
    rw [hc]
    exact .short hfew
  · have hc : r.scan c = .ok (ofBytes (c.rest.take r.size)) (c.advance r.width) := by
      rw [hscan, hwidth]
      exact Scan.bind_eq_ok.mpr ⟨_, _, Scan.bytes_of_le henough, rfl⟩
    rw [hc]
    exact .value henough (hstores _ (List.length_take_of_le henough))

/-- A read of a number in a word of its size. -/
theorem outcome_of_word (ofNat : Nat → r.Value)
    (hscan : r.scan = Scan.word r.size >>= fun n => pure (ofNat n)) (hwidth : r.width = r.size)
    (hstores : ∀ stored, stored.length = r.size →
      BigEndian.value stored < BigEndian.range r.size →
        r.Stores stored (ofNat (BigEndian.value stored))) :
    r.Outcome c (r.scan c) := by
  refine outcome_of_bytes (fun stored => ofNat (BigEndian.value stored)) ?_ hwidth ?_
  · rw [hscan, Scan.word, bind_assoc]
    simp only [pure_bind]
  · intro stored hlen
    exact hstores stored hlen (hlen ▸ BigEndian.value_lt stored)

/-- A number that is made another is made of the same word. -/
theorem word_map {α β : Type} (width : Nat) (f : Nat → α) (g : α → β) :
    ((Scan.word width >>= fun n => pure (f n)) >>= fun a => pure (g a)) =
      Scan.word width >>= fun n => pure (g (f n)) := by
  simp only [bind_assoc, pure_bind]

theorem outcome_text (length : Nat) : Outcome (.text length) c (Scan.text length c) := by
  -- too few bytes; enough, but they spell nothing; enough, and they spell a text
  rcases Nat.lt_or_ge c.remaining length with hfew | henough
  · have hc : Scan.text length c = .error (.endOfData c.position length c.remaining) c :=
      Scan.bind_eq_error.mpr (Or.inr ⟨c.position, c, rfl,
        Scan.bind_eq_error.mpr (Or.inl (Scan.bytes_of_lt hfew))⟩)
    rw [hc]
    exact .short hfew
  · cases hspells : Text.decode? (c.rest.take length) with
    | none =>
      have hc : Scan.text length c = .error (.invalidText c.position) (c.advance length) := by
        refine Scan.bind_eq_error.mpr (Or.inr ⟨c.position, c, rfl, ?_⟩)
        refine Scan.bind_eq_error.mpr (Or.inr ⟨_, _, Scan.bytes_of_le henough, ?_⟩)
        rw [hspells]
        rfl
      rw [hc]
      exact .noText henough hspells
    | some s =>
      have hc : Scan.text length c = .ok s (c.advance length) := by
        refine Scan.bind_eq_ok.mpr ⟨c.position, c, rfl, ?_⟩
        refine Scan.bind_eq_ok.mpr ⟨_, _, Scan.bytes_of_le henough, ?_⟩
        rw [hspells]
        rfl
      rw [hc]
      exact .value henough hspells

theorem outcome_peek : Outcome .peek c (Scan.peek c) := by
  obtain ⟨rest, position⟩ := c
  cases rest with
  | nil => exact .short Nat.zero_lt_one
  | cons byte rest =>
    have hstored : Stores .peek [byte] byte := (Nat.zero_add _).symm
    exact .value (Nat.succ_le_succ (Nat.zero_le _)) hstored

/-- A read comes to what its size and the bytes at the cursor say. -/
theorem outcome_scan (r : Read) (c : Cursor) : r.Outcome c (r.scan c) := by
  -- the numbers differ in how their value is made of the word
  cases r with
  | u8 =>
    exact outcome_of_word UInt8.ofNat rfl rfl fun _ _ hlt => UInt8.toNat_ofNat_of_lt' hlt
  | u16 =>
    exact outcome_of_word UInt16.ofNat rfl rfl fun _ _ hlt => UInt16.toNat_ofNat_of_lt' hlt
  | u32 =>
    exact outcome_of_word UInt32.ofNat rfl rfl fun _ _ hlt => UInt32.toNat_ofNat_of_lt' hlt
  | f32 =>
    exact outcome_of_word UInt32.ofNat rfl rfl fun _ _ hlt => UInt32.toNat_ofNat_of_lt' hlt
  | f64 =>
    exact outcome_of_word UInt64.ofNat rfl rfl fun _ _ hlt => UInt64.toNat_ofNat_of_lt' hlt
  | i8 =>
    refine outcome_of_word (fun n => (UInt8.ofNat n).toInt8) (word_map 1 _ _) rfl ?_
    intro stored hlen hlt
    exact BigEndian.toInt_eq_signedValue hlen _ (UInt8.toNat_ofNat_of_lt' hlt)
  | i16 =>
    refine outcome_of_word (fun n => (UInt16.ofNat n).toInt16) (word_map 2 _ _) rfl ?_
    intro stored hlen hlt
    exact BigEndian.toInt_eq_signedValue hlen _ (UInt16.toNat_ofNat_of_lt' hlt)
  | i32 =>
    refine outcome_of_word (fun n => (UInt32.ofNat n).toInt32) (word_map 4 _ _) rfl ?_
    intro stored hlen hlt
    exact BigEndian.toInt_eq_signedValue hlen _ (UInt32.toNat_ofNat_of_lt' hlt)
  | i64 =>
    refine outcome_of_word (fun n => (UInt64.ofNat n).toInt64) (word_map 8 _ _) rfl ?_
    intro stored hlen hlt
    exact BigEndian.toInt_eq_signedValue hlen _ (UInt64.toNat_ofNat_of_lt' hlt)
  | bytes length => exact outcome_of_bytes id (bind_pure _).symm rfl fun _ _ => rfl
  | text length => exact outcome_text length
  | peek => exact outcome_peek

/-- Bytes stand for one value at most. -/
theorem Stores.unique {stored : List UInt8} {v v' : r.Value} (h : r.Stores stored v)
    (h' : r.Stores stored v') : v = v' := by
  -- a number is given by its value, a text by what its bytes spell
  cases r with
  | u8 | peek => exact UInt8.toNat_inj.mp (h.trans h'.symm)
  | u16 => exact UInt16.toNat_inj.mp (h.trans h'.symm)
  | u32 | f32 => exact UInt32.toNat_inj.mp (h.trans h'.symm)
  | f64 => exact UInt64.toNat_inj.mp (h.trans h'.symm)
  | i8 => exact Int8.toInt_inj.mp (h.trans h'.symm)
  | i16 => exact Int16.toInt_inj.mp (h.trans h'.symm)
  | i32 => exact Int32.toInt_inj.mp (h.trans h'.symm)
  | i64 => exact Int64.toInt_inj.mp (h.trans h'.symm)
  | text length => exact Option.some.inj (h.symm.trans h')
  | bytes length => exact h.trans h'.symm

/-- A read comes to one thing only. -/
theorem Outcome.unique {result result' : EStateM.Result ScanError Cursor r.Value}
    (h : r.Outcome c result) (h' : r.Outcome c result') : result = result' := by
  -- too few bytes exclude enough of them, and a text excludes that there is none
  cases h with
  | short few =>
    cases h' with
    | short => rfl
    | value enough => omega
    | noText enough => exact absurd few (Nat.not_lt.mpr enough)
  | value enough stored =>
    cases h' with
    | short few => omega
    | value _ stored' => rw [stored.unique stored']
    | noText _ spells => exact nomatch stored.symm.trans spells
  | noText enough spells =>
    cases h' with
    | short few => exact absurd few (Nat.not_lt.mpr enough)
    | value _ stored => exact nomatch stored.symm.trans spells
    | noText => rfl

theorem scan_eq_iff {result : EStateM.Result ScanError Cursor r.Value} :
    r.scan c = result ↔ r.Outcome c result := by
  constructor
  · rintro rfl
    exact outcome_scan r c
  · exact (outcome_scan r c).unique

/-- A value is yielded exactly if there are enough bytes and they stand for it. -/
theorem scan_eq_ok_iff {d : Cursor} {v : r.Value} : r.scan c = .ok v d ↔
    r.size ≤ c.remaining ∧ r.Stores (c.rest.take r.size) v ∧ d = c.advance r.width := by
  rw [scan_eq_iff]
  constructor
  · rintro (_ | ⟨enough, stored⟩)
    exact ⟨enough, stored, rfl⟩
  · rintro ⟨enough, stored, rfl⟩
    exact .value enough stored

/-- A lack of data is reported exactly if there is one, and then nothing has moved. -/
theorem scan_eq_endOfData_iff {d : Cursor} {position requested available : Nat} :
    r.scan c = .error (.endOfData position requested available) d ↔
      c.remaining < r.size ∧ position = c.position ∧ requested = r.size ∧
        available = c.remaining ∧ d = c := by
  rw [scan_eq_iff]
  constructor
  · rintro ⟨few⟩
    exact ⟨few, rfl, rfl, rfl, rfl⟩
  · rintro ⟨few, rfl, rfl, rfl, rfl⟩
    exact .short few

end

/-! ## Where a read that fails leaves the cursor

  There are two ways to fail, and they leave the cursor in different places.  Which of them it was
  can be told from the number of bytes that are left. -/

section
variable {r : Read} {c d : Cursor} {e : ScanError}

theorem decode?_nil : Text.decode? [] = some "" := by decide

/-- **Failed reads.**  A read that asks for more bytes than are left fails where it stands.  The
    only other failure is that of a text whose bytes spell nothing, and it is found behind them. -/
theorem position_of_failed (h : r.scan c = .error e d) :
    (d.position = c.position ↔ c.remaining < r.size) ∧
    (c.remaining < r.size → d = c ∧ e = .endOfData c.position r.size c.remaining) ∧
    (r.size ≤ c.remaining → ∃ length, r = .text length ∧ 0 < length ∧
      Text.decode? (c.rest.take length) = none ∧ e = .invalidText c.position ∧
      d = c.advance length) := by
  have houtcome := outcome_scan r c
  rw [h] at houtcome
  cases houtcome with
  | short few =>
    refine ⟨iff_of_true rfl few, fun _ => ⟨rfl, rfl⟩, ?_⟩
    intro enough
    exact absurd few (Nat.not_lt.mpr enough)
  | @noText length _ enough spells =>
    -- no bytes at all spell the empty text
    have hpos : 0 < length := by
      rcases Nat.eq_zero_or_pos length with rfl | hpos
      · exact nomatch decode?_nil.symm.trans spells
      · exact hpos
    have hmoved : (c.advance length).position ≠ c.position := by
      show c.position + length ≠ c.position
      omega
    refine ⟨iff_of_false hmoved (Nat.not_lt.mpr enough), ?_, ?_⟩
    · intro few
      exact absurd few (Nat.not_lt.mpr enough)
    · intro _
      exact ⟨length, rfl, hpos, spells, rfl, rfl⟩

/-- Two bytes that begin no character, behind one that has been read. -/
theorem scan_text_behind_byte :
    Scan.u8 (Cursor.start [0x01, 0xff, 0xff]) = .ok 0x01 ⟨[0xff, 0xff], 1⟩ ∧
      Read.scan (.text 2) ⟨[0xff, 0xff], 1⟩ = .error (.invalidText 1) ⟨[], 3⟩ :=
  ⟨rfl, scan_eq_iff.mpr (.noText (by decide) (by decide))⟩

/-- The theorem at these bytes: there are enough of them, so the read ends elsewhere than it
    starts. -/
theorem position_of_failed_behind_byte : ∃ c d : Cursor,
    Scan.u8 (Cursor.start [0x01, 0xff, 0xff]) = .ok 0x01 c ∧
      Read.scan (.text 2) c = .error (.invalidText 1) d ∧
      (d.position = c.position ↔ c.remaining < 2) := by
  obtain ⟨hbyte, htext⟩ := scan_text_behind_byte
  exact ⟨_, _, hbyte, htext, (position_of_failed htext).1⟩

/-- It stands one byte into the input before, and three bytes into it afterwards. -/
theorem failed_text_moves : ∃ (data : List UInt8) (byte : UInt8) (c d : Cursor) (e : ScanError),
    Scan.u8 (Cursor.start data) = .ok byte c ∧ Read.scan (.text 2) c = .error e d ∧
      d.position ≠ c.position := by
  obtain ⟨hbyte, htext⟩ := scan_text_behind_byte
  exact ⟨_, _, _, _, _, hbyte, htext, by decide⟩

end

end Read

end JavaClass
