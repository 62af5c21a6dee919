/-
  What the scans of numbers, texts and counted lists accept.

  A number is accepted as the word it is written as: big-endian, and in two's complement if it is
  signed.  A text is accepted as any byte string of its length that decodes to it.  A counted list
  is accepted as its 16-bit length and then its items, one after the other.
-/
import JavaClass.Proofs.Bytes.Incremental
import JavaClass.Proofs.Bytes.Words

namespace JavaClass.Scan

open BigEndian (signedBytes)

/-! ## Words

  All numbers are read off words, and a word is accepted as the bytes of its value.  A type of
  numbers adds a bijection between its values and the values of a word. -/

section
variable {ε α β : Type} [EndOfData ε] {scan : Scan ε α}

/-- Changing the value of a scan does not change the bytes it accepts. -/
theorem accepts_map (h : Incremental scan) {f : α → β} {p : Nat} {read : List UInt8} {b : β} :
    (scan >>= fun a => pure (f a)).Accepts p read b ↔ ∃ a, scan.Accepts p read a ∧ f a = b := by
  constructor
  · intro hb
    obtain ⟨first, second, a, rfl, ha, hf⟩ := (accepts_bind h).mp hb
    obtain ⟨rfl, rfl⟩ := accepts_pure.mp hf
    rw [List.append_nil]
    exact ⟨a, ha, rfl⟩
  · rintro ⟨a, ha, rfl⟩
    have hb : (scan >>= fun a => pure (f a)).Accepts p (read ++ []) (f a) :=
      ha.bind (accepts_pure.mpr ⟨rfl, rfl⟩)
    rwa [List.append_nil] at hb

end

/-- A word is a byte string of a given length, taken for its value. -/
theorem incremental_word (width : Nat) : Incremental (word width) :=
  (incremental_bytes width).bind fun _ => .pure _

/-- A word is accepted as the bytes of its value, which has to fit. -/
theorem accepts_word {width p n : Nat} {read : List UInt8} :
    (word width).Accepts p read n ↔ n < BigEndian.range width ∧ read = BigEndian.bytes width n := by
  rw [← BigEndian.value_eq_iff, word, accepts_map (incremental_bytes width)]
  constructor
  · rintro ⟨taken, hb, rfl⟩
    obtain ⟨hlen, rfl⟩ := accepts_bytes.mp hb
    exact ⟨hlen, rfl⟩
  · rintro ⟨hlen, rfl⟩
    exact ⟨read, accepts_bytes.mpr ⟨hlen, rfl⟩, rfl⟩

/-- A type that stands for the numbers that fit a word is read off a word of that width. -/
theorem accepts_ofWord {α : Type} (width : Nat) {ofNat : Nat → α} {toNat : α → Nat}
    (hlt : ∀ a, toNat a < BigEndian.range width) (hof : ∀ a, ofNat (toNat a) = a)
    (hto : ∀ n, n < BigEndian.range width → toNat (ofNat n) = n) {p : Nat} {read : List UInt8}
    {a : α} :
    (word width >>= fun n => pure (ofNat n)).Accepts p read a ↔
      read = BigEndian.bytes width (toNat a) := by
  rw [accepts_map (incremental_word width)]
  constructor
  · rintro ⟨n, hn, rfl⟩
    obtain ⟨hlt, rfl⟩ := accepts_word.mp hn
    rw [hto n hlt]
  · rintro rfl
    exact ⟨toNat a, accepts_word.mpr ⟨hlt a, rfl⟩, hof a⟩

/-! ## Unsigned numbers -/

theorem incremental_u8 : Incremental u8 := (incremental_word 1).bind fun _ => .pure _
theorem incremental_u16 : Incremental u16 := (incremental_word 2).bind fun _ => .pure _
theorem incremental_u32 : Incremental u32 := (incremental_word 4).bind fun _ => .pure _
theorem incremental_u64 : Incremental u64 := (incremental_word 8).bind fun _ => .pure _

theorem accepts_u8 {p : Nat} {read : List UInt8} {v : UInt8} :
    u8.Accepts p read v ↔ read = BigEndian.bytes 1 v.toNat :=
  accepts_ofWord 1 (fun v => v.toNat_lt) (fun _ => UInt8.ofNat_toNat)
    (fun _ hn => UInt8.toNat_ofNat_of_lt' hn)

theorem accepts_u16 {p : Nat} {read : List UInt8} {v : UInt16} :
    u16.Accepts p read v ↔ read = BigEndian.bytes 2 v.toNat :=
  accepts_ofWord 2 (fun v => v.toNat_lt) (fun _ => UInt16.ofNat_toNat)
    (fun _ hn => UInt16.toNat_ofNat_of_lt' hn)

theorem accepts_u32 {p : Nat} {read : List UInt8} {v : UInt32} :
    u32.Accepts p read v ↔ read = BigEndian.bytes 4 v.toNat :=
  accepts_ofWord 4 (fun v => v.toNat_lt) (fun _ => UInt32.ofNat_toNat)
    (fun _ hn => UInt32.toNat_ofNat_of_lt' hn)

theorem accepts_u64 {p : Nat} {read : List UInt8} {v : UInt64} :
    u64.Accepts p read v ↔ read = BigEndian.bytes 8 v.toNat :=
  accepts_ofWord 8 (fun v => v.toNat_lt) (fun _ => UInt64.ofNat_toNat)
    (fun _ hn => UInt64.toNat_ofNat_of_lt' hn)

/-- A 16-bit number is accepted as its own word at every offset. -/
theorem accepts_u16_bytes (v : UInt16) (p : Nat) : u16.Accepts p (BigEndian.bytes 2 v.toNat) v :=
  accepts_u16.mpr rfl

/-- The same for a scan that fails as the reading of a class does. -/
theorem accepts_lift_u16 (v : UInt16) (p : Nat) :
    (liftM u16 : Scan ReadError UInt16).Accepts p (BigEndian.bytes 2 v.toNat) v :=
  accepts_lift.mpr (accepts_u16_bytes v p)

/-- A number that fits is accepted as the unsigned word of its value. -/
theorem accepts_u16_ofNat {p n : Nat} (h : n < 0x10000) :
    u16.Accepts p (BigEndian.bytes 2 n) (UInt16.ofNat n) :=
  accepts_u16.mpr (by rw [UInt16.toNat_ofNat_of_lt' h])

/-! ## Signed numbers

  A signed number is the unsigned one with the same bits, and two's complement is what becomes of
  the value. -/

theorem incremental_i8 : Incremental i8 := incremental_u8.bind fun _ => .pure _
theorem incremental_i16 : Incremental i16 := incremental_u16.bind fun _ => .pure _
theorem incremental_i32 : Incremental i32 := incremental_u32.bind fun _ => .pure _
theorem incremental_i64 : Incremental i64 := incremental_u64.bind fun _ => .pure _

theorem accepts_i8 {p : Nat} {read : List UInt8} {v : Int8} :
    i8.Accepts p read v ↔ read = signedBytes 1 v.toInt := by
  rw [i8, accepts_map incremental_u8, BigEndian.signedBytes_int8]
  constructor
  · rintro ⟨u, hu, rfl⟩
    exact accepts_u8.mp hu
  · intro h
    exact ⟨v.toUInt8, accepts_u8.mpr h, rfl⟩

theorem accepts_i16 {p : Nat} {read : List UInt8} {v : Int16} :
    i16.Accepts p read v ↔ read = signedBytes 2 v.toInt := by
  rw [i16, accepts_map incremental_u16, BigEndian.signedBytes_int16]
  constructor
  · rintro ⟨u, hu, rfl⟩
    exact accepts_u16.mp hu
  · intro h
    exact ⟨v.toUInt16, accepts_u16.mpr h, rfl⟩

theorem accepts_i32 {p : Nat} {read : List UInt8} {v : Int32} :
    i32.Accepts p read v ↔ read = signedBytes 4 v.toInt := by
  rw [i32, accepts_map incremental_u32, BigEndian.signedBytes_int32]
  constructor
  · rintro ⟨u, hu, rfl⟩
    exact accepts_u32.mp hu
  · intro h
    exact ⟨v.toUInt32, accepts_u32.mpr h, rfl⟩

theorem accepts_i64 {p : Nat} {read : List UInt8} {v : Int64} :
    i64.Accepts p read v ↔ read = signedBytes 8 v.toInt := by
  rw [i64, accepts_map incremental_u64, BigEndian.signedBytes_int64]
  constructor
  · rintro ⟨u, hu, rfl⟩
    exact accepts_u64.mp hu
  · intro h
    exact ⟨v.toUInt64, accepts_u64.mpr h, rfl⟩

/-! ## A number, and what is read behind it -/

section
variable {α β : Type} {number : Scan ScanError α} {next : α → Scan ReadError β}
  {layout : α → List UInt8} {width p : Nat} {read : List UInt8} {b : β}

/-- A number is read by passing the bytes that it is written as. -/
theorem number_eq_ok (h : Incremental number)
    (hs : ∀ {p : Nat} {read : List UInt8} {a : α}, number.Accepts p read a ↔ read = layout a)
    {c d : Cursor} {a : α} :
    (liftM number : Scan ReadError α) c = .ok a d ↔ c.Reaches d (layout a) := by
  rw [h.lift.eq_ok_iff]
  simp only [accepts_lift, hs]
  constructor
  · rintro ⟨_, hr, rfl⟩
    exact hr
  · intro hr
    exact ⟨_, hr, rfl⟩

/-- What follows a number is accepted behind the bytes that the number is written as. -/
theorem accepts_number_bind (h : Incremental number)
    (hs : ∀ {p : Nat} {read : List UInt8} {a : α}, number.Accepts p read a ↔ read = layout a)
    (hw : ∀ a, (layout a).length = width) :
    (liftM number >>= next).Accepts p read b ↔
      ∃ a rest, read = layout a ++ rest ∧ (next a).Accepts (p + width) rest b := by
  rw [accepts_bind h.lift]
  constructor
  · rintro ⟨first, rest, a, rfl, ha, hb⟩
    obtain rfl := hs.mp (accepts_lift.mp ha)
    rw [hw] at hb
    exact ⟨a, rest, rfl, hb⟩
  · rintro ⟨a, rest, rfl, hb⟩
    rw [← hw a] at hb
    exact ⟨layout a, rest, a, rfl, accepts_lift.mpr (hs.mpr rfl), hb⟩

end

section
variable {β : Type} {p : Nat} {read : List UInt8} {b : β}

theorem accepts_u8_bind {next : UInt8 → Scan ReadError β} :
    (liftM u8 >>= next).Accepts p read b ↔
      ∃ v rest, read = BigEndian.bytes 1 v.toNat ++ rest ∧ (next v).Accepts (p + 1) rest b :=
  accepts_number_bind incremental_u8 accepts_u8 fun _ => BigEndian.length_bytes _ _

theorem accepts_u16_bind {next : UInt16 → Scan ReadError β} :
    (liftM u16 >>= next).Accepts p read b ↔
      ∃ v rest, read = BigEndian.bytes 2 v.toNat ++ rest ∧ (next v).Accepts (p + 2) rest b :=
  accepts_number_bind incremental_u16 accepts_u16 fun _ => BigEndian.length_bytes _ _

theorem accepts_u32_bind {next : UInt32 → Scan ReadError β} :
    (liftM u32 >>= next).Accepts p read b ↔
      ∃ v rest, read = BigEndian.bytes 4 v.toNat ++ rest ∧ (next v).Accepts (p + 4) rest b :=
  accepts_number_bind incremental_u32 accepts_u32 fun _ => BigEndian.length_bytes _ _

theorem accepts_i32_bind {next : Int32 → Scan ReadError β} :
    (liftM i32 >>= next).Accepts p read b ↔
      ∃ v rest, read = signedBytes 4 v.toInt ++ rest ∧ (next v).Accepts (p + 4) rest b :=
  accepts_number_bind incremental_i32 accepts_i32 fun _ => BigEndian.length_signedBytes _ _

end

/-! ## Texts

  A text may be spelled in several ways, so what is accepted is said with the decoding and not
  with an encoding. -/

/-- A text takes as many bytes as it is told to, whether or not they spell one. -/
theorem incremental_text (n : Nat) : Incremental (text n) :=
  incremental_position.bind fun start => (incremental_bytes n).bind fun _ =>
    incremental_ofOption (not_isShortage_invalidText start) _

/-- A text is accepted as any bytes of its length that decode to it. -/
theorem accepts_text {n p : Nat} {read : List UInt8} {s : String} :
    (text n).Accepts p read s ↔ read.length = n ∧ Text.decode? read = some s := by
  rw [text, accepts_position_bind, accepts_bind (incremental_bytes n)]
  constructor
  · rintro ⟨taken, rest, stored, rfl, hb, ho⟩
    obtain ⟨hlen, rfl⟩ := accepts_bytes.mp hb
    obtain ⟨rfl, hs⟩ := accepts_ofOption.mp ho
    rw [List.append_nil]
    exact ⟨hlen, hs⟩
  · rintro ⟨hlen, hs⟩
    exact ⟨read, [], read, (List.append_nil _).symm, accepts_bytes.mpr ⟨hlen, rfl⟩,
      accepts_ofOption.mpr ⟨rfl, hs⟩⟩

/-! ## Counted lists

  The count is a 16-bit number, so a list that is counted is shorter than `2 ^ 16`, and shorter
  lists can be counted. -/

section
variable {ε α : Type} {count : Scan ε UInt16} {scan : Scan ε α}

/-- The count is read before the items, so it is known how many of these there are. -/
theorem Incremental.counted [EndOfData ε] (hc : Incremental count) (h : Incremental scan) :
    Incremental (counted count scan) := hc.bind fun n => h.times n.toNat

/-- A counted list is accepted as its length and its items. -/
theorem AcceptsAll.counted
    (hcount : ∀ n p, count.Accepts p (BigEndian.bytes 2 n.toNat) n)
    {p : Nat} {read : List UInt8} {as : List α} (hlen : as.length < 65536)
    (h : scan.AcceptsAll (p + 2) read as) :
    (counted count scan).Accepts p (BigEndian.bytes 2 as.length ++ read) as := by
  have hn : (UInt16.ofNat as.length).toNat = as.length := UInt16.toNat_ofNat_of_lt' hlen
  have htimes : (Scan.times (UInt16.ofNat as.length).toNat scan).Accepts
      (p + (BigEndian.bytes 2 as.length).length) read as := by
    rw [hn, BigEndian.length_bytes]
    exact h.times
  have hc := hcount (UInt16.ofNat as.length) p
  rw [hn] at hc
  exact hc.bind htimes

/-- Nothing else is accepted, if the count is accepted as nothing else. -/
theorem accepts_counted [EndOfData ε] (hc : Incremental count) (h : Incremental scan)
    (hcount : ∀ {p read n}, count.Accepts p read n ↔ read = BigEndian.bytes 2 n.toNat) {p : Nat}
    {read : List UInt8} {as : List α} :
    (counted count scan).Accepts p read as ↔ as.length < 65536 ∧
      ∃ rest, read = BigEndian.bytes 2 as.length ++ rest ∧ scan.AcceptsAll (p + 2) rest as := by
  constructor
  · -- the count that was read is the number of items, so it fits sixteen bits
    intro ha
    obtain ⟨first, rest, n, rfl, hn, hrest⟩ := (accepts_bind hc).mp ha
    obtain rfl := hcount.mp hn
    obtain ⟨hlen, hall⟩ := (accepts_times h).mp hrest
    rw [BigEndian.length_bytes] at hall
    rw [hlen]
    exact ⟨n.toNat_lt, rest, rfl, hall⟩
  · rintro ⟨hlen, rest, rfl, hall⟩
    exact AcceptsAll.counted (fun n p => hcount.mpr rfl) hlen hall

end

end JavaClass.Scan
