/-
  The grammar of a constant pool.

  A pool is stored as a 16-bit count and the constants that take the slots below it.  A constant is
  stored as the byte of its kind and a content; only a text has several forms, for any byte string
  that is read as the text will do (`Constant.EncodedAs`).  Reading and grammar agree byte for byte
  (`readsPools_scan`): a pool is read exactly off its encodings, an unknown kind is reported at the
  slot where its constant stands, and the one way to disagree with the count is a constant of two
  slots in the last slot there is.

  The loop over the slots is `ConstantPool.scanFrom`.  It is described from both ends: what it
  accepts (`accepts_scanFrom`), with `Fills` for its stopping rule, and where it fails
  (`scanFrom_eq_error`).
-/
import JavaClass.Proofs.ClassFile.Incremental
import JavaClass.Proofs.ConstantPool.Slots

namespace JavaClass

open Scan
open BigEndian (bytes signedBytes)

/-! ## The encodings of a constant

  Texts are the one kind of constant with a choice of bytes.  All other kinds are pinned by their
  stored form, which `Constant.stored` writes down. -/

namespace Constant

/-- `constant.EncodedAs read`: the bytes `read` are an entry of a pool with this constant. -/
inductive EncodedAs : Constant → List UInt8 → Prop
  /-- A text stands behind its 16-bit length, spelled in any way that is read as it. -/
  | text {text : String} {spelled : List UInt8} (length_lt : spelled.length < 0x10000)
    (reads : Text.decode? spelled = some text) :
    EncodedAs (.utf8 text) (1 :: (bytes 2 spelled.length ++ spelled))
  /-- Any other constant has one stored form. -/
  | other {constant : Constant} (kind : constant.tag ≠ .utf8) : EncodedAs constant constant.stored

/-- Constants one behind the other. -/
inductive AllEncodedAs : List Constant → List UInt8 → Prop
  | nil : AllEncodedAs [] []
  | cons {constant : Constant} {constants : List Constant} {first rest : List UInt8}
    (head : constant.EncodedAs first) (tail : AllEncodedAs constants rest) :
    AllEncodedAs (constant :: constants) (first ++ rest)

theorem encodedAs_utf8 {text : String} {body : List UInt8} :
    (Constant.utf8 text).EncodedAs (1 :: body) ↔ ∃ spelled : List UInt8,
      spelled.length < 0x10000 ∧ Text.decode? spelled = some text ∧
        body = bytes 2 spelled.length ++ spelled := by
  constructor
  · intro h
    cases h with
    | text length_lt reads => exact ⟨_, length_lt, reads, rfl⟩
    | other kind => exact absurd rfl kind
  · rintro ⟨spelled, length_lt, reads, rfl⟩
    exact .text length_lt reads

theorem encodedAs_iff {constant : Constant} (kind : constant.tag ≠ .utf8) {read : List UInt8} :
    constant.EncodedAs read ↔ read = constant.stored := by
  constructor
  · intro h
    cases h with
    | text length_lt reads => exact absurd rfl kind
    | other kind => rfl
  · rintro rfl
    exact .other kind

/-! ## Contents

  Sixteen of the kinds are read as one number or as two.  What differs among them is the width of
  the numbers and the constant that is made of them, so both are parameters. -/

section
variable {α β : Type} {number : Scan ScanError α} {first : Scan ScanError α}
  {second : Scan ScanError β} {layout : α → List UInt8} {layout₁ : α → List UInt8}
  {layout₂ : β → List UInt8} {p : Nat} {body : List UInt8} {constant : Constant}

/-- A content of one number. -/
theorem accepts_one (hi : Incremental number)
    (hs : ∀ {p : Nat} {read : List UInt8} {a : α}, number.Accepts p read a ↔ read = layout a)
    (make : α → Constant) :
    (number >>= fun a => pure (make a)).Accepts p body constant ↔
      ∃ a, body = layout a ∧ make a = constant := by
  rw [accepts_map hi]
  simp only [hs]

/-- A content of two numbers. -/
theorem accepts_two (hi₁ : Incremental first) (hi₂ : Incremental second)
    (hs₁ : ∀ {p : Nat} {read : List UInt8} {a : α}, first.Accepts p read a ↔ read = layout₁ a)
    (hs₂ : ∀ {p : Nat} {read : List UInt8} {b : β}, second.Accepts p read b ↔ read = layout₂ b)
    (make : α → β → Constant) :
    (first >>= fun a => second >>= fun b => pure (make a b)).Accepts p body constant ↔
      ∃ ab : α × β, body = layout₁ ab.1 ++ layout₂ ab.2 ∧ make ab.1 ab.2 = constant := by
  rw [accepts_bind hi₁]
  constructor
  · rintro ⟨_, _, a, rfl, ha, h⟩
    obtain ⟨b, rfl, rfl⟩ := (accepts_one hi₂ hs₂ (make a)).mp h
    exact ⟨(a, b), by rw [hs₁.mp ha], rfl⟩
  · rintro ⟨⟨a, b⟩, rfl, rfl⟩
    exact ⟨_, _, a, rfl, hs₁.mpr rfl, (accepts_one hi₂ hs₂ (make a)).mpr ⟨b, rfl, rfl⟩⟩

/-- Constants of a kind that are made of numbers have the stored form of those numbers. -/
theorem encodedAs_of_kind {tag : Tag} {make : α → Constant} (htext : tag ≠ .utf8)
    (hmade : constant.tag = tag → ∃ a, make a = constant)
    (hstored : ∀ a, (make a).tag = tag ∧ (make a).stored = tag.byte :: layout a) :
    (∃ a, body = layout a ∧ make a = constant) ↔
      constant.tag = tag ∧ constant.EncodedAs (tag.byte :: body) := by
  constructor
  · rintro ⟨a, rfl, rfl⟩
    obtain ⟨htag, hform⟩ := hstored a
    exact ⟨htag, (encodedAs_iff (by rw [htag]; exact htext)).mpr hform.symm⟩
  · rintro ⟨htag, h⟩
    obtain ⟨a, rfl⟩ := hmade htag
    obtain ⟨-, hform⟩ := hstored a
    rw [encodedAs_iff (by rw [htag]; exact htext), hform] at h
    exact ⟨a, (List.cons.inj h).2, rfl⟩

end

/-- The content of a text: its length in bytes, and as many bytes that are read as the text. -/
theorem accepts_text_body {p : Nat} {body : List UInt8} {constant : Constant} :
    (scanBody .utf8).Accepts p body constant ↔
      constant.tag = .utf8 ∧ constant.EncodedAs (Tag.utf8.byte :: body) := by
  rw [scanBody, accepts_bind incremental_u16]
  constructor
  · rintro ⟨_, spelled, length, rfl, hlength, h⟩
    obtain ⟨text, htext, rfl⟩ := (accepts_map (incremental_text _)).mp h
    obtain ⟨hlen, hreads⟩ := accepts_text.mp htext
    rw [accepts_u16.mp hlength, ← hlen]
    exact ⟨rfl, .text (hlen ▸ length.toNat_lt) hreads⟩
  · rintro ⟨htag, h⟩
    obtain ⟨text, rfl⟩ : ∃ text, constant = .utf8 text :=
      match constant, htag with | .utf8 text, _ => ⟨text, rfl⟩
    obtain ⟨spelled, hlt, hreads, rfl⟩ := encodedAs_utf8.mp h
    have hlength : (UInt16.ofNat spelled.length).toNat = spelled.length :=
      UInt16.toNat_ofNat_of_lt' hlt
    refine ⟨_, spelled, UInt16.ofNat spelled.length, rfl, accepts_u16_ofNat hlt, ?_⟩
    exact (accepts_map (incremental_text _)).mpr
      ⟨text, accepts_text.mpr ⟨hlength.symm, hreads⟩, rfl⟩

section
variable {α β : Type} {tag : Tag} {p : Nat} {body : List UInt8} {constant : Constant}

/-- A kind whose constants are made of one number is accepted as their stored form. -/
theorem accepts_number {number : Scan ScanError α} {layout : α → List UInt8} {make : α → Constant}
    (hi : Incremental number)
    (hs : ∀ {p : Nat} {read : List UInt8} {a : α}, number.Accepts p read a ↔ read = layout a)
    (htext : tag ≠ .utf8) (hmade : ∀ c : Constant, c.tag = tag → ∃ a, make a = c)
    (hstored : ∀ a, (make a).tag = tag ∧ (make a).stored = tag.byte :: layout a) :
    (number >>= fun a => pure (make a)).Accepts p body constant ↔
      constant.tag = tag ∧ constant.EncodedAs (tag.byte :: body) :=
  (accepts_one hi hs make).trans (encodedAs_of_kind htext (hmade constant) hstored)

/-- A kind whose constants refer to one other constant. -/
theorem accepts_index {make : UInt16 → Constant} (htext : tag ≠ .utf8)
    (hmade : ∀ c : Constant, c.tag = tag → ∃ index, make index = c)
    (hstored : ∀ index, (make index).tag = tag ∧
      (make index).stored = tag.byte :: bytes 2 index.toNat) :
    (u16 >>= fun index => pure (make index)).Accepts p body constant ↔
      constant.tag = tag ∧ constant.EncodedAs (tag.byte :: body) :=
  accepts_number incremental_u16 accepts_u16 htext hmade hstored

/-- A kind whose constants have an index behind another number. -/
theorem accepts_numbered {number : Scan ScanError α} {layout : α → List UInt8}
    {make : α → UInt16 → Constant} (hi : Incremental number)
    (hs : ∀ {p : Nat} {read : List UInt8} {a : α}, number.Accepts p read a ↔ read = layout a)
    (htext : tag ≠ .utf8)
    (hmade : ∀ c : Constant, c.tag = tag → ∃ ab : α × UInt16, make ab.1 ab.2 = c)
    (hstored : ∀ ab : α × UInt16, (make ab.1 ab.2).tag = tag ∧
      (make ab.1 ab.2).stored = tag.byte :: (layout ab.1 ++ bytes 2 ab.2.toNat)) :
    (number >>= fun a => u16 >>= fun index => pure (make a index)).Accepts p body constant ↔
      constant.tag = tag ∧ constant.EncodedAs (tag.byte :: body) :=
  (accepts_two hi incremental_u16 hs accepts_u16 make).trans
    (encodedAs_of_kind htext (hmade constant) hstored)

end

/-- The content of a kind is accepted as what follows the byte of the kind in an encoding. -/
theorem accepts_scanBody {tag : Tag} {p : Nat} {body : List UInt8} {constant : Constant} :
    (scanBody tag).Accepts p body constant ↔
      constant.tag = tag ∧ constant.EncodedAs (tag.byte :: body) := by
  cases tag with
  | utf8 => exact accepts_text_body
  -- numbers that are the value of the constant
  | integer =>
    exact accepts_number incremental_i32 accepts_i32 (by decide) (fun | .integer v, _ => ⟨v, rfl⟩)
      fun _ => ⟨rfl, rfl⟩
  | float =>
    exact accepts_number incremental_u32 accepts_u32 (by decide) (fun | .float v, _ => ⟨v, rfl⟩)
      fun _ => ⟨rfl, rfl⟩
  | long =>
    exact accepts_number incremental_i64 accepts_i64 (by decide) (fun | .long v, _ => ⟨v, rfl⟩)
      fun _ => ⟨rfl, rfl⟩
  | double =>
    exact accepts_number incremental_u64 accepts_u64 (by decide) (fun | .double v, _ => ⟨v, rfl⟩)
      fun _ => ⟨rfl, rfl⟩
  -- references; of all constants, one has the kind
  | classRef | string | methodType | moduleRef | packageRef =>
    refine accepts_index (by decide) (fun c h => ?_) fun _ => ⟨rfl, rfl⟩
    cases c <;> cases h
    exact ⟨_, rfl⟩
  | fieldRef | methodRef | interfaceMethodRef | nameAndType | dynamic | invokeDynamic =>
    refine accepts_numbered incremental_u16 accepts_u16 (by decide) (fun c h => ?_)
      fun _ => ⟨rfl, rfl⟩
    cases c <;> cases h
    exact ⟨(_, _), rfl⟩
  | methodHandle =>
    refine accepts_numbered incremental_u8 accepts_u8 (by decide) (fun c h => ?_)
      fun _ => ⟨rfl, rfl⟩
    cases c <;> cases h
    exact ⟨(_, _), rfl⟩

/-! ## One constant

  A constant fails in two ways, by its kind or for want of bytes.  Only the first of them mentions
  an index, which is the slot that the loop has got to. -/

/-- An encoding starts with the byte of the kind. -/
theorem EncodedAs.eq_cons {constant : Constant} {read : List UInt8} (h : constant.EncodedAs read) :
    ∃ body, read = constant.tag.byte :: body := by
  cases h with
  | text length_lt reads => exact ⟨_, rfl⟩
  | other kind => cases constant <;> exact ⟨_, rfl⟩

/-- A constant is accepted as any of its encodings, whatever its index. -/
theorem accepts_scan {index : UInt16} {p : Nat} {read : List UInt8} {constant : Constant} :
    (scan index).Accepts p read constant ↔ constant.EncodedAs read := by
  have hbyte : ∀ byte : UInt8, bytes 1 byte.toNat = [byte] := by
    intro byte
    rw [BigEndian.bytes_one, UInt8.ofNat_toNat]
  rw [scan, accepts_u8_bind]
  constructor
  · rintro ⟨byte, body, rfl, h⟩
    obtain ⟨tag, htag, h⟩ := accepts_ofOption_bind.mp h
    obtain ⟨-, henc⟩ := accepts_scanBody.mp (accepts_lift.mp h)
    rw [Tag.byte_of_ofByte? htag] at henc
    rw [hbyte]
    exact henc
  · intro h
    obtain ⟨body, rfl⟩ := h.eq_cons
    refine ⟨constant.tag.byte, body, by rw [hbyte]; rfl, ?_⟩
    refine accepts_ofOption_bind.mpr ⟨constant.tag, Tag.ofByte?_byte _, ?_⟩
    exact accepts_lift.mpr (accepts_scanBody.mpr ⟨rfl, h⟩)

/-- A byte that is read leads behind it. -/
theorem u8_eq_ok {c d : Cursor} {byte : UInt8} :
    (liftM u8 : Scan ReadError UInt8) c = .ok byte d ↔ c.Reaches d [byte] := by
  have h := number_eq_ok incremental_u8 accepts_u8 (c := c) (d := d) (a := byte)
  rwa [BigEndian.bytes_one, UInt8.ofNat_toNat] at h

/-- A constant fails to be read because its kind is unknown, or for want of a value. -/
theorem scan_eq_error {index : UInt16} {c d : Cursor} {e : ReadError}
    (h : scan index c = .error e d) :
    (∃ byte, e = .unsupportedTag byte index ∧ c.Reaches d [byte] ∧
      ∀ tag : Tag, tag.byte ≠ byte) ∨ ∃ cause, e = .ofScan cause := by
  -- no byte is left, the byte is no kind, or the body of the kind fails
  rcases bind_eq_error.mp h with h | ⟨byte, c', hbyte, h⟩
  · obtain ⟨cause, -, rfl⟩ := mapError_eq_error.mp h
    exact Or.inr ⟨cause, rfl⟩
  rcases bind_eq_error.mp h with h | ⟨tag, c'', -, h⟩
  · cases htag : Tag.ofByte? byte with
    | some tag =>
      rw [htag] at h
      nomatch h
    | none =>
      rw [htag] at h
      cases h
      exact Or.inl ⟨byte, rfl, u8_eq_ok.mp hbyte, Tag.ofByte?_eq_none.mp htag⟩
  · obtain ⟨cause, -, rfl⟩ := mapError_eq_error.mp h
    exact Or.inr ⟨cause, rfl⟩

theorem scan_eq_unsupportedTag {index i : UInt16} {c d : Cursor} {byte : UInt8} :
    scan i c = .error (.unsupportedTag byte index) d ↔
      c.Reaches d [byte] ∧ index = i ∧ ∀ tag : Tag, tag.byte ≠ byte := by
  constructor
  · intro h
    -- of all failures of a constant, this one has an unknown kind
    rcases scan_eq_error h with ⟨byte', he, hr, htag⟩ | ⟨cause, he⟩
    · cases he
      exact ⟨hr, rfl, htag⟩
    · cases cause <;> nomatch he
  · rintro ⟨hr, rfl, htag⟩
    refine bind_eq_error.mpr (Or.inr ⟨byte, d, u8_eq_ok.mpr hr, ?_⟩)
    rw [Tag.ofByte?_eq_none.mpr htag]
    rfl

theorem scan_ne_malformed_poolSlots {index : UInt16} {c d : Cursor} {declared taken : Nat} :
    scan index c ≠ .error (.malformed (.poolSlots declared taken)) d := by
  intro h
  rcases scan_eq_error h with ⟨byte, he, -⟩ | ⟨cause, he⟩
  · nomatch he
  · cases cause <;> nomatch he

end Constant

/-! ## The loop over the slots

  The loop is told when to stop by the slots that the constants have taken, not by how many there
  are.  It looks at the count in front of each constant, so a constant of two slots may reach
  beyond it. -/

namespace ConstantPool

open Constant (AllEncodedAs)

/-- `Fills count index constants`: put into slots from `index` on, each of the constants starts
    below the count, and there is no slot left behind the last. -/
def Fills (count : Nat) : Nat → List Constant → Prop
  | index, [] => count ≤ index
  | index, constant :: constants => index < count ∧ Fills count (index + constant.slots) constants

/-- Only the last constant tells whether the slots are filled. -/
theorem fills_concat {count index : Nat} {front : List Constant} {last : Constant} :
    Fills count index (front ++ [last]) ↔
      index + slotsOf front < count ∧ count ≤ index + slotsOf front + last.slots := by
  induction front generalizing index with
  | nil => simp [Fills]
  | cons constant front ih =>
    rw [List.cons_append, Fills, ih, slotsOf_cons]
    omega

/-- The slots are filled exactly, or the last constant takes one more than there is. -/
theorem fills_iff {count index : Nat} (hle : index ≤ count) {constants : List Constant} :
    Fills count index constants ↔ index + slotsOf constants = count ∨
      ∃ front wide, constants = front ++ [wide] ∧ wide.slots = 2 ∧
        index + slotsOf front + 1 = count := by
  rcases List.eq_nil_or_concat constants with rfl | ⟨front, last, rfl⟩
  · simp [Fills]
    omega
  · have hpos := last.slots_pos
    have htwo := last.slots_le_two
    rw [List.concat_eq_append, fills_concat, slotsOf_concat]
    constructor
    · rintro ⟨hlt, hge⟩
      -- the last constant starts below the count; what matters is where it ends
      rcases Nat.lt_or_ge count (index + slotsOf front + last.slots) with hover | hexact
      · exact Or.inr ⟨front, last, rfl, by omega, by omega⟩
      · exact Or.inl (by omega)
    · rintro (heq | ⟨front', wide, heq, hwide, hend⟩)
      · omega
      · obtain ⟨rfl, hlast⟩ := List.append_inj' heq rfl
        obtain rfl := (List.cons.inj hlast).1
        omega

/-- The loop accepts the constants that fill the slots, and adds them to the pool. -/
theorem accepts_scanFrom {count index : Nat} {pool pool' : ConstantPool} {stop p : Nat}
    {read : List UInt8} :
    (scanFrom count index pool).Accepts p read (pool', stop) ↔
      ∃ constants, AllEncodedAs constants read ∧ Fills count index constants ∧
        pool' = constants.foldl add pool ∧ stop = index + slotsOf constants := by
  -- induction on the calls of the loop: one constant, and what the loop accepts behind it
  fun_induction scanFrom count index pool generalizing p read with
  | case1 index pool hlt ih =>
    rw [accepts_bind (incremental_constant _)]
    constructor
    · rintro ⟨first, rest, constant, rfl, hfirst, hrest⟩
      obtain ⟨constants, henc, hfills, rfl, rfl⟩ := (ih constant).mp hrest
      refine ⟨constant :: constants, .cons (Constant.accepts_scan.mp hfirst) henc,
        ⟨hlt, hfills⟩, rfl, ?_⟩
      rw [slotsOf_cons, Nat.add_assoc]
    · rintro ⟨constants, henc, hfills, rfl, rfl⟩
      cases henc with
      | nil => exact absurd hlt (Nat.not_lt.mpr hfills)
      | @cons constant constants first rest head tail =>
        refine ⟨first, rest, constant, rfl, Constant.accepts_scan.mpr head, ?_⟩
        refine (ih constant).mpr ⟨constants, tail, hfills.2, rfl, ?_⟩
        rw [slotsOf_cons, Nat.add_assoc]
  | case2 index pool hge =>
    rw [accepts_pure, Prod.mk.injEq]
    constructor
    · rintro ⟨rfl, rfl, rfl⟩
      exact ⟨[], .nil, Nat.le_of_not_lt hge, rfl, rfl⟩
    · rintro ⟨constants, henc, hfills, rfl, rfl⟩
      cases henc with
      | nil => exact ⟨rfl, rfl, rfl⟩
      | cons head tail => exact absurd hfills.1 hge

/-- The loop fails where a constant fails to be read, behind constants that leave a slot for it. -/
theorem scanFrom_eq_error {count index : Nat} {pool : ConstantPool} {c d : Cursor}
    {e : ReadError} :
    scanFrom count index pool c = .error e d ↔
      ∃ constants before c', c.Reaches c' before ∧ AllEncodedAs constants before ∧
        index + slotsOf constants < count ∧
        Constant.scan (UInt16.ofNat (index + slotsOf constants)) c' = .error e d := by
  -- induction on the calls of the loop: the failure is here, or behind one more constant
  fun_induction scanFrom count index pool generalizing c with
  | case1 index pool hlt ih =>
    rw [bind_eq_error]
    constructor
    · rintro (h | ⟨constant, c₁, hc₁, h⟩)
      · exact ⟨[], [], c, .refl c, .nil, hlt, h⟩
      · obtain ⟨constants, before, c', hr, henc, hcount, h⟩ := (ih constant).mp h
        obtain ⟨first, hfirst, ha⟩ := (incremental_constant _).accepts hc₁
        rw [Nat.add_assoc] at hcount h
        exact ⟨constant :: constants, first ++ before, c', hfirst.trans hr,
          .cons (Constant.accepts_scan.mp ha) henc, hcount, h⟩
    · rintro ⟨constants, before, c', hr, henc, hcount, h⟩
      cases henc with
      | nil =>
        obtain rfl := Cursor.reaches_nil.mp hr
        exact Or.inl h
      | @cons constant constants first rest head tail =>
        obtain ⟨c₁, hfirst, hrest⟩ := hr.split
        rw [slotsOf_cons, ← Nat.add_assoc] at hcount h
        exact Or.inr ⟨constant, c₁, (incremental_constant _).eq_ok_iff.mpr
          ⟨first, hfirst, Constant.accepts_scan.mpr head⟩,
          (ih constant).mpr ⟨constants, rest, c', hrest, tail, hcount, h⟩⟩
  | case2 index pool hge =>
    constructor
    · intro h
      cases h
    · rintro ⟨constants, before, c', -, -, hcount, -⟩
      omega

/-! ## The pool

  The check behind the loop compares where it stopped with the count.  The loop stops late by one
  slot at most, so there is one way for the check to fail. -/

/-- The bytes `read` are a pool of the given constants: a count, and constants that take the slots
    below it.  A count of zero stands for a pool without constants, like a count of one. -/
def EncodedAs (constants : List Constant) (read : List UInt8) : Prop :=
  ∃ (count : UInt16) (body : List UInt8), read = bytes 2 count.toNat ++ body ∧
    AllEncodedAs constants body ∧
    (1 + slotsOf constants = count.toNat ∨ count = 0 ∧ constants = [])

/-- What the pool's own check lets pass: the slots are filled exactly, unless there is none. -/
theorem fills_and_stop_iff {count : UInt16} {constants : List Constant} :
    Fills count.toNat 1 constants ∧ (count = 0 ∨ 1 + slotsOf constants = count.toNat) ↔
      1 + slotsOf constants = count.toNat ∨ count = 0 ∧ constants = [] := by
  -- a count of zero is let pass whatever is read, and then nothing is
  rcases Nat.eq_zero_or_pos count.toNat with h₀ | hpos
  · obtain rfl : count = 0 := UInt16.toNat_inj.mp h₀
    have hfills : Fills 0 1 constants ↔ constants = [] := by
      cases constants with
      | nil => simp [Fills]
      | cons constant constants => simp [Fills]
    rw [h₀, hfills]
    constructor
    · rintro ⟨hnil, -⟩
      exact Or.inr ⟨rfl, hnil⟩
    · rintro (hsum | ⟨-, hnil⟩)
      · omega
      · exact ⟨hnil, Or.inl rfl⟩
  · have hne : count ≠ 0 := by
      rintro rfl
      exact Nat.lt_irrefl 0 hpos
    rw [fills_iff hpos]
    constructor
    · rintro ⟨-, h₀ | hsum⟩
      · exact absurd h₀ hne
      · exact Or.inl hsum
    · rintro (hsum | ⟨h₀, -⟩)
      · exact ⟨Or.inl hsum, Or.inr hsum⟩
      · exact absurd h₀ hne

/-- A pool is accepted as any of its encodings. -/
theorem accepts_scan {p : Nat} {read : List UInt8} {pool : ConstantPool} :
    scan.Accepts p read pool ↔
      ∃ constants, EncodedAs constants read ∧ pool = ofList constants := by
  rw [scan, accepts_u16_bind]
  constructor
  · rintro ⟨count, body, rfl, h⟩
    obtain ⟨first, rest, ⟨pool', stop⟩, rfl, hloop, h⟩ :=
      (accepts_bind (incremental_scanFrom count.toNat 1 empty)).mp h
    -- the check says where the loop has stopped
    obtain ⟨hcheck, h⟩ := accepts_require_bind.mp h
    obtain ⟨rfl, rfl⟩ := accepts_pure.mp h
    obtain ⟨constants, henc, hfills, rfl, rfl⟩ := accepts_scanFrom.mp hloop
    rw [List.append_nil]
    exact ⟨constants, ⟨count, first, rfl, henc, fills_and_stop_iff.mp ⟨hfills, hcheck⟩⟩, rfl⟩
  · rintro ⟨constants, ⟨count, body, rfl, henc, hslots⟩, rfl⟩
    obtain ⟨hfills, hcheck⟩ := fills_and_stop_iff.mpr hslots
    refine ⟨count, body, rfl, ?_⟩
    refine (accepts_bind (incremental_scanFrom count.toNat 1 empty)).mpr
      ⟨body, [], (ofList constants, 1 + slotsOf constants), (List.append_nil _).symm, ?_, ?_⟩
    · exact accepts_scanFrom.mpr ⟨constants, henc, hfills, rfl, rfl⟩
    · exact accepts_require_bind.mpr ⟨hcheck, accepts_pure.mpr ⟨rfl, rfl⟩⟩

/-- A pool fails to be read for want of its count, in the loop over its slots, or because the
    constants take more slots than there are. -/
theorem scan_eq_error {c d : Cursor} {e : ReadError} :
    scan c = .error e d ↔ (liftM u16 : Scan ReadError UInt16) c = .error e d ∨
      ∃ (count : UInt16) (c' : Cursor), c.Reaches c' (bytes 2 count.toNat) ∧
        (scanFrom count.toNat 1 empty c' = .error e d ∨
          ∃ pool stop, scanFrom count.toNat 1 empty c' = .ok (pool, stop) d ∧
            ¬ (count = 0 ∨ stop = count.toNat) ∧ e = .malformed (.poolSlots count.toNat stop)) := by
  rw [scan, bind_eq_error]
  refine or_congr Iff.rfl (exists_congr fun count => exists_congr fun c' => ?_)
  rw [number_eq_ok incremental_u16 accepts_u16, bind_eq_error]
  refine and_congr_right fun _ => or_congr Iff.rfl ?_
  constructor
  · rintro ⟨⟨pool, stop⟩, c'', hloop, h⟩
    -- only the check can fail behind the loop
    rcases bind_eq_error.mp h with h | ⟨_, c₁, -, h⟩
    · obtain ⟨hcheck, rfl, rfl⟩ := require_eq_error.mp h
      exact ⟨pool, stop, hloop, hcheck, rfl⟩
    · have h : (pure pool : Scan ReadError ConstantPool) c₁ = .error e d := h
      nomatch h
  · rintro ⟨pool, stop, hloop, hcheck, rfl⟩
    refine ⟨(pool, stop), d, hloop, bind_eq_error.mpr (Or.inl ?_)⟩
    exact require_eq_error.mpr ⟨hcheck, rfl, rfl⟩

/-- A pool is read with more slots than it declares exactly if its last constant starts in the last
    slot and takes two. -/
theorem overfull_iff {count : UInt16} {constants : List Constant} :
    Fills count.toNat 1 constants ∧ ¬ (count = 0 ∨ 1 + slotsOf constants = count.toNat) ↔
      ∃ front wide, constants = front ++ [wide] ∧ wide.slots = 2 ∧
        slotsOf front + 2 = count.toNat := by
  have hzero : count = 0 ↔ count.toNat = 0 := by
    rw [← UInt16.toNat_inj]
    rfl
  rw [hzero]
  constructor
  · rintro ⟨hfills, hno⟩
    rcases (fills_iff (by omega)).mp hfills with hsum | ⟨front, wide, rfl, hwide, hend⟩
    · omega
    · exact ⟨front, wide, rfl, hwide, by omega⟩
  · rintro ⟨front, wide, rfl, hwide, hend⟩
    refine ⟨(fills_iff (by omega)).mpr (Or.inr ⟨front, wide, rfl, hwide, by omega⟩), ?_⟩
    rw [slotsOf_concat, hwide]
    omega

theorem allEncodedAs_concat {front : List Constant} {wide : Constant} {read : List UInt8} :
    AllEncodedAs (front ++ [wide]) read ↔ ∃ before last, read = before ++ last ∧
      AllEncodedAs front before ∧ wide.EncodedAs last := by
  -- an encoding is built from its front end, so the last constant is got at by induction
  induction front generalizing read with
  | nil =>
    constructor
    · intro h
      cases h with
      | @cons _ _ first rest head tail =>
        cases tail
        exact ⟨[], first, List.append_nil first, .nil, head⟩
    · rintro ⟨before, last, rfl, hfront, hlast⟩
      cases hfront
      have h := AllEncodedAs.cons hlast .nil
      rwa [List.append_nil] at h
  | cons constant front ih =>
    constructor
    · intro h
      cases h with
      | @cons _ _ first rest head tail =>
        obtain ⟨before, last, rfl, hfront, hlast⟩ := ih.mp tail
        exact ⟨first ++ before, last, (List.append_assoc ..).symm, .cons head hfront, hlast⟩
    · rintro ⟨before, last, rfl, hfront, hlast⟩
      cases hfront with
      | @cons _ _ first rest head tail =>
        rw [List.append_assoc]
        exact .cons head (ih.mpr ⟨rest, last, rfl, tail, hlast⟩)

/-- The bytes `read` are the beginning of a pool, up to a byte in the slot `index` that is no kind:
    the constants in the slots before it are well formed. -/
def EndsInNoKind (read : List UInt8) (byte : UInt8) (index : Nat) : Prop :=
  ∃ (count : UInt16) (constants : List Constant) (body : List UInt8),
    read = bytes 2 count.toNat ++ (body ++ [byte]) ∧ AllEncodedAs constants body ∧
      index = 1 + slotsOf constants ∧ index < count.toNat ∧ ∀ tag : Constant.Tag, tag.byte ≠ byte

/-- The bytes `read` are a pool that declares too few slots: the constants in the slots before the
    last are well formed, and in the last slot starts a long or double constant. -/
def Overfull (read : List UInt8) (declared : Nat) : Prop :=
  ∃ (count : UInt16) (constants : List Constant) (wide : Constant) (body last : List UInt8),
    read = bytes 2 count.toNat ++ (body ++ last) ∧ count.toNat = declared ∧
      AllEncodedAs constants body ∧ slotsOf constants + 2 = declared ∧
      wide.EncodedAs last ∧ (wide.tag = .long ∨ wide.tag = .double)

theorem scan_eq_unsupportedTag {c d : Cursor} {byte : UInt8} {index : UInt16} :
    scan c = .error (.unsupportedTag byte index) d ↔
      ∃ passed, c.Reaches d passed ∧ EndsInNoKind passed byte index.toNat := by
  rw [scan_eq_error]
  constructor
  -- neither the count nor the check fails in this way, so the loop does
  · rintro (h | ⟨count, c₁, hcount, h | ⟨pool, stop, -, -, he⟩⟩)
    · obtain ⟨cause, -, he⟩ := mapError_eq_error.mp h
      cases cause <;> nomatch he
    · obtain ⟨constants, body, c₂, hbody, henc, hlt, h⟩ := scanFrom_eq_error.mp h
      obtain ⟨hbyte, rfl, htag⟩ := Constant.scan_eq_unsupportedTag.mp h
      rw [UInt16.toNat_ofNat_of_lt' (Nat.lt_trans hlt count.toNat_lt)]
      exact ⟨_, hcount.trans (hbody.trans hbyte), count, constants, body, rfl, henc, rfl, hlt, htag⟩
    · nomatch he
  · rintro ⟨passed, hr, count, constants, body, rfl, henc, hindex, hlt, htag⟩
    obtain ⟨c₁, hcount, hrest⟩ := hr.split
    obtain ⟨c₂, hbody, hbyte⟩ := hrest.split
    refine Or.inr ⟨count, c₁, hcount, Or.inl (scanFrom_eq_error.mpr
      ⟨constants, body, c₂, hbody, henc, hindex ▸ hlt, ?_⟩)⟩
    rw [← hindex, UInt16.ofNat_toNat]
    exact Constant.scan_eq_unsupportedTag.mpr ⟨hbyte, rfl, htag⟩

theorem scan_eq_poolSlots {c d : Cursor} {declared taken : Nat} :
    scan c = .error (.malformed (.poolSlots declared taken)) d ↔
      taken = declared + 1 ∧ ∃ passed, c.Reaches d passed ∧ Overfull passed declared := by
  have htaken : ∀ {front : List Constant} {wide : Constant} {declared : Nat}, wide.slots = 2 →
      slotsOf front + 2 = declared → 1 + slotsOf (front ++ [wide]) = declared + 1 := by
    intro front wide declared hwide hend
    rw [slotsOf_concat, hwide]
    omega
  rw [scan_eq_error]
  constructor
  -- neither the count nor the loop fails in this way, so the check does
  · rintro (h | ⟨count, c₁, hcount, h | ⟨pool, stop, hloop, hcheck, he⟩⟩)
    · obtain ⟨cause, -, he⟩ := mapError_eq_error.mp h
      cases cause <;> nomatch he
    · obtain ⟨constants, body, c₂, -, -, -, h⟩ := scanFrom_eq_error.mp h
      exact absurd h Constant.scan_ne_malformed_poolSlots
    · cases he
      obtain ⟨read, hread, ha⟩ := (incremental_scanFrom count.toNat 1 empty).accepts hloop
      obtain ⟨constants, henc, hfills, -, rfl⟩ := accepts_scanFrom.mp ha
      -- the slots that were filled are too many, which tells the last constant apart
      obtain ⟨front, wide, rfl, hwide, hend⟩ := overfull_iff.mp ⟨hfills, hcheck⟩
      obtain ⟨body, last, rfl, hfront, hlast⟩ := allEncodedAs_concat.mp henc
      exact ⟨htaken hwide hend, _, hcount.trans hread, count, front, wide, body, last, rfl, rfl,
        hfront, hend, hlast, Constant.slots_eq_two.mp hwide⟩
  · rintro ⟨rfl, passed, hr, count, front, wide, body, last, rfl, rfl, hfront, hend, hlast, htag⟩
    have hwide := Constant.slots_eq_two.mpr htag
    obtain ⟨c₁, hcount, hrest⟩ := hr.split
    obtain ⟨hfills, hcheck⟩ := overfull_iff.mpr ⟨front, wide, rfl, hwide, hend⟩
    have henc := allEncodedAs_concat.mpr ⟨body, last, rfl, hfront, hlast⟩
    refine Or.inr ⟨count, c₁, hcount, Or.inr ⟨ofList (front ++ [wide]), _, ?_, hcheck, ?_⟩⟩
    · exact (incremental_scanFrom count.toNat 1 empty).eq_ok_iff.mpr
        ⟨body ++ last, hrest, accepts_scanFrom.mpr ⟨front ++ [wide], henc, hfills, rfl, rfl⟩⟩
    · rw [htaken hwide hend]

/-- What a reader of pools makes of the bytes behind a cursor. -/
structure ReadsPools (read : Scan ReadError ConstantPool) : Prop where
  /-- A pool is read exactly by passing one of its encodings. -/
  ok_iff : ∀ {c d : Cursor} {constants : List Constant},
    read c = .ok (ofList constants) d ↔ ∃ passed, c.Reaches d passed ∧ EncodedAs constants passed
  /-- Every pool that is read was made by adding constants. -/
  made : ∀ {c d : Cursor} {pool : ConstantPool}, read c = .ok pool d →
    ∃ constants, pool = ofList constants
  /-- Its size is the declared count less the slot that does not exist. -/
  size : ∀ {c d : Cursor} {pool : ConstantPool}, read c = .ok pool d →
    ∃ (count : UInt16) (rest : List UInt8), c.rest = bytes 2 count.toNat ++ rest ∧
      pool.size = max count.toNat 1 - 1
  /-- An unknown kind is reported at its slot, behind constants that are well formed. -/
  unsupportedTag : ∀ {c d : Cursor} {byte : UInt8} {index : UInt16},
    read c = .error (.unsupportedTag byte index) d ↔
      ∃ passed, c.Reaches d passed ∧ EndsInNoKind passed byte index.toNat
  /-- The slots are reported as too few exactly if the last constant takes one too many. -/
  poolSlots : ∀ {c d : Cursor} {declared taken : Nat},
    read c = .error (.malformed (.poolSlots declared taken)) d ↔
      taken = declared + 1 ∧ ∃ passed, c.Reaches d passed ∧ Overfull passed declared

/-- **Pools are read as they are written.**  The reader of pools accepts the grammar of pools, keeps
    exact account of the slots, and reports what is wrong with them where it is. -/
theorem readsPools_scan : ReadsPools scan := by
  constructor
  case ok_iff =>
    intro c d constants
    rw [incremental_pool.eq_ok_iff]
    simp only [accepts_scan, ofList_inj]
    constructor
    · rintro ⟨passed, hr, constants', henc, rfl⟩
      exact ⟨passed, hr, henc⟩
    · rintro ⟨passed, hr, henc⟩
      exact ⟨passed, hr, constants, henc, rfl⟩
  case made =>
    intro c d pool h
    obtain ⟨passed, -, ha⟩ := incremental_pool.accepts h
    obtain ⟨constants, -, hpool⟩ := accepts_scan.mp ha
    exact ⟨constants, hpool⟩
  case size =>
    intro c d pool h
    obtain ⟨passed, hr, ha⟩ := incremental_pool.accepts h
    obtain ⟨constants, ⟨count, body, rfl, -, hslots⟩, rfl⟩ := accepts_scan.mp ha
    refine ⟨count, body ++ d.rest, by rw [hr.1, List.append_assoc], ?_⟩
    rw [size_ofList]
    rcases hslots with hsum | ⟨rfl, rfl⟩
    · omega
    · rfl
  case unsupportedTag =>
    intro c d byte index
    exact scan_eq_unsupportedTag
  case poolSlots =>
    intro c d declared taken
    exact scan_eq_poolSlots

/-- The theorem at a pool with a long constant and a byte behind it, at a pool whose second constant
    is of no kind, and at a pool with a double constant in its only slot. -/
theorem readsPools_scan_long_and_double :
    scan (.start [0, 4, 5, 0, 0, 0, 0, 0, 0, 1, 0, 8, 0, 1, 0xAA]) =
      .ok (ofList [.long 256, .string 1]) ⟨[0xAA], 14⟩ ∧
    scan (.start [0, 3, 8, 0, 2, 2, 0]) = .error (.unsupportedTag 2 2) ⟨[0], 6⟩ ∧
    scan (.start [0, 2, 6, 0, 0, 0, 0, 0, 0, 0, 0]) =
      .error (.malformed (.poolSlots 2 3)) ⟨[], 11⟩ := by
  refine ⟨readsPools_scan.ok_iff.mpr ?_, readsPools_scan.unsupportedTag.mpr ?_,
    readsPools_scan.poolSlots.mpr ⟨rfl, ?_⟩⟩
  · refine ⟨_, ⟨?_, ?_⟩, 4, _, rfl, .cons (.other ?_) (.cons (.other ?_) .nil), Or.inl rfl⟩
    all_goals decide
  · refine ⟨_, ⟨?_, ?_⟩, 3, [.string 2], _, rfl, .cons (.other ?_) .nil, rfl, ?_, ?_⟩
    any_goals decide
    intro tag
    cases tag <;> decide
  · refine ⟨_, ⟨?_, ?_⟩, 2, [], .double 0, [], _, rfl, rfl, .nil, rfl, .other ?_, Or.inr rfl⟩
    all_goals decide

end ConstantPool

end JavaClass
