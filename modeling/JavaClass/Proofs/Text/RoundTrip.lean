/-
  The text of a stored text.

  A text written in modified UTF-8 is read back as itself.  Reading tries standard UTF-8 first, so
  two things are to be shown: that modified UTF-8 is decoded to what it was written from, surrogate
  by surrogate (`Modified.decode_encode`), and that the standard reading, where there is one, is
  the same text.  The latter holds because the bytes of a modified form are neither zero nor above
  0xEF, so a standard reading of them has only characters that both forms write alike.
-/
import JavaClass.Text.Stored

namespace JavaClass.Text

/-! ## UTF-16

  A character below U+10000 is one unit, and no surrogate.  Any other is a pair of surrogates, ten
  bits of it in each. -/

namespace Utf16

/-- A character is no surrogate, and no surrogate is a character. -/
theorem toNat_valid (c : Char) :
    c.toNat < 0xD800 ∨ (0xDFFF < c.toNat ∧ c.toNat < 0x110000) := c.valid

/-- A unit that is no half of a pair is a character. -/
theorem decodeAfter_unit {unit : UInt16} (hhigh : ¬ IsHigh unit) (hlow : ¬ IsLow unit)
    (done : List Char) (rest : List UInt16) :
    decodeAfter done (unit :: rest) = decodeAfter (Char.ofNat unit.toNat :: done) rest := by
  rw [decodeAfter.eq_def]
  exact (if_neg hhigh).trans (if_neg hlow)

/-- A well-formed pair is a character. -/
theorem decodeAfter_pair {high low : UInt16} (hhigh : IsHigh high) (hlow : IsLow low)
    (done : List Char) (rest : List UInt16) :
    decodeAfter done (high :: low :: rest) = decodeAfter (pairChar high low :: done) rest := by
  rw [decodeAfter.eq_def]
  exact (if_pos hhigh).trans (if_pos hlow)

/-- A character is decoded from its own units, whatever follows. -/
theorem decodeAfter_encodeChar (c : Char) (done : List Char) (rest : List UInt16) :
    decodeAfter done (encodeChar c ++ rest) = decodeAfter (c :: done) rest := by
  have hvalid := toNat_valid c
  by_cases h : c.toNat < 0x10000
  · have hunit : (UInt16.ofNat c.toNat).toNat = c.toNat := UInt16.toNat_ofNat_of_lt' h
    have hhigh : ¬ IsHigh (UInt16.ofNat c.toNat) := by
      rw [IsHigh, hunit]
      omega
    have hlow : ¬ IsLow (UInt16.ofNat c.toNat) := by
      rw [IsLow, hunit]
      omega
    rw [encodeChar, if_pos h, List.singleton_append, decodeAfter_unit hhigh hlow, hunit,
      Char.ofNat_toNat]
  · have hhigh : (UInt16.ofNat (0xD800 + (c.toNat - 0x10000) / 0x400)).toNat =
        0xD800 + (c.toNat - 0x10000) / 0x400 :=
      UInt16.toNat_ofNat_of_lt' (show _ < 65536 by omega)
    have hlow : (UInt16.ofNat (0xDC00 + (c.toNat - 0x10000) % 0x400)).toNat =
        0xDC00 + (c.toNat - 0x10000) % 0x400 :=
      UInt16.toNat_ofNat_of_lt' (show _ < 65536 by omega)
    -- the halves of the pair carry the upper and the lower ten bits of what is above U+10000
    have hpair : pairChar (UInt16.ofNat (0xD800 + (c.toNat - 0x10000) / 0x400))
        (UInt16.ofNat (0xDC00 + (c.toNat - 0x10000) % 0x400)) = c := by
      have hcode : 0x10000 + (0xD800 + (c.toNat - 0x10000) / 0x400 - 0xD800) * 0x400 +
          (0xDC00 + (c.toNat - 0x10000) % 0x400 - 0xDC00) = c.toNat := by omega
      rw [pairChar, hhigh, hlow, hcode, Char.ofNat_toNat]
    rw [encodeChar, if_neg h]
    show decodeAfter done (_ :: _ :: rest) = _
    rw [decodeAfter_pair (show IsHigh _ by rw [IsHigh, hhigh]; omega)
      (show IsLow _ by rw [IsLow, hlow]; omega), hpair]

/-- So are all the characters of a text. -/
theorem decodeAfter_encode (text done : List Char) :
    decodeAfter done (encode text) = some (done.reverse ++ text) := by
  induction text generalizing done with
  | nil =>
    rw [List.append_nil]
    rfl
  | cons c text ih =>
    rw [encode, List.flatMap_cons, decodeAfter_encodeChar, ← encode, ih, List.reverse_cons,
      List.append_assoc, List.singleton_append]

/-- Decoding units that encode a text gives the text. -/
theorem decode_encode (text : List Char) : decode (encode text) = some text :=
  decodeAfter_encode text []

end Utf16

/-! ## Modified UTF-8

  How many bytes a unit takes depends on its value.  The first byte tells how many there are, and
  the bits are put together again from all of them. -/

namespace Modified

/-- A byte that stands for itself is one unit. -/
theorem unitsAfter_single {byte : UInt8} (h : IsSingle byte) (done : List UInt16)
    (rest : List UInt8) :
    unitsAfter done (byte :: rest) = unitsAfter (byte.toUInt16 :: done) rest := by
  rw [unitsAfter.eq_def]
  exact if_pos h

/-- Two bytes are one unit if the first does not stand for itself. -/
theorem unitsAfter_two {b₀ b₁ : UInt8} {unit : UInt16} (h₀ : ¬ IsSingle b₀)
    (h : unit2? b₀ b₁ = some unit) (done : List UInt16) (rest : List UInt8) :
    unitsAfter done (b₀ :: b₁ :: rest) = unitsAfter (unit :: done) rest := by
  rw [unitsAfter.eq_def]
  refine (if_neg h₀).trans ?_
  simp only [h]

/-- Three bytes are one unit if neither one nor two of them are. -/
theorem unitsAfter_three {b₀ b₁ b₂ : UInt8} {unit : UInt16} (h₀ : ¬ IsSingle b₀)
    (h₁ : unit2? b₀ b₁ = none) (h : unit3? b₀ b₁ b₂ = some unit) (done : List UInt16)
    (rest : List UInt8) :
    unitsAfter done (b₀ :: b₁ :: b₂ :: rest) = unitsAfter (unit :: done) rest := by
  rw [unitsAfter.eq_def]
  refine (if_neg h₀).trans ?_
  simp only [h₁, h]

/-- The bits of a unit below `0x800`, six of them in the second byte, are put together again. -/
theorem unit2?_of_value {unit : UInt16} {b₀ b₁ : UInt8}
    (h₁ : ¬ (0 < unit.toNat ∧ unit.toNat < 0x80)) (h₂ : unit.toNat < 0x800)
    (hb₀ : b₀.toNat = 0xC0 + unit.toNat / 0x40)
    (hb₁ : b₁.toNat = 0x80 + unit.toNat % 0x40) : unit2? b₀ b₁ = some unit := by
  have hval : (b₀.toNat - 0xC0) * 0x40 + (b₁.toNat - 0x80) = unit.toNat := by omega
  have hlead : IsLead2 b₀ := show _ ∧ _ by omega
  have hcont : IsContinuation b₁ := show _ ∧ _ by omega
  simp only [unit2?, hval]
  rw [if_pos ⟨hlead, hcont, by omega⟩, UInt16.ofNat_toNat]

/-- The first byte of three bytes is not that of two. -/
theorem unit2?_of_lead3 {b₀ b₁ : UInt8} {n : Nat} (hb₀ : b₀.toNat = 0xE0 + n) :
    unit2? b₀ b₁ = none := by
  refine if_neg ?_
  rintro ⟨⟨-, hlead⟩, -⟩
  omega

/-- The bits of any other unit, six in the second byte and six in the third. -/
theorem unit3?_of_value {unit : UInt16} {b₀ b₁ b₂ : UInt8} (h₂ : ¬ unit.toNat < 0x800)
    (hb₀ : b₀.toNat = 0xE0 + unit.toNat / 0x1000)
    (hb₁ : b₁.toNat = 0x80 + unit.toNat / 0x40 % 0x40)
    (hb₂ : b₂.toNat = 0x80 + unit.toNat % 0x40) : unit3? b₀ b₁ b₂ = some unit := by
  have hlt := unit.toNat_lt
  have hval : (b₀.toNat - 0xE0) * 0x1000 + (b₁.toNat - 0x80) * 0x40 + (b₂.toNat - 0x80) =
      unit.toNat := by omega
  have hlead : IsLead3 b₀ := show _ ∧ _ by omega
  have hcont₁ : IsContinuation b₁ := show _ ∧ _ by omega
  have hcont₂ : IsContinuation b₂ := show _ ∧ _ by omega
  simp only [unit3?, hval]
  rw [if_pos ⟨hlead, hcont₁, hcont₂, by omega⟩, UInt16.ofNat_toNat]

/-- Every unit is read back from its bytes: one, two or three, as its value wants. -/
theorem unitsAfter_encodeUnit (unit : UInt16) (done : List UInt16) (rest : List UInt8) :
    unitsAfter done (encodeUnit unit ++ rest) = unitsAfter (unit :: done) rest := by
  have hlt := unit.toNat_lt
  have hbyte : ∀ {n : Nat}, n < 0x100 → (UInt8.ofNat n).toNat = n := UInt8.toNat_ofNat_of_lt'
  -- one byte
  by_cases h₁ : 0 < unit.toNat ∧ unit.toNat < 0x80
  · have hb : (UInt8.ofNat unit.toNat).toNat = unit.toNat := hbyte (by omega)
    have hsingle : IsSingle (UInt8.ofNat unit.toNat) := by
      show 0 < _ ∧ _ < _
      rwa [hb]
    have hunit : (UInt8.ofNat unit.toNat).toUInt16 = unit := by
      rw [← UInt16.toNat_inj, UInt8.toNat_toUInt16, hb]
    rw [encodeUnit, if_pos h₁, List.singleton_append, unitsAfter_single hsingle, hunit]
  · by_cases h₂ : unit.toNat < 0x800
    -- two bytes, the first of which does not stand for itself
    · have hb₀ : (UInt8.ofNat (0xC0 + unit.toNat / 0x40)).toNat = 0xC0 + unit.toNat / 0x40 :=
        hbyte (by omega)
      have hb₁ : (UInt8.ofNat (0x80 + unit.toNat % 0x40)).toNat = 0x80 + unit.toNat % 0x40 :=
        hbyte (by omega)
      have hsingle : ¬ IsSingle (UInt8.ofNat (0xC0 + unit.toNat / 0x40)) := by
        show ¬ (0 < _ ∧ _ < _)
        rw [hb₀]
        omega
      have hunit : unit2? (UInt8.ofNat (0xC0 + unit.toNat / 0x40))
          (UInt8.ofNat (0x80 + unit.toNat % 0x40)) = some unit :=
        unit2?_of_value h₁ h₂ hb₀ hb₁
      rw [encodeUnit, if_neg h₁, if_pos h₂]
      exact unitsAfter_two hsingle hunit done rest
    -- three bytes, the first of which leads no two either
    · have hb₀ : (UInt8.ofNat (0xE0 + unit.toNat / 0x1000)).toNat = 0xE0 + unit.toNat / 0x1000 :=
        hbyte (by omega)
      have hb₁ : (UInt8.ofNat (0x80 + unit.toNat / 0x40 % 0x40)).toNat =
          0x80 + unit.toNat / 0x40 % 0x40 := hbyte (by omega)
      have hb₂ : (UInt8.ofNat (0x80 + unit.toNat % 0x40)).toNat = 0x80 + unit.toNat % 0x40 :=
        hbyte (by omega)
      have hsingle : ¬ IsSingle (UInt8.ofNat (0xE0 + unit.toNat / 0x1000)) := by
        show ¬ (0 < _ ∧ _ < _)
        rw [hb₀]
        omega
      rw [encodeUnit, if_neg h₁, if_neg h₂]
      exact unitsAfter_three hsingle (unit2?_of_lead3 hb₀) (unit3?_of_value h₂ hb₀ hb₁ hb₂) done
        rest

/-- Units that are encoded one after the other are decoded one after the other. -/
theorem unitsAfter_flatMap (units done : List UInt16) :
    unitsAfter done (units.flatMap encodeUnit) = some (done.reverse ++ units) := by
  induction units generalizing done with
  | nil =>
    rw [List.append_nil]
    rfl
  | cons unit units ih =>
    rw [List.flatMap_cons, unitsAfter_encodeUnit, ih, List.reverse_cons, List.append_assoc,
      List.singleton_append]

/-- The modified form of a text is decoded to the text. -/
theorem decode_encode (text : List Char) : decode (encode text) = some text := by
  have hunits : unitsAfter [] (encode text) = some (Utf16.encode text) := unitsAfter_flatMap _ []
  rw [decode, hunits]
  exact Utf16.decode_encode text

/-- No byte of a modified form is zero, and none is above 0xEF. -/
theorem byte_of_mem_encode {text : List Char} {byte : UInt8} (h : byte ∈ encode text) :
    0 < byte.toNat ∧ byte.toNat < 0xF0 := by
  obtain ⟨unit, -, hb⟩ := List.mem_flatMap.mp h
  have hlt := unit.toNat_lt
  have hof : ∀ n : Nat, 0 < n ∧ n < 0xF0 →
      0 < (UInt8.ofNat n).toNat ∧ (UInt8.ofNat n).toNat < 0xF0 := by
    intro n hn
    rwa [UInt8.toNat_ofNat_of_lt' (show n < 256 by omega)]
  simp only [encodeUnit] at hb
  -- one byte, two bytes, or three bytes
  split at hb
  · obtain rfl := List.mem_singleton.mp hb
    exact hof _ (by omega)
  · split at hb
    · rcases List.mem_cons.mp hb with rfl | hb
      · exact hof _ (by omega)
      · obtain rfl := List.mem_singleton.mp hb
        exact hof _ (by omega)
    · rcases List.mem_cons.mp hb with rfl | hb
      · exact hof _ (by omega)
      · rcases List.mem_cons.mp hb with rfl | hb
        · exact hof _ (by omega)
        · obtain rfl := List.mem_singleton.mp hb
          exact hof _ (by omega)

/-! ## Standard UTF-8

  The standard reading comes first.  It gives the same text for a modified form if it accepts it
  at all. -/

/-- The characters that the standard and the modified form write alike. -/
def IsPlain (c : Char) : Prop := 0 < c.toNat ∧ c.toNat < 0x10000

/-- Both encodings write a plain character the same. -/
theorem encode_plain {c : Char} (h : IsPlain c) : encode [c] = String.utf8EncodeChar c := by
  have hunit : (UInt16.ofNat c.toNat).toNat = c.toNat := UInt16.toNat_ofNat_of_lt' h.2
  have hencode : encode [c] = encodeUnit (UInt16.ofNat c.toNat) := by
    rw [encode, Utf16.encode, List.flatMap_singleton, Utf16.encodeChar, if_pos h.2,
      List.flatMap_singleton]
  have hpos := h.1
  have hlt := h.2
  have hval : c.val.toNat = c.toNat := rfl
  -- both forms put the same bits into the same bytes
  simp only [hencode, encodeUnit, hunit, String.utf8EncodeChar, hval]
  by_cases h₁ : c.toNat < 0x80
  · rw [if_pos ⟨hpos, h₁⟩, if_pos (show c.toNat ≤ 0x7f by omega)]
  · rw [if_neg (show ¬ (0 < c.toNat ∧ c.toNat < 0x80) by omega),
      if_neg (show ¬ c.toNat ≤ 0x7f by omega)]
    by_cases h₂ : c.toNat < 0x800
    · have hhigh : c.toNat / 64 % 0x20 + 0xc0 = 0xC0 + c.toNat / 0x40 := by omega
      rw [if_pos h₂, if_pos (show c.toNat ≤ 0x7ff by omega), hhigh, Nat.add_comm (c.toNat % 64)]
    · have hhigh : c.toNat / 4096 % 0x10 + 0xe0 = 0xE0 + c.toNat / 0x1000 := by omega
      rw [if_neg h₂, if_neg (show ¬ c.toNat ≤ 0x7ff by omega),
        if_pos (show c.toNat ≤ 0xffff by omega), hhigh, Nat.add_comm (c.toNat % 64),
        Nat.add_comm (c.toNat / 64 % 64)]

/-- A character that the two forms write differently shows in the standard form: as a zero byte, or
    as a byte above 0xEF. -/
theorem byte_of_not_plain {c : Char} (h : ¬ IsPlain c) :
    ∃ byte ∈ String.utf8EncodeChar c, ¬ (0 < byte.toNat ∧ byte.toNat < 0xF0) := by
  have hvalid := Utf16.toNat_valid c
  have hval : c.val.toNat = c.toNat := rfl
  unfold IsPlain at h
  simp only [String.utf8EncodeChar, hval]
  rcases Nat.eq_zero_or_pos c.toNat with h₀ | hpos
  · rw [if_pos (by omega)]
    refine ⟨_, List.mem_singleton_self _, ?_⟩
    rw [h₀]
    decide
  · rw [if_neg (by omega), if_neg (by omega), if_neg (by omega)]
    refine ⟨_, List.mem_cons_self, ?_⟩
    rw [UInt8.toNat_ofNat_of_lt' (show _ < 256 by omega)]
    omega

/-- A text whose standard form could be a modified form has one form only. -/
theorem encode_eq_standard {text : List Char}
    (h : ∀ byte ∈ text.flatMap String.utf8EncodeChar, 0 < byte.toNat ∧ byte.toNat < 0xF0) :
    encode text = text.flatMap String.utf8EncodeChar := by
  induction text with
  | nil => rfl
  | cons c text ih =>
    rw [List.flatMap_cons] at h ⊢
    have hplain : IsPlain c := by
      by_cases hc : IsPlain c
      · exact hc
      · obtain ⟨byte, hmem, hbyte⟩ := byte_of_not_plain hc
        exact absurd (h byte (List.mem_append_left _ hmem)) hbyte
    have hcons : encode (c :: text) = encode [c] ++ encode text := by
      simp only [encode, Utf16.encode, List.flatMap_cons, List.flatMap_append, List.flatMap_nil,
        List.append_nil]
    rw [hcons, encode_plain hplain, ih fun byte hb => h byte (List.mem_append_right _ hb)]

end Modified

/-- A byte string that is read as standard UTF-8 is the standard form of the text. -/
theorem eq_standard_of_fromUTF8? {stored : List UInt8} {text : String}
    (h : String.fromUTF8? stored.toByteArray = some text) :
    stored = text.toList.flatMap String.utf8EncodeChar := by
  unfold String.fromUTF8? at h
  split at h
  · rename_i hvalid
    obtain rfl := Option.some.inj h
    have hbytes : (String.fromUTF8 stored.toByteArray hvalid).toByteArray =
        stored.toByteArray := rfl
    rw [← String.utf8Encode_toList] at hbytes
    exact (List.toByteArray_inj.mp hbytes).symm
  · nomatch h

/-- **A stored text is read back.**  The modified form of a text is read as that text. -/
theorem decode?_encode (text : String) : decode? (Modified.encode text.toList) = some text := by
  unfold decode?
  split
  · rename_i other hother
    have hstored := eq_standard_of_fromUTF8? hother
    have hencode : Modified.encode other.toList = Modified.encode text.toList := by
      rw [hstored]
      refine Modified.encode_eq_standard fun byte hb => ?_
      rw [← hstored] at hb
      exact Modified.byte_of_mem_encode hb
    -- both texts are what their common modified form is decoded to
    have hdecode := Modified.decode_encode other.toList
    rw [hencode, Modified.decode_encode] at hdecode
    rw [Option.some_inj, ← String.toList_inj, Option.some.inj hdecode]
  · rw [Modified.decode_encode, Option.map_some, String.ofList_toList]

end JavaClass.Text
