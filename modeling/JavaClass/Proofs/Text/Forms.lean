/-
  The two forms of a stored text.

  A text has a standard form and a modified form, each of them written character by character
  (`String.utf8EncodeChar`, `Modified.charBytes`).  The two differ for U+0000 and for the characters
  above U+FFFF only.  Reading accepts both forms and nothing else.

  That both are accepted is shown in `JavaClass.Proofs.Text.RoundTrip`; here is the converse.  What
  the modified decoder makes units of is how these units are written (`eq_of_unitsAfter`), and what
  it makes characters of is how these characters are (`Utf16.eq_of_decodeAfter`).  So a byte string
  with a text is one of its forms (`decode?_eq_some_iff`).

  The forms do not mix.  A byte of the modified form is neither zero nor above 0xEF; in the standard
  form no byte is 0xC0, and 0xED is never followed by the second byte of a surrogate
  (`isChain_standard`).
-/
import JavaClass.Proofs.Bytes.Reads
import JavaClass.Proofs.Text.RoundTrip
import Mathlib.Data.List.Chain

namespace JavaClass.Text

/-! ## UTF-16

  Decoding puts pairs of surrogates together.  Nothing but the units of a character is decoded to
  that character. -/

namespace Utf16

/-- A number that is a character is the number of that character. -/
theorem toNat_ofNat {n : Nat} (h : n.isValidChar) : (Char.ofNat n).toNat = n := by
  rw [Char.ofNat, dif_pos h]
  rfl

/-- What is decoded as a pair is how the character is written. -/
theorem encodeChar_pairChar {high low : UInt16} (hhigh : IsHigh high) (hlow : IsLow low) :
    encodeChar (pairChar high low) = [high, low] := by
  obtain ⟨hhigh₁, hhigh₂⟩ := hhigh
  obtain ⟨hlow₁, hlow₂⟩ := hlow
  have hcode : (pairChar high low).toNat =
      0x10000 + (high.toNat - 0xD800) * 0x400 + (low.toNat - 0xDC00) :=
    toNat_ofNat (Or.inr ⟨by omega, by omega⟩)
  have hupper : 0xD800 + ((pairChar high low).toNat - 0x10000) / 0x400 = high.toNat := by
    rw [hcode]
    omega
  have hlower : 0xDC00 + ((pairChar high low).toNat - 0x10000) % 0x400 = low.toNat := by
    rw [hcode]
    omega
  rw [encodeChar, if_neg (by omega), hupper, hlower, UInt16.ofNat_toNat, UInt16.ofNat_toNat]

/-- A unit that is no surrogate is a character of its own. -/
theorem encodeChar_ofNat {unit : UInt16} (hhigh : ¬ IsHigh unit) (hlow : ¬ IsLow unit) :
    encodeChar (Char.ofNat unit.toNat) = [unit] := by
  have hlt := unit.toNat_lt
  have hcode : (Char.ofNat unit.toNat).toNat = unit.toNat := by
    apply toNat_ofNat
    unfold IsHigh at hhigh
    unfold IsLow at hlow
    show _ < 0xD800 ∨ 0xDFFF < _ ∧ _ < 0x110000
    omega
  rw [encodeChar, hcode, if_pos hlt, UInt16.ofNat_toNat]

/-- Units that are decoded are those of the characters that they are decoded to. -/
theorem eq_of_decodeAfter {done text : List Char} {units : List UInt16}
    (h : decodeAfter done units = some text) :
    ∃ more, text = done.reverse ++ more ∧ units = encode more := by
  fun_induction decodeAfter done units with
  | case1 done => exact ⟨[], by simpa using h.symm, rfl⟩
  -- a surrogate pair
  | case2 done high hhigh low rest hlow ih =>
    obtain ⟨more, htext, hrest⟩ := ih h
    refine ⟨pairChar high low :: more, by simpa using htext, ?_⟩
    rw [encode, List.flatMap_cons, encodeChar_pairChar hhigh hlow, ← encode, ← hrest]
    rfl
  -- a surrogate that is not paired is no character
  | case3 => cases h
  | case4 => cases h
  | case5 => cases h
  -- a unit of its own
  | case6 done unit rest hhigh hlow ih =>
    obtain ⟨more, htext, hrest⟩ := ih h
    refine ⟨Char.ofNat unit.toNat :: more, by simpa using htext, ?_⟩
    rw [encode, List.flatMap_cons, encodeChar_ofNat hhigh hlow, ← encode, ← hrest]
    rfl

end Utf16

/-! ## Modified UTF-8

  The decoder checks that a unit is not spelled with more bytes than it needs, so there is one
  spelling for each. -/

namespace Modified

/-- A byte that stands for itself is written as itself. -/
theorem encodeUnit_of_single {byte : UInt8} (h : IsSingle byte) :
    encodeUnit byte.toUInt16 = [byte] := by
  have hunit : byte.toUInt16.toNat = byte.toNat := UInt8.toNat_toUInt16 byte
  rw [encodeUnit, hunit, if_pos (show 0 < _ ∧ _ < _ from h), UInt8.ofNat_toNat]

/-- Two bytes are taken for a unit only if the unit is written so. -/
theorem encodeUnit_of_unit2? {b₀ b₁ : UInt8} {unit : UInt16} (h : unit2? b₀ b₁ = some unit) :
    encodeUnit unit = [b₀, b₁] := by
  simp only [unit2?] at h
  split at h
  · rename_i hbytes
    obtain ⟨⟨hlead₁, hlead₂⟩, ⟨hcont₁, hcont₂⟩, hneeded⟩ := hbytes
    obtain rfl := Option.some.inj h
    have hunit : (UInt16.ofNat ((b₀.toNat - 0xC0) * 0x40 + (b₁.toNat - 0x80))).toNat =
        (b₀.toNat - 0xC0) * 0x40 + (b₁.toNat - 0x80) :=
      UInt16.toNat_ofNat_of_lt' (show _ < 65536 by omega)
    have hupper : 0xC0 + ((b₀.toNat - 0xC0) * 0x40 + (b₁.toNat - 0x80)) / 0x40 = b₀.toNat := by
      omega
    have hlower : 0x80 + ((b₀.toNat - 0xC0) * 0x40 + (b₁.toNat - 0x80)) % 0x40 = b₁.toNat := by
      omega
    rw [encodeUnit, hunit, if_neg (by omega), if_pos (by omega), hupper, hlower, UInt8.ofNat_toNat,
      UInt8.ofNat_toNat]
  · cases h

/-- Three bytes are taken for a unit only if the unit is written so. -/
theorem encodeUnit_of_unit3? {b₀ b₁ b₂ : UInt8} {unit : UInt16}
    (h : unit3? b₀ b₁ b₂ = some unit) : encodeUnit unit = [b₀, b₁, b₂] := by
  simp only [unit3?] at h
  split at h
  · rename_i hbytes
    obtain ⟨⟨hlead₁, hlead₂⟩, ⟨hcont₁, hcont₂⟩, ⟨hcont₃, hcont₄⟩, hneeded⟩ := hbytes
    obtain rfl := Option.some.inj h
    -- the unit, put together from the bits of the three bytes, is taken apart again
    obtain ⟨n, hn⟩ : ∃ n, n = (b₀.toNat - 0xE0) * 0x1000 + (b₁.toNat - 0x80) * 0x40 +
        (b₂.toNat - 0x80) := ⟨_, rfl⟩
    rw [← hn] at hneeded ⊢
    have hunit : (UInt16.ofNat n).toNat = n :=
      UInt16.toNat_ofNat_of_lt' (show _ < 65536 by omega)
    have hupper : 0xE0 + n / 0x1000 = b₀.toNat := by omega
    have hmiddle : 0x80 + n / 0x40 % 0x40 = b₁.toNat := by omega
    have hlower : 0x80 + n % 0x40 = b₂.toNat := by omega
    rw [encodeUnit, hunit, if_neg (by omega), if_neg (by omega), hupper, hmiddle, hlower,
      UInt8.ofNat_toNat, UInt8.ofNat_toNat, UInt8.ofNat_toNat]
  · cases h

/-- Bytes that spell units are how these units are written. -/
theorem eq_of_unitsAfter {done units : List UInt16} {stored : List UInt8}
    (h : unitsAfter done stored = some units) :
    ∃ more, units = done.reverse ++ more ∧ stored = more.flatMap encodeUnit := by
  -- a unit that is read off the front goes to the front of those that are still to come
  have hcons : ∀ {done more : List UInt16} {unit : UInt16} {front rest : List UInt8},
      encodeUnit unit = front →
      (units = (unit :: done).reverse ++ more ∧ rest = more.flatMap encodeUnit) →
      units = done.reverse ++ unit :: more ∧ front ++ rest = (unit :: more).flatMap encodeUnit := by
    rintro done more unit front rest rfl ⟨hunits, rfl⟩
    exact ⟨by simpa using hunits, List.flatMap_cons.symm⟩
  fun_induction unitsAfter done stored with
  | case1 done => exact ⟨[], by simpa using h.symm, rfl⟩
  | case2 done byte rest hsingle ih =>
    obtain ⟨more, hmore⟩ := ih h
    exact ⟨_, hcons (encodeUnit_of_single hsingle) hmore⟩
  | case3 => cases h
  | case4 done b₀ _ b₁ rest unit hunit ih =>
    obtain ⟨more, hmore⟩ := ih h
    exact ⟨_, hcons (encodeUnit_of_unit2? hunit) hmore⟩
  | case5 => cases h
  | case6 done b₀ _ b₁ _ b₂ rest unit hunit ih =>
    obtain ⟨more, hmore⟩ := ih h
    exact ⟨_, hcons (encodeUnit_of_unit3? hunit) hmore⟩
  | case7 => cases h

/-- Bytes that are decoded are the modified form of the text. -/
theorem eq_encode_of_decode {stored : List UInt8} {text : List Char}
    (h : decode stored = some text) : stored = encode text := by
  obtain ⟨units, hunits, htext⟩ := Option.bind_eq_some_iff.mp h
  obtain ⟨more, rfl, rfl⟩ := eq_of_unitsAfter hunits
  obtain ⟨more', rfl, hmore⟩ := Utf16.eq_of_decodeAfter htext
  exact congrArg (List.flatMap encodeUnit) hmore

/-! ## The modified form, character by character

  By way of UTF-16 the modified form is that of units.  Here it is put together, so that it can be
  compared with the standard form character by character. -/

/-- A number of 16 bits on three bytes. -/
def threeBytes (n : Nat) : List UInt8 :=
  [UInt8.ofNat (0xE0 + n / 0x1000), UInt8.ofNat (0x80 + n / 0x40 % 0x40),
   UInt8.ofNat (0x80 + n % 0x40)]

/-- How a character is written: U+0000 on two bytes, a character above U+FFFF as two surrogates of
    three bytes each, and any other as in the standard form. -/
def charBytes (c : Char) : List UInt8 :=
  if c.toNat = 0 then [0xC0, 0x80]
  else if c.toNat < 0x10000 then String.utf8EncodeChar c
  else threeBytes (0xD800 + (c.toNat - 0x10000) / 0x400) ++
    threeBytes (0xDC00 + (c.toNat - 0x10000) % 0x400)

/-- The modified form of a plain character is the standard one. -/
theorem charBytes_plain {c : Char} (h : IsPlain c) : charBytes c = String.utf8EncodeChar c := by
  rw [charBytes, if_neg (Nat.pos_iff_ne_zero.mp h.1), if_pos h.2]

/-- A unit that is not below U+0800 takes three bytes. -/
theorem encodeUnit_ofNat {n : Nat} (hlt : n < 0x10000) (hge : 0x800 ≤ n) :
    encodeUnit (UInt16.ofNat n) = threeBytes n := by
  have hunit : (UInt16.ofNat n).toNat = n := UInt16.toNat_ofNat_of_lt' hlt
  rw [encodeUnit, hunit, if_neg (by omega), if_neg (by omega), threeBytes]

/-- The modified form of a character is that of its units. -/
theorem flatMap_encodeChar (c : Char) : (Utf16.encodeChar c).flatMap encodeUnit = charBytes c := by
  have hvalid := Utf16.toNat_valid c
  by_cases hplain : IsPlain c
  · rw [charBytes_plain hplain, ← encode_plain hplain, encode, Utf16.encode,
      List.flatMap_singleton]
  · unfold IsPlain at hplain
    rcases Nat.eq_zero_or_pos c.toNat with hzero | hpos
    · rw [Utf16.encodeChar, charBytes, hzero]
      rfl
    · rw [Utf16.encodeChar, charBytes, if_neg (by omega), if_neg (by omega), if_neg (by omega),
        List.flatMap_cons, List.flatMap_singleton, encodeUnit_ofNat (by omega) (by omega),
        encodeUnit_ofNat (by omega) (by omega)]

/-- The modified form is that of the characters, one behind the other. -/
theorem encode_eq_flatMap (text : List Char) : encode text = text.flatMap charBytes := by
  rw [encode, Utf16.encode, List.flatMap_assoc]
  simp only [flatMap_encodeChar]

end Modified

/-! ## A text and its forms

  Neither form is preferred when a text is read.  No byte string is the standard form of one text
  and the modified form of another, since a modified form is read back as its own text. -/

/-- The bytes are the standard form of the text. -/
def IsStandard (stored : List UInt8) (text : String) : Prop :=
  stored = text.toList.flatMap String.utf8EncodeChar

/-- The bytes are the modified form of the text. -/
def IsModified (stored : List UInt8) (text : String) : Prop :=
  stored = text.toList.flatMap Modified.charBytes

instance (stored : List UInt8) (text : String) : Decidable (IsStandard stored text) :=
  inferInstanceAs (Decidable (_ = _))

instance (stored : List UInt8) (text : String) : Decidable (IsModified stored text) :=
  inferInstanceAs (Decidable (_ = _))

/-- The standard form of a text decodes to it. -/
theorem fromUTF8?_of_isStandard {stored : List UInt8} {text : String} (h : IsStandard stored text) :
    String.fromUTF8? stored.toByteArray = some text := by
  have hbytes : stored.toByteArray = text.toByteArray := by
    rw [h, ← String.utf8Encode_toList]
    rfl
  rw [hbytes, String.fromUTF8?, dif_pos text.isValidUTF8]
  rfl

/-- A byte string has a text exactly if it is one of its forms. -/
theorem decode?_eq_some_iff {stored : List UInt8} {text : String} :
    decode? stored = some text ↔ IsStandard stored text ∨ IsModified stored text := by
  constructor
  · intro h
    unfold decode? at h
    split at h
    · rename_i other hother
      obtain rfl := Option.some.inj h
      exact Or.inl (eq_standard_of_fromUTF8? hother)
    · obtain ⟨chars, hchars, rfl⟩ := Option.map_eq_some_iff.mp h
      refine Or.inr ?_
      rw [IsModified, String.toList_ofList, ← Modified.encode_eq_flatMap]
      exact Modified.eq_encode_of_decode hchars
  · rintro (hstandard | hmodified)
    · rw [decode?, fromUTF8?_of_isStandard hstandard]
    · rw [hmodified, ← Modified.encode_eq_flatMap]
      exact decode?_encode text

/-! ## What belongs to one form only

  What only the standard form has is seen from single bytes.  What only the modified form has is
  not: its bytes all occur in standard forms too, and only their neighbours give them away.  So
  the standard form is looked at as a chain of bytes. -/

/-- A character is written in the bytes as only the standard form has it: U+0000 as a zero byte, or
    a character above U+FFFF on four bytes. -/
def HasStandardOnly (stored : List UInt8) : Prop :=
  ∃ c, ¬ Modified.IsPlain c ∧ String.utf8EncodeChar c <:+: stored

/-- A character is written in the bytes as only the modified form has it: U+0000 on two bytes, or a
    character above U+FFFF as a pair of surrogates. -/
def HasModifiedOnly (stored : List UInt8) : Prop :=
  ∃ c, ¬ Modified.IsPlain c ∧ Modified.charBytes c <:+: stored

/-- The modified form of a text has nothing in it that only the standard one has. -/
theorem not_hasStandardOnly {stored : List UInt8} {text : String} (h : IsModified stored text) :
    ¬ HasStandardOnly stored := by
  rintro ⟨c, hc, hwithin⟩
  obtain ⟨byte, hmem, hbyte⟩ := Modified.byte_of_not_plain hc
  have hstored : byte ∈ Modified.encode text.toList := by
    rw [Modified.encode_eq_flatMap, ← h]
    exact hwithin.subset hmem
  exact hbyte (Modified.byte_of_mem_encode hstored)

/-- What two bytes of a standard form that follow each other cannot be: the first is no 0xC0, and
    if it is 0xED, the second does not make it a surrogate. -/
def Follows (first second : UInt8) : Prop :=
  first.toNat ≠ 0xC0 ∧ (first.toNat = 0xED → second.toNat < 0xA0)

/-- Behind a byte that starts no sequence, anything may follow. -/
theorem follows_of_lt {first : UInt8} (h : first.toNat < 0xC0) (second : UInt8) :
    Follows first second :=
  ⟨by omega, by omega⟩

/-- Two leading bytes are watched, and no others. -/
theorem follows_ofNat {n : Nat} (hlt : n < 0x100) (hne : n ≠ 0xC0) (hother : n ≠ 0xED)
    (second : UInt8) : Follows (UInt8.ofNat n) second := by
  have hbyte : (UInt8.ofNat n).toNat = n := UInt8.toNat_ofNat_of_lt' hlt
  rw [Follows, hbyte]
  omega

/-- A byte that is not the first of a character. -/
theorem continuation_lt (n : Nat) : (UInt8.ofNat (n % 64 + 128)).toNat < 0xC0 := by
  rw [UInt8.toNat_ofNat_of_lt' (show n % 64 + 128 < 256 by omega)]
  omega

/-- Within a character, and at its end. -/
theorem isChain_utf8EncodeChar (c : Char) : (String.utf8EncodeChar c).IsChain Follows ∧
    ∀ byte ∈ (String.utf8EncodeChar c).getLast?, byte.toNat < 0xC0 := by
  have hvalid := Utf16.toNat_valid c
  have hval : c.val.toNat = c.toNat := rfl
  simp only [String.utf8EncodeChar, hval]
  by_cases h₁ : c.toNat ≤ 0x7f
  -- one byte, which stands for itself
  · rw [if_pos h₁]
    refine ⟨.singleton _, ?_⟩
    rintro byte ⟨⟩
    show (UInt8.ofNat c.toNat).toNat < 0xC0
    rw [UInt8.toNat_ofNat_of_lt' (show c.toNat < 256 by omega)]
    omega
  rw [if_neg h₁]
  by_cases h₂ : c.toNat ≤ 0x7ff
  -- two bytes, and the leading one is not watched, as it is above `0xC1`
  · rw [if_pos h₂]
    refine ⟨.cons_cons (follows_ofNat ?_ ?_ ?_ _) (.singleton _), ?_⟩
    · omega
    · omega
    · omega
    · rintro byte ⟨⟩
      exact continuation_lt _
  rw [if_neg h₂]
  by_cases h₃ : c.toNat ≤ 0xffff
  -- three bytes, of which the leading one may be watched
  · rw [if_pos h₃]
    refine ⟨.cons_cons ⟨?_, ?_⟩ (.cons_cons (follows_of_lt (continuation_lt _) _)
      (.singleton _)), ?_⟩
    · rw [UInt8.toNat_ofNat_of_lt' (show _ < 256 by omega)]
      omega
    · -- the characters of 0xED end where the surrogates begin
      rw [UInt8.toNat_ofNat_of_lt' (show _ < 256 by omega),
        UInt8.toNat_ofNat_of_lt' (show _ < 256 by omega)]
      omega
    · rintro byte ⟨⟩
      exact continuation_lt _
  -- four bytes, and the leading one is above the watched ones
  · rw [if_neg h₃]
    refine ⟨.cons_cons (follows_ofNat ?_ ?_ ?_ _)
      (.cons_cons (follows_of_lt (continuation_lt _) _)
        (.cons_cons (follows_of_lt (continuation_lt _) _) (.singleton _))), ?_⟩
    · omega
    · omega
    · omega
    · rintro byte ⟨⟩
      exact continuation_lt _

/-- The standard form of a text never has a watched byte with what the modified form puts behind
    it. -/
theorem isChain_standard (text : List Char) :
    (text.flatMap String.utf8EncodeChar).IsChain Follows := by
  induction text with
  | nil => exact .nil
  | cons c text ih =>
    obtain ⟨hchar, hlast⟩ := isChain_utf8EncodeChar c
    rw [List.flatMap_cons, List.isChain_append]
    refine ⟨hchar, ih, ?_⟩
    intro first hfirst second _
    exact follows_of_lt (hlast first hfirst) second

/-- The modified form of a character that is not plain does. -/
theorem not_isChain_charBytes {c : Char} (h : ¬ Modified.IsPlain c) :
    ¬ (Modified.charBytes c).IsChain Follows := by
  have hvalid := Utf16.toNat_valid c
  have hbyte : ∀ {n : Nat}, n < 0x100 → (UInt8.ofNat n).toNat = n := UInt8.toNat_ofNat_of_lt'
  unfold Modified.IsPlain at h
  intro hchain
  rw [Modified.charBytes] at hchain
  rcases Nat.eq_zero_or_pos c.toNat with hzero | hpos
  · rw [if_pos hzero] at hchain
    exact (List.isChain_cons_cons.mp hchain).1.1 rfl
  · rw [if_neg (by omega), if_neg (by omega)] at hchain
    -- the first surrogate begins with 0xED and a byte from 0xA0 on
    have hfollows := (List.isChain_cons_cons.mp hchain).1.2
    rw [hbyte (by omega), hbyte (by omega)] at hfollows
    omega

/-- The standard form of a text has nothing in it that only the modified one has. -/
theorem not_hasModifiedOnly {stored : List UInt8} {text : String} (h : IsStandard stored text) :
    ¬ HasModifiedOnly stored := by
  rintro ⟨c, hc, front, back, hwritten⟩
  have hchain := isChain_standard text.toList
  rw [← h, ← hwritten] at hchain
  obtain ⟨hfront, -, -⟩ := List.isChain_append.mp hchain
  obtain ⟨-, hchar, -⟩ := List.isChain_append.mp hfront
  exact not_isChain_charBytes hc hchar

/-! ## Reading

  Reading a text takes its bytes first and looks at them then.  A rejected text has been passed,
  and what is behind it can be read as if nothing had happened. -/

/-- Reading as many bytes as are known: they have a text, or they are rejected, and the cursor
    stands behind them. -/
theorem scan_text_append (stored rest : List UInt8) (position : Nat) :
    Scan.text stored.length ⟨stored ++ rest, position⟩ = match decode? stored with
      | some text => .ok text ⟨rest, position + stored.length⟩
      | none => .error (.invalidText position) ⟨rest, position + stored.length⟩ := by
  have henough : stored.length ≤ (⟨stored ++ rest, position⟩ : Cursor).remaining := by
    simp [Cursor.remaining]
  have htake : (stored ++ rest).take stored.length = stored := List.take_left
  have hmoved : (⟨stored ++ rest, position⟩ : Cursor).advance stored.length =
      ⟨rest, position + stored.length⟩ := by
    simp [Cursor.advance]
  rw [← hmoved]
  cases htext : decode? stored with
  | none => exact Read.scan_eq_iff.mpr (.noText henough (htake.symm ▸ htext))
  | some text =>
    have hstored : Read.Stores (.text stored.length) ((stored ++ rest).take stored.length) text :=
      htake.symm ▸ htext
    exact Read.scan_eq_iff.mpr (.value (r := .text stored.length) henough hstored)

/-- Reading a text is exact: it accepts the two forms of a text, and nothing else. -/
structure ReadsForms : Prop where
  /-- A text is read off bytes that are one of its forms. -/
  reads : ∀ stored rest position text d,
    Scan.text stored.length ⟨stored ++ rest, position⟩ = .ok text d ↔
      (IsStandard stored text ∨ IsModified stored text) ∧ d = ⟨rest, position + stored.length⟩
  /-- Bytes that are no form of any text are rejected. -/
  rejects : ∀ stored rest position e d,
    Scan.text stored.length ⟨stored ++ rest, position⟩ = .error e d ↔
      (∀ text, ¬ IsStandard stored text ∧ ¬ IsModified stored text) ∧
        e = .invalidText position ∧ d = ⟨rest, position + stored.length⟩
  /-- Every text is recovered from its modified form. -/
  recovers : ∀ (text : String) rest position, ∃ stored, IsModified stored text ∧
    Scan.text stored.length ⟨stored ++ rest, position⟩ =
      .ok text ⟨rest, position + stored.length⟩
  /-- Bytes that are the standard form of one text and the modified form of another are forms of the
      same text. -/
  agrees : ∀ stored text other, IsStandard stored text → IsModified stored other → text = other
  /-- Bytes that have what only the standard form has and what only the modified form has are
      rejected. -/
  unmixed : ∀ stored rest position, HasStandardOnly stored → HasModifiedOnly stored →
    Scan.text stored.length ⟨stored ++ rest, position⟩ =
      .error (.invalidText position) ⟨rest, position + stored.length⟩

/-- Bytes decode to nothing if they are neither form of any text. -/
theorem decode?_eq_none_iff {stored : List UInt8} :
    decode? stored = none ↔ ∀ text, ¬ IsStandard stored text ∧ ¬ IsModified stored text := by
  simp only [Option.eq_none_iff_forall_ne_some, ne_eq, decode?_eq_some_iff, not_or]

/-- **A text is read exactly off its two forms.** -/
theorem readsForms_text : ReadsForms where
  reads := by
    -- a text is read if its bytes are one of its forms
    intro stored rest position text d
    rw [scan_text_append, ← decode?_eq_some_iff]
    cases decode? stored <;> simp [eq_comm]
  rejects := by
    intro stored rest position e d
    rw [scan_text_append, ← decode?_eq_none_iff]
    cases decode? stored <;> simp [eq_comm]
  recovers := by
    intro text rest position
    refine ⟨_, rfl, ?_⟩
    rw [scan_text_append, decode?_eq_some_iff.mpr (Or.inr rfl)]
  agrees := by
    -- bytes that are both forms are forms of one text
    intro stored text other hstandard hmodified
    have htext := decode?_eq_some_iff.mpr (Or.inl hstandard)
    rw [decode?_eq_some_iff.mpr (Or.inr hmodified)] at htext
    exact (Option.some.inj htext).symm
  unmixed := by
    intro stored rest position hstandardOnly hmodifiedOnly
    have hnone : decode? stored = none := by
      rw [decode?_eq_none_iff]
      intro text
      constructor
      · intro hstandard
        exact not_hasModifiedOnly hstandard hmodifiedOnly
      · intro hmodified
        exact not_hasStandardOnly hmodified hstandardOnly
    rw [scan_text_append, hnone]

/-- The theorem at U+1F600: its six modified bytes are read, its four standard bytes are read, and
    the one form behind the other, with a U+0000 of two bytes, is rejected. -/
theorem readsForms_text_grin :
    Scan.text 6 (.start [0xED, 0xA0, 0xBD, 0xED, 0xB8, 0x80]) = .ok "😀" ⟨[], 6⟩ ∧
    Scan.text 4 (.start [0xF0, 0x9F, 0x98, 0x80]) = .ok "😀" ⟨[], 4⟩ ∧
    Scan.text 6 (.start [0xF0, 0x9F, 0x98, 0x80, 0xC0, 0x80]) = .error (.invalidText 0) ⟨[], 6⟩ := by
  have h := readsForms_text
  refine ⟨?_, ?_, ?_⟩
  · exact (h.reads [0xED, 0xA0, 0xBD, 0xED, 0xB8, 0x80] [] 0 "😀" _).mpr ⟨Or.inr (by decide), rfl⟩
  · exact (h.reads [0xF0, 0x9F, 0x98, 0x80] [] 0 "😀" _).mpr ⟨Or.inl (by decide), rfl⟩
  · exact h.unmixed [0xF0, 0x9F, 0x98, 0x80, 0xC0, 0x80] [] 0
      ⟨'😀', fun hplain => absurd hplain.2 (by decide), [], [0xC0, 0x80], rfl⟩
      ⟨Char.ofNat 0, fun hplain => absurd hplain.1 (by decide), [0xF0, 0x9F, 0x98, 0x80], [], rfl⟩

end JavaClass.Text
