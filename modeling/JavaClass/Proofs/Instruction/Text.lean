/-
  The text of a code array tells its instructions.

  Instructions are written one to a line, and nothing that the decoder has found out about a code
  array is lost that way.  The text of an instruction is taken apart from the left: the offset ends
  at the colon, and the mnemonic at the blank behind it (`text_inj`).  The mnemonic tells the op
  code, and the op code what operands there are, so only texts of operands of one kind have to be
  compared (`Operands.Alike`); the same digits may well stand for a number, a local variable and a
  place in the code.

  What the text does not tell are the bytes of no meaning, which the decoder passes over.
  `Layout.IsFiller` says where they are, and `AgreeBut` that two byte strings differ nowhere else
  (`decode_text_inj`).
-/
import JavaClass.Proofs.Instruction.Encoding
import JavaClass.Proofs.Text.Tokens

namespace JavaClass

open Scan Text

/-! ## Mnemonics

  A mnemonic tells its op code, since no two rows of the table have the same one. -/

namespace OpCode

/-- Every op code has its row in the table. -/
theorem row_mem (op : OpCode) : op.row ∈ instructionSet.toList :=
  Array.mem_toList_iff.mpr (Array.getElem_mem _)

/-- No mnemonic has a blank in it. -/
theorem lacks_blank_of_mem : ∀ row ∈ instructionSet.toList, Lacks row.1 ' ' := by
  show ∀ row ∈ instructionSet.toList, ' ' ∉ row.1.toList
  decide +kernel

/-- A mnemonic is a single word. -/
theorem lacks_blank (op : OpCode) : Lacks op.mnemonic ' ' := lacks_blank_of_mem op.row op.row_mem

/-- A mnemonic as a number, with its bytes as digits; numbers are quicker to compare than texts. -/
def nameNumber (row : String × Layout) : Nat := BigEndian.value row.1.toUTF8.data.toList

/-- No two mnemonics are read as the same number. -/
theorem nodup_nameNumbers : (instructionSet.toList.map nameNumber).Nodup := by decide +kernel

/-- No two op codes share a mnemonic. -/
theorem mnemonic_inj {op op' : OpCode} (h : op.mnemonic = op'.mnemonic) : op = op' := by
  have hrow : ∀ op : OpCode, (instructionSet.toList.map nameNumber)[op.byte.toNat]? =
      some (BigEndian.value op.mnemonic.toUTF8.data.toList) := by
    intro op
    have hlt : op.byte.toNat < instructionSet.size := size_instructionSet ▸ op.assigned
    rw [List.getElem?_map, Array.getElem?_toList, Array.getElem?_eq_getElem hlt]
    rfl
  have hlt : op.byte.toNat < (instructionSet.toList.map nameNumber).length :=
    (List.getElem?_eq_some_iff.mp (hrow op)).1
  have hbyte : op.byte.toNat = op'.byte.toNat :=
    (List.getElem?_inj hlt nodup_nameNumbers).mp (by rw [hrow, hrow, h])
  obtain ⟨byte, _⟩ := op
  obtain ⟨byte', _⟩ := op'
  cases UInt8.toNat_inj.mp hbyte
  rfl

end OpCode

/-! ## Types of elements

  The type of the elements of a new array is shown by its name if it has one, and by its code if
  it has none.  No name is a number, so the two cannot be taken for each other. -/

/-- The codes of primitive types with their names. -/
def elementTypes : List (UInt8 × String) :=
  [(4, "boolean"), (5, "char"), (6, "float"), (7, "double"),
   (8, "byte"), (9, "short"), (10, "int"), (11, "long")]

/-- A name of an element type is listed beside its code. -/
theorem mem_elementTypes {code : UInt8} {name : String} (h : elementTypeName? code = some name) :
    (code, name) ∈ elementTypes := by
  obtain ⟨before, behind, hsplit, -⟩ := List.lookup_eq_some_iff.mp h
  rw [elementTypes, hsplit]
  exact List.mem_append_right _ List.mem_cons_self

/-- A name has neither digits nor commas. -/
theorem elementTypeName_lacks {code : UInt8} {name : String} (h : elementTypeName? code = some name)
    {c : Char} (hc : c ∈ name.toList) : c.isDigit = false ∧ c ≠ ',' := by
  have hrows : elementTypes.all
      (fun row => row.2.toList.all fun c => !c.isDigit && c != ',') = true := by decide
  have hname := List.all_eq_true.mp (List.all_eq_true.mp hrows _ (mem_elementTypes h)) c hc
  simpa using hname

/-- The text of a code: the name of the type, or the code itself if it stands for none. -/
theorem elementType_inj {a b : UInt8} (h : (elementTypeName? a).getD (toString a) =
    (elementTypeName? b).getD (toString b)) : a = b := by
  -- a name starts with a letter, a number with a digit
  have hnumber : ∀ {code code' : UInt8} {name : String}, elementTypeName? code = some name →
      name ≠ toString code' := by
    rintro code code' _ hname rfl
    obtain ⟨d, hd, hdigit⟩ := exists_digit code'.toNat
    exact absurd hdigit (by rw [(elementTypeName_lacks hname hd).1]; decide)
  cases ha : elementTypeName? a with
  | none =>
    cases hb : elementTypeName? b with
    | none =>
      rw [ha, hb] at h
      exact UInt8.toNat_inj.mp (nat_inj h)
    | some name =>
      rw [ha, hb] at h
      exact absurd h.symm (hnumber hb)
  | some name =>
    cases hb : elementTypeName? b with
    | none =>
      rw [ha, hb] at h
      exact absurd h (hnumber ha)
    | some name' =>
      rw [ha, hb] at h
      -- the names are all different
      have hnodup : (elementTypes.map (·.2)).Nodup := by decide
      have hrow := List.inj_on_of_nodup_map hnodup (mem_elementTypes ha) (mem_elementTypes hb) h
      exact congrArg Prod.fst hrow

/-! ## Operands

  The text of an operand does not tell its kind: a number, a local variable and an index are
  written with the same digits.  The kind is known from the op code, and operands of one kind are
  told apart by their texts. -/

/-- Operands of the same kind. -/
inductive Operand.Alike : Operand → Operand → Prop
  | immediate {m n : Int32} : Alike (.immediate m) (.immediate n)
  | constant {m n : UInt16} : Alike (.constant m) (.constant n)
  | localSlot {m n : UInt16} : Alike (.localSlot m) (.localSlot n)
  | branch {m n : Int32} : Alike (.branch m) (.branch n)
  | elementType {m n : UInt8} : Alike (.elementType m) (.elementType n)

/-- As many operands, each of the same kind. -/
inductive Operands.Alike : Operands → Operands → Prop
  | none : Alike .none .none
  | one {a b : Operand} (first : a.Alike b) : Alike (.one a) (.one b)
  | two {a b a' b' : Operand} (first : a.Alike b) (second : a'.Alike b') :
    Alike (.two a a') (.two b b')
  | switch {s t : SwitchTable} : Alike (.switch s) (.switch t)
  | wide {op op' : OpCode} {m n : UInt16} {k l : Option Int16} :
    Alike (.wide op m k) (.wide op' n l)

namespace Instruction

/-- The layout says what operands there are. -/
theorem alike_of_operandBytes {start start' : Nat} {layout : Layout} {x y : Operands}
    {u v : List UInt8} (hx : OperandBytes start layout x u)
    (hy : OperandBytes start' layout y v) : x.Alike y := by
  cases hx with
  | nothing => cases hy; exact .none
  | signedByte => cases hy; exact .one .immediate
  | signedShort => cases hy; exact .one .immediate
  | constantByte => cases hy; exact .one .constant
  | constant => cases hy; exact .one .constant
  | localSlot => cases hy; exact .one .localSlot
  | branch => cases hy; exact .one .branch
  | branchWide => cases hy; exact .one .branch
  | elementType => cases hy; exact .one .elementType
  | increment => cases hy; exact .two .localSlot .immediate
  | interfaceCall => cases hy; exact .two .constant .immediate
  | dynamicCall => cases hy; exact .one .constant
  | multiArray => cases hy; exact .two .constant .immediate
  | tableSwitch => cases hy; exact .switch
  | lookupSwitch => cases hy; exact .switch
  | wideIncrement => cases hy <;> exact .wide
  | wideLocal => cases hy <;> exact .wide

variable {i j : Instruction}

/-- Where a jump leads to tells the jump, if it is known where it starts. -/
theorem absolute_inj (hoffset : i.offset = j.offset) {m n : Int32}
    (h : i.absolute m = j.absolute n) : m = n := by
  rw [absolute, absolute, hoffset] at h
  exact Int32.toInt_inj.mp (Int.add_left_cancel h)

/-- No operand has a comma in its text. -/
theorem lacks_comma_operandText (i : Instruction) (a : Operand) :
    Lacks (i.operandText a) ',' := by
  cases a with
  | immediate n => exact lacks_int rfl (by decide) _
  | constant n => exact lacks_append.mpr ⟨by decide, lacks_nat rfl _⟩
  | localSlot n => exact lacks_nat rfl _
  | branch n => exact lacks_int rfl (by decide) _
  | elementType code =>
    cases hname : elementTypeName? code with
    | none =>
      simp only [operandText, hname]
      exact lacks_nat rfl _
    | some name =>
      simp only [operandText, hname]
      exact fun hmem => (elementTypeName_lacks hname hmem).2 rfl

/-- At one offset, an operand of a known kind is determined by its text. -/
theorem operandText_inj (hoffset : i.offset = j.offset) {a b : Operand} (hkind : a.Alike b)
    (h : i.operandText a = j.operandText b) : a = b := by
  cases hkind with
  | immediate => exact congrArg _ (Int32.toInt_inj.mp (int_inj h))
  | constant =>
    exact congrArg _ (UInt16.toNat_inj.mp (nat_inj ((String.append_right_inj "#").mp h)))
  | localSlot => exact congrArg _ (UInt16.toNat_inj.mp (nat_inj h))
  | branch => exact congrArg _ (absolute_inj hoffset (int_inj h))
  | elementType => exact congrArg _ (elementType_inj h)

/-! ## Switch tables

  The entries of a table are parted by commas, and in each of them the key is parted from the
  target by a colon.  Targets are shown as they are, not relative to the switch, so the offset has
  to be the same for the text to tell them. -/

/-- A case of a switch: its key, and where it leads to. -/
def caseText (i : Instruction) (key : String) (delta : Int32) : String :=
  key ++ (": " ++ toString (i.absolute delta))

/-- The entries of a switch table, the default last. -/
def entryTexts (i : Instruction) (table : SwitchTable) : List String :=
  table.targets.map (fun t => i.caseText (toString t.1.toInt) t.2) ++
    [i.caseText "default" table.default]

/-- The text of a switch is that of its entries with commas between them. -/
theorem switchText_eq (i : Instruction) (table : SwitchTable) :
    i.switchText table = ", ".intercalate (i.entryTexts table) := by
  simp only [switchText, entryTexts, caseText, ← String.append_assoc]
  rfl

theorem lacks_comma_caseText {key : String} (hkey : Lacks key ',') (i : Instruction)
    (delta : Int32) : Lacks (i.caseText key delta) ',' :=
  lacks_append.mpr ⟨hkey, lacks_append.mpr ⟨by decide, lacks_int rfl (by decide) _⟩⟩

/-- No entry has a comma in it. -/
theorem lacks_comma_of_mem_entryTexts {table : SwitchTable} {entry : String}
    (h : entry ∈ i.entryTexts table) : Lacks entry ',' := by
  rcases List.mem_append.mp h with hcase | hdefault
  · obtain ⟨target, -, rfl⟩ := List.mem_map.mp hcase
    exact lacks_comma_caseText (lacks_int rfl (by decide) _) i _
  · obtain rfl := List.mem_singleton.mp hdefault
    exact lacks_comma_caseText (by decide) i _

/-- A key ends at the colon. -/
theorem caseText_inj {key key' : String} {m n : Int32} (hkey : Lacks key ':')
    (hkey' : Lacks key' ':') (h : i.caseText key m = i.caseText key' n) : key = key' ∧ m = n := by
  obtain ⟨rfl, hrest⟩ := token_inj hkey hkey' (parted_append rfl) (parted_append rfl) h
  exact ⟨rfl, absolute_inj rfl (int_inj ((String.append_right_inj ": ").mp hrest))⟩

/-- The entries depend on the offset alone, apart from the table. -/
theorem entryTexts_congr (hoffset : i.offset = j.offset) : i.entryTexts = j.entryTexts := by
  have hcase : i.caseText = j.caseText := by
    funext key delta
    rw [caseText, caseText, absolute, absolute, hoffset]
  funext table
  rw [entryTexts, entryTexts, hcase]

/-- A table is determined by its entries, of which the last is the default. -/
theorem entryTexts_inj {s t : SwitchTable} (h : i.entryTexts s = i.entryTexts t) : s = t := by
  have hcase : ∀ x y : Int32 × Int32, i.caseText (toString x.1.toInt) x.2 =
      i.caseText (toString y.1.toInt) y.2 → x = y := by
    intro x y hxy
    obtain ⟨hkey, htarget⟩ := caseText_inj (lacks_int rfl (by decide) _)
      (lacks_int rfl (by decide) _) hxy
    exact Prod.ext (Int32.toInt_inj.mp (int_inj hkey)) htarget
  obtain ⟨htargets, hdefault⟩ := List.append_singleton_inj.mp h
  obtain ⟨default, targets⟩ := s
  obtain ⟨default', targets'⟩ := t
  obtain rfl : targets = targets' := (List.map_inj_right hcase).mp htargets
  obtain ⟨-, rfl⟩ := caseText_inj (by decide) (by decide) hdefault
  rfl

/-- At one offset, a table is determined by its text. -/
theorem switchText_inj (hoffset : i.offset = j.offset) {s t : SwitchTable}
    (h : i.switchText s = j.switchText t) : s = t := by
  rw [switchText_eq, switchText_eq, ← entryTexts_congr hoffset] at h
  have hentries := intercalate_inj (fun _ => lacks_comma_of_mem_entryTexts)
    (fun _ => lacks_comma_of_mem_entryTexts) (List.concat_ne_nil _ _) (List.concat_ne_nil _ _) h
  exact entryTexts_inj hentries

/-! ## Instructions

  Operands have different numbers of parts, but none of them has a part that could be read as
  two. -/

/-- The text of what is added to a widened local variable, with the comma in front. -/
def addedText : Option Int16 → String
  | some increment => ", " ++ toString increment.toInt
  | none => ""

theorem parted_addedText (increment : Option Int16) : Parted ',' (addedText increment) := by
  cases increment with
  | none => exact parted_empty
  | some increment => exact parted_append rfl

/-- An increment is determined by what is added to the text for it, and so is its absence. -/
theorem addedText_inj {k l : Option Int16} (h : addedText k = addedText l) : k = l := by
  have hsome : ∀ l, addedText none ≠ addedText (some l) := by
    intro l hl
    exact absurd (String.append_eq_empty_iff.mp hl.symm).1 (by decide)
  cases k with
  | none =>
    cases l with
    | none => rfl
    | some l => exact absurd h (hsome l)
  | some k =>
    cases l with
    | none => exact absurd h.symm (hsome k)
    | some l =>
      exact congrArg some (Int16.toInt_inj.mp (int_inj ((String.append_right_inj ", ").mp h)))

/-- The text of widened operands: the op code, the slot, and the increment if there is one. -/
theorem operandsText_wide {op : OpCode} {slot : UInt16} {increment : Option Int16}
    (h : i.operands = .wide op slot increment) : i.operandsText =
      " " ++ (op.mnemonic ++ (" " ++ (toString slot ++ addedText increment))) := by
  rw [operandsText, h]
  simp only [← String.append_assoc]
  cases increment with
  | none => rfl
  | some increment => rfl

/-- Widened operands are determined by their text. -/
theorem operandsText_wide_inj {op op' : OpCode} {m n : UInt16} {k l : Option Int16}
    (hi : i.operands = .wide op m k) (hj : j.operands = .wide op' n l)
    (h : i.operandsText = j.operandsText) : i.operands = j.operands := by
  rw [operandsText_wide hi, operandsText_wide hj] at h
  obtain ⟨hop, hrest⟩ := token_inj op.lacks_blank op'.lacks_blank (parted_append rfl)
    (parted_append rfl) ((String.append_right_inj " ").mp h)
  obtain ⟨hslot, hadded⟩ := token_inj (lacks_nat rfl m.toNat) (lacks_nat rfl n.toNat)
    (parted_addedText k) (parted_addedText l) ((String.append_right_inj " ").mp hrest)
  obtain rfl := OpCode.mnemonic_inj hop
  obtain rfl := UInt16.toNat_inj.mp (nat_inj hslot)
  obtain rfl := addedText_inj hadded
  rw [hi, hj]

/-- The texts of operands of one kind tell the operands. -/
theorem operandsText_inj (hoffset : i.offset = j.offset) (hkind : i.operands.Alike j.operands)
    (h : i.operandsText = j.operandsText) : i.operands = j.operands := by
  generalize hx : i.operands = x at hkind
  generalize hy : j.operands = y at hkind
  rw [← hx, ← hy]
  cases hkind with
  | none => rw [hx, hy]
  -- nothing else stands behind the mnemonic
  | one first =>
    rw [operandsText, operandsText, hx, hy] at h
    rw [hx, hy, operandText_inj hoffset first ((String.append_right_inj " ").mp h)]
  -- the comma ends the first of the two
  | @two a b a' b' first second =>
    rw [operandsText, operandsText, hx, hy] at h
    simp only [String.append_assoc] at h
    obtain ⟨hfirst, hrest⟩ := token_inj (lacks_comma_operandText i a) (lacks_comma_operandText j b)
      (parted_append rfl) (parted_append rfl) ((String.append_right_inj " ").mp h)
    have hsecond := (String.append_right_inj ", ").mp hrest
    rw [hx, hy, operandText_inj hoffset first hfirst, operandText_inj hoffset second hsecond]
  -- the table stands between the braces
  | switch =>
    rw [operandsText, operandsText, hx, hy] at h
    have htext := (String.append_right_inj " \x7b ").mp ((String.append_left_inj " \x7d").mp h)
    rw [hx, hy, switchText_inj hoffset htext]
  | wide => exact operandsText_wide_inj hx hy h

/-- The operands are parted from the mnemonic by a blank. -/
theorem parted_operandsText (i : Instruction) : Parted ' ' i.operandsText := by
  cases hx : i.operands with
  | none =>
    rw [operandsText, hx]
    exact parted_empty
  | one operand =>
    rw [operandsText, hx]
    exact parted_append rfl
  | two first second =>
    rw [operandsText, hx]
    simp only [String.append_assoc]
    exact parted_append rfl
  | switch table =>
    rw [operandsText, hx]
    simp only [String.append_assoc]
    exact parted_append rfl
  | wide op slot increment =>
    rw [operandsText_wide hx]
    exact parted_append rfl

/-- The text of an instruction tells its offset, its op code, and the text of its operands. -/
theorem text_inj (h : i.text = j.text) :
    i.offset = j.offset ∧ i.op = j.op ∧ i.operandsText = j.operandsText := by
  have htext : ∀ i : Instruction,
      i.text = toString i.offset ++ (": " ++ (i.op.mnemonic ++ i.operandsText)) := by
    intro i
    simp only [← String.append_assoc]
    rfl
  rw [htext, htext] at h
  obtain ⟨hoffset, hrest⟩ := token_inj (lacks_nat rfl i.offset.toNat)
    (lacks_nat rfl j.offset.toNat) (parted_append rfl) (parted_append rfl) h
  obtain ⟨hop, hoperands⟩ := token_inj i.op.lacks_blank j.op.lacks_blank i.parted_operandsText
    j.parted_operandsText ((String.append_right_inj ": ").mp hrest)
  exact ⟨UInt16.toNat_inj.mp (nat_inj hoffset), OpCode.mnemonic_inj hop, hoperands⟩

end Instruction

/-! ## Bytes of no meaning

  The layout says which bytes behind an op code are skipped.  Two instructions that are the same
  are stored alike everywhere else. -/

/-- Two byte strings of one length that differ at no other places than those given. -/
structure AgreeBut (free : Nat → Prop) (u v : List UInt8) : Prop where
  length_eq : u.length = v.length
  differ : ∀ n, u[n]? ≠ v[n]? → free n

namespace AgreeBut

variable {free : Nat → Prop} {u v u' v' : List UInt8}

theorem refl (free : Nat → Prop) (u : List UInt8) : AgreeBut free u u :=
  ⟨rfl, fun _ h => absurd rfl h⟩

/-- More bytes may be left open. -/
theorem mono {free' : Nat → Prop} (h : AgreeBut free u v)
    (hfree : ∀ n < u.length, free n → free' n) : AgreeBut free' u v := by
  refine ⟨h.length_eq, fun n hn => hfree n ?_ (h.differ n hn)⟩
  refine Nat.lt_of_not_le fun hle => hn ?_
  rw [List.getElem?_eq_none hle, List.getElem?_eq_none (h.length_eq ▸ hle)]

/-- Byte strings of one length may differ anywhere in it. -/
theorem of_length_eq (h : u.length = v.length) (hfree : ∀ n < u.length, free n) :
    AgreeBut free u v := by
  have hany : AgreeBut (fun _ => True) u v := ⟨h, fun _ _ => trivial⟩
  exact hany.mono fun n hn _ => hfree n hn

/-- Byte strings that agree piece by piece agree as a whole. -/
theorem append (h : AgreeBut free u v) (h' : AgreeBut (fun n => free (u.length + n)) u' v') :
    AgreeBut free (u ++ u') (v ++ v') := by
  refine ⟨by rw [List.length_append, List.length_append, h.length_eq, h'.length_eq], fun n hn => ?_⟩
  rcases Nat.lt_or_ge n u.length with hlt | hge
  · rw [List.getElem?_append_left hlt, List.getElem?_append_left (h.length_eq ▸ hlt)] at hn
    exact h.differ n hn
  · rw [List.getElem?_append_right hge, List.getElem?_append_right (h.length_eq ▸ hge),
      ← h.length_eq] at hn
    have hfree := h'.differ _ hn
    rwa [Nat.add_sub_cancel' hge] at hfree

end AgreeBut

/-- `layout.IsFiller start k`: in an instruction of this layout that stands at the offset `start`,
    the byte `k` places behind the op code is reserved, or pads a switch. -/
def Layout.IsFiller (start k : Nat) : Layout → Prop
  | .interfaceCall => k = 4
  | .dynamicCall => k = 3 ∨ k = 4
  | .tableSwitch | .lookupSwitch => 1 ≤ k ∧ k ≤ 3 - start % 4
  | _ => False

namespace Instruction

/-- The byte `k` places behind the op code of an instruction has no meaning. -/
def IsFiller (i : Instruction) (k : Nat) : Prop := i.op.layout.IsFiller i.offset.toNat k

/-- Keys that are numbered from one number to another tell both numbers. -/
theorem bounds_inj {low high low' high' : Int} (hle : low ≤ high) (hle' : low' ≤ high')
    (h : (List.range (high - low + 1).toNat).map (fun k : Nat => low + k) =
      (List.range (high' - low' + 1).toNat).map (fun k : Nat => low' + k)) :
    low = low' ∧ high = high' := by
  have hlength := congrArg List.length h
  simp only [List.length_map, List.length_range] at hlength
  have hfirst := congrArg (·[0]?) h
  have hpos : 0 < (high - low + 1).toNat := by omega
  have hpos' : 0 < (high' - low' + 1).toNat := by omega
  simp only [List.getElem?_map, List.getElem?_range hpos, List.getElem?_range hpos',
    Option.map_some, Option.some.injEq] at hfirst
  omega

/-- The padding of a switch has no meaning, and what is behind it is given. -/
theorem agreeBut_padding {start : Nat} {padding padding' : List UInt8}
    (hp : padding.length = 3 - start % 4) (hp' : padding'.length = 3 - start % 4)
    (table : List UInt8) : AgreeBut (fun k => 1 ≤ k + 1 ∧ k + 1 ≤ 3 - start % 4)
      (padding ++ table) (padding' ++ table) := by
  have hpadding : AgreeBut (fun k => 1 ≤ k + 1 ∧ k + 1 ≤ 3 - start % 4) padding padding' :=
    .of_length_eq (hp.trans hp'.symm) fun k hk => by omega
  exact hpadding.append (.refl _ table)

/-- Operands are stored alike, but for the bytes of no meaning. -/
theorem agreeBut_of_operandBytes {start : Nat} {layout : Layout} {operands : Operands}
    {u v : List UInt8} (hu : OperandBytes start layout operands u)
    (hv : OperandBytes start layout operands v) :
    AgreeBut (fun k => layout.IsFiller start (k + 1)) u v := by
  cases hu with
  -- no byte of these is left open
  | nothing => cases hv; exact .refl _ _
  | signedByte => cases hv; exact .refl _ _
  | signedShort => cases hv; exact .refl _ _
  | constantByte => cases hv; exact .refl _ _
  | constant => cases hv; exact .refl _ _
  | localSlot => cases hv; exact .refl _ _
  | branch => cases hv; exact .refl _ _
  | branchWide => cases hv; exact .refl _ _
  | elementType => cases hv; exact .refl _ _
  | increment => cases hv; exact .refl _ _
  | multiArray => cases hv; exact .refl _ _
  | wideIncrement => cases hv; exact .refl _ _
  | wideLocal => cases hv; exact .refl _ _
  -- the last byte has no meaning
  | interfaceCall =>
    cases hv
    refine AgreeBut.append (.refl _ _) (.of_length_eq rfl fun n hn => ?_)
    simp only [List.length_append, BigEndian.length_bytes, List.length_singleton] at hn ⊢
    show 2 + 1 + n + 1 = 4
    omega
  -- the last two bytes have no meaning
  | dynamicCall =>
    cases hv
    refine AgreeBut.append (.refl _ _) (.of_length_eq rfl fun n hn => ?_)
    simp only [BigEndian.length_bytes, List.length_cons, List.length_nil] at hn ⊢
    show 2 + n + 1 = 3 ∨ 2 + n + 1 = 4
    omega
  -- the padding has no meaning, and the bounds follow from the keys
  | @tableSwitch table padding low high hp hle hkeys =>
    cases hv with
    | @tableSwitch _ padding' low' high' hp' hle' hkeys' =>
      obtain ⟨hlow, hhigh⟩ := bounds_inj hle hle' (hkeys.symm.trans hkeys')
      rw [← hlow, ← hhigh]
      simp only [List.append_assoc]
      exact agreeBut_padding hp hp' _
  | lookupSwitch hp count =>
    cases hv with
    | lookupSwitch hp' count' =>
      simp only [List.append_assoc]
      exact agreeBut_padding hp hp' _

section
variable {p q : Nat} {u v : List UInt8}

/-- One instruction is stored alike, but for its bytes of no meaning. -/
theorem agreeBut_of_accepts (hu : scan.Accepts p u i) (hv : scan.Accepts p v i) :
    AgreeBut i.IsFiller u v := by
  obtain ⟨-, hp, -, stored, rfl, hstored⟩ := accepts_scan.mp hu
  obtain ⟨-, -, -, stored', rfl, hstored'⟩ := accepts_scan.mp hv
  have hoperands := agreeBut_of_operandBytes (accepts_scanOperands.mp hstored)
    (accepts_scanOperands.mp hstored')
  rw [← hp] at hoperands
  have hfirst : AgreeBut i.IsFiller [i.op.byte] [i.op.byte] := .refl _ _
  refine hfirst.append (hoperands.mono fun n _ hn => ?_)
  rwa [List.length_singleton, Nat.add_comm]

/-- Instructions with the same text are the same. -/
theorem eq_of_text_eq (hi : scan.Accepts p u i) (hj : scan.Accepts q v j) (h : i.text = j.text) :
    i = j := by
  obtain ⟨hoffset, hop, htext⟩ := text_inj h
  obtain ⟨-, hp, hlength, stored, rfl, hstored⟩ := accepts_scan.mp hi
  obtain ⟨-, hq, hlength', stored', rfl, hstored'⟩ := accepts_scan.mp hj
  -- they stand at the same place
  obtain rfl : p = q := by rw [← hp, ← hq, hoffset]
  rw [hop] at hstored
  have hx := accepts_scanOperands.mp hstored
  have hy := accepts_scanOperands.mp hstored'
  -- so their operands have the same text and are of the same kind
  have hoperands := operandsText_inj hoffset (alike_of_operandBytes hx hy) htext
  rw [hoperands] at hx
  -- and take up as many bytes
  have hstored := (agreeBut_of_operandBytes hx hy).length_eq
  rw [List.length_cons, hstored, ← List.length_cons, ← hlength'] at hlength
  obtain ⟨offset, op, operands, length⟩ := i
  obtain ⟨offset', op', operands', length'⟩ := j
  cases hoffset
  cases hop
  cases hoperands
  cases hlength
  rfl

/-- Lists of instructions with the same texts are the same. -/
theorem eq_of_map_text_eq {is js : List Instruction} (hu : scan.AcceptsAll p u is)
    (hv : scan.AcceptsAll q v js) (h : is.map text = js.map text) : is = js := by
  induction is generalizing p q u v js with
  | nil => exact (List.map_eq_nil_iff.mp h.symm).symm
  | cons i is ih =>
    cases js with
    | nil => nomatch h
    | cons j js =>
      obtain ⟨first, rest, -, hi, hrest⟩ := hu
      obtain ⟨first', rest', -, hj, hrest'⟩ := hv
      obtain ⟨htext, htexts⟩ := List.cons.inj h
      rw [eq_of_text_eq hi hj htext, ih hrest hrest' htexts]

/-- Bytes that are accepted as the same instructions differ in bytes of no meaning only. -/
theorem agreeBut_of_acceptsAll {is : List Instruction} (hu : scan.AcceptsAll p u is)
    (hv : scan.AcceptsAll p v is) : AgreeBut (fun n => ∃ i ∈ is, ∃ k < i.length,
      p + n = i.offset.toNat + k ∧ i.IsFiller k) u v := by
  induction is generalizing p u v with
  | nil =>
    obtain rfl : u = [] := hu
    obtain rfl : v = [] := hv
    exact .refl _ _
  -- the first ones differ in bytes of no meaning, and what follows starts behind as many
  | cons i is ih =>
    obtain ⟨first, rest, rfl, hi, hrest⟩ := hu
    obtain ⟨first', rest', rfl, hi', hrest'⟩ := hv
    obtain ⟨-, hoffset, hlength, -⟩ := accepts_scan.mp hi
    have hfirst := agreeBut_of_accepts hi hi'
    rw [← hfirst.length_eq] at hrest'
    refine AgreeBut.append (hfirst.mono fun n hn hfree => ?_)
      ((ih hrest hrest').mono fun n _ hfree => ?_)
    · exact ⟨i, List.mem_cons_self, n, hlength ▸ hn, by rw [hoffset], hfree⟩
    · obtain ⟨j, hj, k, hk, hplace, hfiller⟩ := hfree
      exact ⟨j, List.mem_cons_of_mem i hj, k, hk, by rw [← hplace, Nat.add_assoc], hfiller⟩

end

/-- **The text of a code array loses nothing.**  Two code arrays whose instructions are written
    alike have the same instructions, with the same offsets, op codes, operands and lengths; so they
    have the same length, and differ at most in the padding of switches and in the reserved bytes of
    calls. -/
theorem decode_text_inj {a b : List UInt8} {cs ds : List Instruction} (ha : decode a = .ok cs)
    (hb : decode b = .ok ds) (h : cs.map text = ds.map text) :
    cs = ds ∧ AgreeBut (fun n => ∃ i ∈ cs, ∃ k < i.length,
      n = i.offset.toNat + k ∧ i.IsFiller k) a b := by
  obtain ⟨-, ha⟩ := decode_eq_ok.mp ha
  obtain ⟨-, hb⟩ := decode_eq_ok.mp hb
  obtain rfl := eq_of_map_text_eq ha hb h
  have hagree := agreeBut_of_acceptsAll ha hb
  simp only [Nat.zero_add] at hagree
  exact ⟨rfl, hagree⟩

/-- The theorem at a switch and a call, stored once with zeros where the bytes have no meaning, and
    once with other bytes there. -/
theorem decode_text_inj_filled :
    (∃ is, decode [0xab, 0, 0, 0, 0, 0, 0, 0x0c, 0, 0, 0, 0, 0xb9, 0, 1, 1, 0] = .ok is ∧
      decode [0xab, 1, 2, 3, 0, 0, 0, 0x0c, 0, 0, 0, 0, 0xb9, 0, 1, 1, 4] = .ok is ∧
      is.map text = ["0: lookupswitch \x7b default: 12 \x7d", "12: invokeinterface #1, 1"] ∧
      AgreeBut (fun n => ∃ i ∈ is, ∃ k < i.length, n = i.offset.toNat + k ∧ i.IsFiller k)
        [0xab, 0, 0, 0, 0, 0, 0, 0x0c, 0, 0, 0, 0, 0xb9, 0, 1, 1, 0]
        [0xab, 1, 2, 3, 0, 0, 0, 0x0c, 0, 0, 0, 0, 0xb9, 0, 1, 1, 4]) := by
  have hzeros : decode [0xab, 0, 0, 0, 0, 0, 0, 0x0c, 0, 0, 0, 0, 0xb9, 0, 1, 1, 0] =
      .ok [⟨0, ⟨0xab, by decide⟩, .switch ⟨12, []⟩, 12⟩,
        ⟨12, ⟨0xb9, by decide⟩, .two (.constant 1) (.immediate 1), 5⟩] := by cbv
  have hothers : decode [0xab, 1, 2, 3, 0, 0, 0, 0x0c, 0, 0, 0, 0, 0xb9, 0, 1, 1, 4] =
      .ok [⟨0, ⟨0xab, by decide⟩, .switch ⟨12, []⟩, 12⟩,
        ⟨12, ⟨0xb9, by decide⟩, .two (.constant 1) (.immediate 1), 5⟩] := by cbv
  exact ⟨_, hzeros, hothers, by decide +kernel, (decode_text_inj hzeros hothers rfl).2⟩

end Instruction

end JavaClass
