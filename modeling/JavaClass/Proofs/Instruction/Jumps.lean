/-
  Where jumps lead to.

  A jump is stored as a signed 32-bit number, relative to an instruction at a 16-bit offset, and the
  place it leads to is the sum of the two.  That sum is worked out twice: once for the text of the
  instruction, where any integer will do, and once for its branch target, which has to be an offset
  again.  Both are sums of 64-bit words if it comes to that, and neither of them can wrap
  (`toInt_wordPlace`, `jumpTarget?_eq_words`).

  In the text, operands and the cases of a switch stand between commas.  None of them contains a
  comma itself, so there is only one way to take the text apart (`Lists.unique`), and what is found
  at the place of a jump is the decimal text of the exact sum.
-/
import JavaClass.Proofs.Instruction.Text

namespace JavaClass

open Text

/-! ## Places as 64-bit words -/

/-- An offset as a signed word of 64 bits. -/
def wordOffset (offset : UInt16) : Int64 := Int64.ofNat offset.toNat

/-- The place that a jump leads to, as a sum of 64-bit words. -/
def wordPlace (offset : UInt16) (delta : Int32) : Int64 := wordOffset offset + delta.toInt64

/-- A sum of 64-bit words, if it does not wrap. -/
def checkedSum? (a b : Int64) : Option Int64 :=
  if (a + b).toInt = a.toInt + b.toInt then some (a + b) else none

/-- An integer as an offset, if it is one. -/
def offsetAt? (place : Int) : Option UInt16 :=
  if 0 ≤ place ∧ place < 65536 then some (UInt16.ofNat place.toNat) else none

section
variable {offset t : UInt16} {delta : Int32}

/-- An offset is a word of 64 bits without a sign. -/
theorem toInt_wordOffset (offset : UInt16) : (wordOffset offset).toInt = offset.toNat := by
  have hlt := offset.toNat_lt
  exact Int64.toInt_ofNat_of_lt (by omega)

/-- The sum of an offset and a jump is far from the bounds of 64-bit words. -/
theorem toInt_wordPlace (offset : UInt16) (delta : Int32) :
    (wordPlace offset delta).toInt = offset.toNat + delta.toInt := by
  have hoffset := offset.toNat_lt
  have hlow := delta.le_toInt
  have hhigh := delta.toInt_lt
  rw [wordPlace, Int64.toInt_add, toInt_wordOffset, Int32.toInt_toInt64]
  refine Int.bmod_eq_of_le ?_ ?_
  · show -((2 : Int) ^ 64 / 2) ≤ _
    omega
  · show _ < ((2 : Int) ^ 64 + 1) / 2
    omega

/-- An integer is made an offset if there is one of its value. -/
theorem offsetAt?_eq_some {place : Int} : offsetAt? place = some t ↔ place = t.toNat := by
  have hlt := t.toNat_lt
  unfold offsetAt?
  split
  · have hvalue : (UInt16.ofNat place.toNat).toNat = place.toNat :=
      UInt16.toNat_ofNat_of_lt' (show place.toNat < 65536 by omega)
    rw [Option.some.injEq, ← UInt16.toNat_inj, hvalue]
    omega
  · refine iff_of_false (fun h => nomatch h) ?_
    omega

/-- A jump has a target if the exact sum is an offset. -/
theorem jumpTarget?_eq_some :
    jumpTarget? offset delta = some t ↔ offset.toNat + delta.toInt = t.toNat := by
  show offsetAt? (offset.toNat + delta.toInt) = some t ↔ _
  exact offsetAt?_eq_some

/-- The check for wrapping never fails; what decides is whether the sum is an offset. -/
theorem jumpTarget?_eq_words (offset : UInt16) (delta : Int32) : jumpTarget? offset delta =
    (checkedSum? (wordOffset offset) delta.toInt64).bind fun place => offsetAt? place.toInt := by
  have hsum : checkedSum? (wordOffset offset) delta.toInt64 = some (wordPlace offset delta) := by
    refine if_pos ?_
    rw [toInt_wordOffset, Int32.toInt_toInt64]
    exact toInt_wordPlace offset delta
  rw [hsum, Option.bind_some, toInt_wordPlace]
  rfl

end

/-! ## Texts with commas

  An entry has no comma in it, so the commas of a text tell its entries apart.  That is why a text
  can be read back at all, and there is only one way to do it. -/

/-- A text lists entries with commas between them, `opening` in front and `closing` behind. -/
structure Lists (text opening closing : String) (entries : List String) : Prop where
  nonempty : entries ≠ []
  apart : ∀ entry ∈ entries, Lacks entry ','
  joined : text = opening ++ ", ".intercalate entries ++ closing

/-- A text can be taken for a list in one way only. -/
theorem Lists.unique {text opening closing : String} {es es' : List String}
    (h : Lists text opening closing es) (h' : Lists text opening closing es') : es = es' := by
  have hjoined := h.joined.symm.trans h'.joined
  rw [String.append_left_inj, String.append_right_inj] at hjoined
  exact intercalate_inj h.apart h'.apart h.nonempty h'.nonempty hjoined

theorem Lists.iff_eq {text opening closing : String} {es es' : List String}
    (h : Lists text opening closing es) : Lists text opening closing es' ↔ es' = es := by
  constructor
  · intro h'
    exact h'.unique h
  · rintro rfl
    exact h

/-- The operands that stand side by side. -/
def Operands.single : Operands → List Operand
  | .one a => [a]
  | .two a b => [a, b]
  | .none | .switch _ | .wide _ _ _ => []

/-- The entries of a switch show its cases: each key of the table, in its order, with the place that
    its jump leads to, and behind them the place for all other keys. -/
structure ShowsCases (offset : UInt16) (table : SwitchTable) (entries : List String) : Prop where
  length_eq : entries.length = table.targets.length + 1
  case : ∀ (k : Nat) (key delta : Int32), table.targets[k]? = some (key, delta) →
    entries[k]? = some (toString key.toInt ++ ": " ++ toString (offset.toNat + delta.toInt))
  default : entries[table.targets.length]? =
    some ("default: " ++ toString (offset.toNat + table.default.toInt))

namespace Instruction

variable {i : Instruction}

/-- What the text of an instruction begins with. -/
def heading (i : Instruction) : String := toString i.offset ++ ": " ++ i.op.mnemonic

theorem text_eq_heading (i : Instruction) : i.text = i.heading ++ i.operandsText := rfl

/-- Behind the mnemonic, the text lists the operands. -/
theorem lists_operands (h : i.operands.single ≠ []) :
    Lists i.text (i.heading ++ " ") "" (i.operands.single.map i.operandText) where
  nonempty := mt List.map_eq_nil_iff.mp h
  apart := by
    intro entry hentry
    obtain ⟨a, -, rfl⟩ := List.mem_map.mp hentry
    exact lacks_comma_operandText i a
  joined := by
    rw [text_eq_heading, operandsText]
    cases hx : i.operands with
    | none | switch | wide => simp only [hx, Operands.single, ne_eq, not_true_eq_false] at h
    | one a =>
      simp only [Operands.single, List.map_cons, List.map_nil, String.intercalate_singleton,
        String.append_empty, String.append_assoc]
    | two a b =>
      simp only [Operands.single, List.map_cons, List.map_nil, String.intercalate_cons_cons,
        String.intercalate_singleton, String.append_empty, String.append_assoc]

/-- Between its braces, the text of a switch lists the entries. -/
theorem lists_switch {table : SwitchTable} (h : i.operands = .switch table) :
    Lists i.text (i.heading ++ " \x7b ") " \x7d" (i.entryTexts table) where
  nonempty := List.concat_ne_nil _ _
  apart _ := lacks_comma_of_mem_entryTexts
  joined := by
    rw [text_eq_heading, operandsText, h]
    simp only [switchText_eq, String.append_assoc]

/-- The entries show the cases of the table in their order, and then the default. -/
theorem showsCases_entryTexts (i : Instruction) (table : SwitchTable) :
    ShowsCases i.offset table (i.entryTexts table) where
  length_eq := by simp only [entryTexts, List.length_append, List.length_map, List.length_singleton]
  case := by
    intro k key delta hk
    -- the default stands behind the cases, so number `k` is a case
    have hlt : k < (table.targets.map fun t => i.caseText (toString t.1.toInt) t.2).length := by
      rw [List.length_map]
      exact (List.getElem?_eq_some_iff.mp hk).1
    rw [entryTexts, List.getElem?_append_left hlt, List.getElem?_map, hk]
    exact congrArg some String.append_assoc.symm
  default := by
    have hlast := List.getElem?_concat_length
      (l := table.targets.map fun t => i.caseText (toString t.1.toInt) t.2)
      (a := i.caseText "default" table.default)
    rw [List.length_map] at hlast
    exact hlast

/-! ## Branch targets

  A branch target is an offset, and the sum of offset and jump is any whole number.  So there may
  be a jump without a target, and then the text still says where it would lead. -/

/-- An instruction has a target if it is a jump whose exact sum is an offset. -/
theorem branchTarget?_eq_some {t : UInt16} : i.branchTarget? = some t ↔
    ∃ delta, i.operands = .one (.branch delta) ∧ i.offset.toNat + delta.toInt = t.toNat := by
  unfold branchTarget?
  -- a single branch, or anything else, which has no target
  split
  · rename_i delta hx
    rw [jumpTarget?_eq_some]
    constructor
    · intro h
      exact ⟨delta, hx, h⟩
    · rintro ⟨delta', hx', h⟩
      cases hx.symm.trans hx'
      exact h
  · rename_i hother
    refine iff_of_false (fun h => nomatch h) ?_
    rintro ⟨delta, hx, -⟩
    exact hother delta hx

/-- There is a branch target exactly if there is a single branch, and it leads to an offset. -/
theorem isSome_branchTarget? : i.branchTarget?.isSome = true ↔
    ∃ delta, i.operands = .one (.branch delta) ∧
      0 ≤ i.offset.toNat + delta.toInt ∧ i.offset.toNat + delta.toInt ≤ 65535 := by
  rw [Option.isSome_iff_exists]
  simp only [branchTarget?_eq_some]
  constructor
  · rintro ⟨t, delta, hx, hplace⟩
    have hlt := t.toNat_lt
    exact ⟨delta, hx, by omega, by omega⟩
  · rintro ⟨delta, hx, hlow, hhigh⟩
    have htarget : offsetAt? (i.offset.toNat + delta.toInt) = some _ := if_pos ⟨hlow, by omega⟩
    exact ⟨_, delta, hx, offsetAt?_eq_some.mp htarget⟩

/-- A branch target is what the text of the instruction ends with. -/
theorem text_of_branchTarget? {t : UInt16} (h : i.branchTarget? = some t) :
    i.text = i.heading ++ " " ++ toString t.toNat := by
  obtain ⟨delta, hx, hplace⟩ := branchTarget?_eq_some.mp h
  have hdecimal : toString (i.absolute delta) = toString t.toNat := by
    rw [absolute, hplace]
    rfl
  rw [text_eq_heading, operandsText, hx]
  simp only [operandText, hdecimal, String.append_assoc]

/-! ## The text and the branch target -/

/-- The jumps of an instruction lead where its text says, and so does its branch target. -/
structure JumpsExactly (i : Instruction) : Prop where
  /-- The places can be worked out in 64-bit words. -/
  words : ∀ delta : Int32, (wordPlace i.offset delta).toInt = i.offset.toNat + delta.toInt
  /-- So can the offsets that they are, with a check that no word wraps. -/
  checked : ∀ delta : Int32, jumpTarget? i.offset delta =
    (checkedSum? (wordOffset i.offset) delta.toInt64).bind fun place => offsetAt? place.toInt
  /-- Operands are read off the text in one way only, and where there is a branch, the place that
      it leads to is read. -/
  operand : i.operands.single ≠ [] → ∃ texts,
    (∀ texts', Lists i.text (i.heading ++ " ") "" texts' ↔ texts' = texts) ∧
      texts.length = i.operands.single.length ∧
      ∀ (k : Nat) (delta : Int32), i.operands.single[k]? = some (.branch delta) →
        texts[k]? = some (toString (i.offset.toNat + delta.toInt))
  /-- So are the cases of a switch. -/
  switch : ∀ table, i.operands = .switch table → ∃ entries,
    (∀ entries', Lists i.text (i.heading ++ " \x7b ") " \x7d" entries' ↔ entries' = entries) ∧
      ShowsCases i.offset table entries
  /-- The branch target is the place that the only operand leads to. -/
  target : ∀ t : UInt16, i.branchTarget? = some t ↔
    ∃ delta, i.operands = .one (.branch delta) ∧ i.offset.toNat + delta.toInt = t.toNat
  /-- It is there exactly if that place is an offset. -/
  present : i.branchTarget?.isSome = true ↔ ∃ delta, i.operands = .one (.branch delta) ∧
    0 ≤ i.offset.toNat + delta.toInt ∧ i.offset.toNat + delta.toInt ≤ 65535
  /-- Where there is one, the text ends with it. -/
  agree : ∀ t : UInt16, i.branchTarget? = some t →
    i.text = i.heading ++ " " ++ toString t.toNat

/-- **Jumps are exact.**  The text of an instruction shows for each of its jumps the decimal text of
    the sum of offset and jump, inside the code array or not, and the cases of a switch in the order
    of its table with the default behind them.  The branch target is the same sum, and is missing
    exactly if there is no single branch or the sum is not an offset. -/
theorem jumpsExactly (i : Instruction) : i.JumpsExactly where
  words := toInt_wordPlace i.offset
  checked := jumpTarget?_eq_words i.offset
  operand := by
    intro hne
    refine ⟨i.operands.single.map i.operandText, fun _ => (lists_operands hne).iff_eq,
      List.length_map .., ?_⟩
    intro k delta hk
    rw [List.getElem?_map, hk]
    rfl
  switch table hx :=
    ⟨i.entryTexts table, fun _ => (lists_switch hx).iff_eq, showsCases_entryTexts i table⟩
  target _ := branchTarget?_eq_some
  present := isSome_branchTarget?
  agree _ := text_of_branchTarget?

/-- A switch whose cases lead in front of the code array and far behind it. -/
def farSwitch : Instruction :=
  ⟨1, ⟨0xab, by decide⟩, .switch ⟨-2147483648, [(5, -2), (-1, 2147483647)]⟩, 28⟩

/-- The theorem at this switch, at a jump back to offset 4, and at the longest jump of all from the
    last offset of all. -/
theorem jumpsExactly_far :
    (∃ entries, Lists farSwitch.text "1: lookupswitch \x7b " " \x7d" entries ∧
      entries[0]? = some "5: -1" ∧ entries[1]? = some "-1: 2147483648" ∧
      entries[2]? = some "default: -2147483647") ∧
    Instruction.text ⟨16, ⟨0xa7, by decide⟩, .one (.branch (-12)), 3⟩ = "16: goto 4" ∧
    Instruction.branchTarget? ⟨65535, ⟨0xc8, by decide⟩, .one (.branch 2147483647), 5⟩ = none := by
  refine ⟨?_, ?_, ?_⟩
  · have hheading : farSwitch.heading ++ " \x7b " = "1: lookupswitch \x7b " := by decide +kernel
    obtain ⟨entries, hlists, hcases⟩ := (jumpsExactly farSwitch).switch _ rfl
    rw [← hheading]
    exact ⟨entries, (hlists entries).mpr rfl, hcases.case 0 5 (-2) rfl,
      hcases.case 1 (-1) 2147483647 rfl, hcases.default⟩
  · rw [(jumpsExactly _).agree 4 rfl]
    decide +kernel
  · rw [← Option.not_isSome_iff_eq_none, (jumpsExactly _).present]
    rintro ⟨delta, hx, -, hhigh⟩
    cases hx
    exact absurd hhigh (by decide)

end Instruction

end JavaClass
