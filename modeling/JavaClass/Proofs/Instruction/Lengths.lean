/-
  Lengths and accessors of decoded instructions.

  The table of the instruction set says for most layouts how many bytes their operands take, and
  the decoder never looks there.  `AsTabled` states what the two have to agree on, for one
  instruction: its length, with that of a switch or of a widened instruction worked out from the
  operands, and whether it has a constant or a branch target at all.  Both are read off the bytes
  that the operands may be stored as, one layout at a time, so it holds of every instruction that
  is decoded (`asTabled_of_decode`).
-/
import JavaClass.Proofs.Instruction.Encoding

namespace JavaClass

/-- The layouts that begin with the index of a constant. -/
def Layout.constants : List Layout :=
  [.constantByte, .constant, .interfaceCall, .dynamicCall, .multiArray]

namespace Instruction

open Scan
open BigEndian (length_bytes length_signedBytes)

/-- An instruction is as the table of the instruction set says. -/
structure AsTabled (i : Instruction) : Prop where
  /-- Behind the op code, it takes as many bytes as its layout says, if that says so. -/
  fixed : ∀ n, i.op.layout.length? = some n → i.length = 1 + n
  /-- A `tableswitch`: padding, the default and two bounds, and a jump for each key. -/
  tableSwitch : i.op.byte = 0xaa → ∃ table, i.operands = .switch table ∧
    i.length = 1 + (3 - i.offset.toNat % 4) + 12 + 4 * table.targets.length
  /-- A `lookupswitch`: padding, the default and a count, and each key with its jump. -/
  lookupSwitch : i.op.byte = 0xab → ∃ table, i.operands = .switch table ∧
    i.length = 1 + (3 - i.offset.toNat % 4) + 8 + 8 * table.targets.length
  /-- A `wide`: an op code that can be widened, and a number to add if that is `iinc`. -/
  widened : i.op.byte = 0xc4 → ∃ op slot increment, i.operands = .wide op slot increment ∧
    op.isWidenable = true ∧ (increment.isSome = true ↔ op.byte = 0x84) ∧
    i.length = if increment.isSome then 6 else 4
  /-- It refers to a constant exactly if its layout begins with one. -/
  constant : i.constantIndex?.isSome = true ↔ i.op.layout ∈ Layout.constants
  /-- It leads elsewhere only if its layout is a branch. -/
  branch : i.branchTarget?.isSome = true → i.op.layout = .branch ∨ i.op.layout = .branchWide

/-! ## The bytes of the operands

  A relation that says how operands are stored says how long they are.  For most layouts the
  length is the same whatever the operands; for the other three it is worked out here. -/

section
variable {start : Nat} {layout : Layout} {operands : Operands} {stored : List UInt8}

/-- Operands of a fixed length have that length. -/
theorem length_of_length? (h : OperandBytes start layout operands stored) {n : Nat}
    (hn : layout.length? = some n) : stored.length = n := by
  -- a case for each layout: its length is given, or there is none
  cases h <;> cases hn <;> rfl

/-- Padding, three numbers, and one for each target. -/
theorem length_of_tableSwitch (h : OperandBytes start .tableSwitch operands stored) :
    ∃ table, operands = .switch table ∧
      stored.length = (3 - start % 4) + 12 + 4 * table.targets.length := by
  cases h with
  | @tableSwitch table padding low high aligned bounds keys =>
    refine ⟨table, rfl, ?_⟩
    simp only [List.length_append, List.length_flatMap, length_signedBytes, List.map_const',
      List.sum_replicate_nat, aligned]
    omega

/-- Padding, two numbers, and two for each pair. -/
theorem length_of_lookupSwitch (h : OperandBytes start .lookupSwitch operands stored) :
    ∃ table, operands = .switch table ∧
      stored.length = (3 - start % 4) + 8 + 8 * table.targets.length := by
  cases h with
  | @lookupSwitch table padding aligned count =>
    refine ⟨table, rfl, ?_⟩
    simp only [List.length_append, List.length_flatMap, length_bytes, length_signedBytes,
      List.map_const', List.sum_replicate_nat, aligned]
    omega

/-- One more byte for the op code, two for the slot, and two more if there is an increment. -/
theorem length_of_widened (h : OperandBytes start .widened operands stored) :
    ∃ op slot increment, operands = .wide op slot increment ∧ op.isWidenable = true ∧
      (increment.isSome = true ↔ op.byte = 0x84) ∧
      stored.length = if increment.isSome then 5 else 3 := by
  cases h with
  | @wideIncrement op slot n iinc =>
    have hlayout := (layout_eq_increment op).mpr iinc
    refine ⟨op, slot, some n, rfl, ?_, iff_of_true rfl iinc, rfl⟩
    simp [OpCode.isWidenable, hlayout]
  | @wideLocal op slot widenable =>
    have hlayout := (layout_eq_localSlot op).mpr widenable
    refine ⟨op, slot, none, rfl, ?_, iff_of_false (by decide) ?_, rfl⟩
    · simp [OpCode.isWidenable, hlayout]
    · intro iinc
      rw [(layout_eq_increment op).mpr iinc] at hlayout
      contradiction

end

/-! ## Decoded instructions

  Behind its op code an instruction has the bytes of its operands and nothing else, so what holds
  of these bytes holds of it. -/

section
variable {i : Instruction} {stored : List UInt8}

/-- There is an index into the pool if the layout has one. -/
theorem constantIndex?_isSome
    (h : OperandBytes i.offset.toNat i.op.layout i.operands stored) :
    i.constantIndex?.isSome = true ↔ i.op.layout ∈ Layout.constants := by
  unfold constantIndex?
  generalize i.op.layout = layout, i.operands = operands at h
  cases h <;> simp [Layout.constants]

/-- There is a target only if the layout has a jump. -/
theorem layout_of_branchTarget?
    (h : OperandBytes i.offset.toNat i.op.layout i.operands stored)
    (htarget : i.branchTarget?.isSome = true) :
    i.op.layout = .branch ∨ i.op.layout = .branchWide := by
  unfold branchTarget? at htarget
  generalize i.op.layout = layout, i.operands = operands at h htarget
  cases h with
  | branch => exact Or.inl rfl
  | branchWide => exact Or.inr rfl
  | _ => nomatch htarget

/-- An instruction that is stored as its op code and the bytes of its operands is as tabled. -/
theorem asTabled_of_operandBytes
    (h : OperandBytes i.offset.toNat i.op.layout i.operands stored)
    (hlength : i.length = 1 + stored.length) : i.AsTabled where
  fixed := by
    intro n hn
    rw [hlength, length_of_length? h hn]
  tableSwitch := by
    intro hbyte
    rw [(layout_eq_tableSwitch i.op).mpr hbyte] at h
    obtain ⟨table, htable, hstored⟩ := length_of_tableSwitch h
    exact ⟨table, htable, by omega⟩
  lookupSwitch := by
    intro hbyte
    rw [(layout_eq_lookupSwitch i.op).mpr hbyte] at h
    obtain ⟨table, htable, hstored⟩ := length_of_lookupSwitch h
    exact ⟨table, htable, by omega⟩
  widened := by
    intro hbyte
    rw [(layout_eq_widened i.op).mpr hbyte] at h
    obtain ⟨op, slot, increment, hoperands, hwidenable, hiinc, hstored⟩ := length_of_widened h
    refine ⟨op, slot, increment, hoperands, hwidenable, hiinc, ?_⟩
    rw [hlength, hstored]
    split <;> rfl
  constant := constantIndex?_isSome h
  branch := layout_of_branchTarget? h

/-- Each of the instructions that are accepted one after the other is stored as its op code and the
    bytes of its operands. -/
theorem operandBytes_of_acceptsAll {p : Nat} {code : List UInt8} {is : List Instruction}
    (h : scan.AcceptsAll p code is) : ∀ i ∈ is, ∃ stored,
      OperandBytes i.offset.toNat i.op.layout i.operands stored ∧ i.length = 1 + stored.length := by
  -- induction on the instructions, each of which is accepted on its own
  induction is generalizing p code with
  | nil =>
    intro i hi
    nomatch hi
  | cons i is ih =>
    obtain ⟨first, rest, -, hi, hrest⟩ := h
    intro j hj
    rcases List.mem_cons.mp hj with rfl | hj
    · obtain ⟨-, rfl, hlength, stored, rfl, hstored⟩ := accepts_scan.mp hi
      rw [List.length_cons, Nat.add_comm] at hlength
      exact ⟨stored, accepts_scanOperands.mp hstored, hlength⟩
    · exact ih hrest j hj

end

/-- **The table, the decoder and the accessors agree.**  Every instruction of a decoded code array
    has the length that the table gives for its layout, or that follows from its switch table or
    its widened op code; it refers to a constant exactly if its layout does, and has a branch
    target only if its layout is a branch. -/
theorem asTabled_of_decode {code : List UInt8} {is : List Instruction} (h : decode code = .ok is) :
    ∀ i ∈ is, i.AsTabled := by
  intro i hi
  obtain ⟨stored, hstored, hlength⟩ := operandBytes_of_acceptsAll (decode_eq_ok.mp h).2 i hi
  exact asTabled_of_operandBytes hstored hlength

/-- A wide increment, a table switch with one byte of padding, a lookup switch with three, and a
    call. -/
def fourKinds : List UInt8 :=
  [0xc4, 0x84, 0x00, 0x01, 0xff, 0xff] ++
  [0xaa, 0x00, 0x00, 0x00, 0x00, 0x14, 0x00, 0x00, 0x00, 0x05, 0x00, 0x00, 0x00, 0x06,
    0x00, 0x00, 0x00, 0x16, 0x00, 0x00, 0x00, 0x2a] ++
  [0xab, 0x00, 0x00, 0x00, 0x00, 0x00, 0x00, 0x14, 0x00, 0x00, 0x00, 0x01,
    0xff, 0xff, 0xff, 0xff, 0x00, 0x00, 0x00, 0x14] ++
  [0xb9, 0x00, 0x02, 0x01, 0x00]

/-- The theorem at one instruction of each of these kinds. -/
theorem asTabled_of_decode_fourKinds :
    ∃ is, decode fourKinds = .ok is ∧
      is.map (·.length) = [6, 1 + 1 + 12 + 4 * 2, 1 + 3 + 8 + 8 * 1, 1 + 4] ∧
      ∀ i ∈ is, i.AsTabled := by
  have h : ∃ is, decode fourKinds = .ok is ∧
      is.map (·.length) = [6, 1 + 1 + 12 + 4 * 2, 1 + 3 + 8 + 8 * 1, 1 + 4] := ⟨_, by cbv, rfl⟩
  obtain ⟨is, his, hlengths⟩ := h
  exact ⟨is, his, hlengths, asTabled_of_decode his⟩

end Instruction

end JavaClass
