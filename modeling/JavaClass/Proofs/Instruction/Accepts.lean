/-
  What the instruction decoder accepts.

  An instruction is accepted as its op code byte and the bytes of its operands (`accepts_scan`);
  its offset is where it stands and its length is the number of its bytes.  A code array decodes
  to a list of instructions exactly if these are accepted one after the other from its first byte
  to its last (`decode_eq_ok`), so what holds of every instruction of a code array is proved by
  induction on that list.
-/
import JavaClass.Instruction.Decode
import JavaClass.Proofs.Bytes.Numbers

namespace JavaClass.Instruction

open Scan

/-! ## Op codes

  An op code is looked at before it is passed, so that an unknown one is reported with the cursor
  in front of it.  Looking without passing is what an incremental scan must not do, so the cases
  are gone through by hand. -/

/-- At the end of the input, the op code is what is missing. -/
theorem scan_opCode_nil (p : Nat) :
    OpCode.scan ⟨[], p⟩ = .error (.endOfInput p 1 0) ⟨[], p⟩ := rfl

/-- An assigned byte is passed. -/
theorem scan_opCode_cons {byte : UInt8} {op : OpCode} (h : OpCode.ofByte? byte = some op)
    (rest : List UInt8) (p : Nat) : OpCode.scan ⟨byte :: rest, p⟩ = .ok op ⟨rest, p + 1⟩ := by
  show (ofOption (ReadError.unknownOpCode byte p) (OpCode.ofByte? byte) >>= _) _ = _
  rw [h]
  rfl

/-- An unassigned byte is rejected where it stands; the cursor is not behind it. -/
theorem scan_opCode_unassigned {byte : UInt8} (h : OpCode.ofByte? byte = none)
    (rest : List UInt8) (p : Nat) :
    OpCode.scan ⟨byte :: rest, p⟩ = .error (.unknownOpCode byte p) ⟨byte :: rest, p⟩ := by
  show (ofOption (ReadError.unknownOpCode byte p) (OpCode.ofByte? byte) >>= _) _ = _
  rw [h]
  rfl

/-- An op code is accepted as its one byte. -/
theorem accepts_opCode {p : Nat} {read : List UInt8} {op : OpCode} :
    OpCode.scan.Accepts p read op ↔ read = [op.byte] := by
  constructor
  · intro h
    have hrun := h []
    rw [List.append_nil] at hrun
    cases read with
    | nil =>
      rw [scan_opCode_nil] at hrun
      nomatch hrun
    | cons byte rest =>
      cases hb : OpCode.ofByte? byte with
      | none =>
        rw [scan_opCode_unassigned hb] at hrun
        nomatch hrun
      | some op' =>
        rw [scan_opCode_cons hb] at hrun
        injection hrun with hop hc
        have hrest : rest = [] := congrArg Cursor.rest hc
        rw [hrest, ← hop, OpCode.ofByte?_eq_some.mp hb]
  · rintro rfl more
    exact scan_opCode_cons op.ofByte?_byte more p

/-- Whatever comes behind an op code has no say in it.  The byte is only peeked at before it is
    passed, so this does not follow from its parts. -/
theorem incremental_opCode : Incremental OpCode.scan where
  accepts := by
    rintro ⟨rest, p⟩ d op h
    cases rest with
    | nil => nomatch h
    | cons byte rest =>
      cases hb : OpCode.ofByte? byte with
      | none =>
        rw [scan_opCode_unassigned hb] at h
        nomatch h
      | some op' =>
        rw [scan_opCode_cons hb] at h
        cases h
        refine ⟨[byte], ⟨rfl, rfl⟩, accepts_opCode.mpr ?_⟩
        rw [OpCode.ofByte?_eq_some.mp hb]
  rejects := by
    rintro ⟨rest, p⟩ d e h hne more
    cases rest with
    | nil =>
      -- a lack of input, which is excluded here
      cases h
      exact absurd ⟨p, 1, 0, rfl⟩ hne
    | cons byte rest =>
      cases hb : OpCode.ofByte? byte with
      | none =>
        rw [scan_opCode_unassigned hb] at h
        cases h
        exact ⟨_, scan_opCode_unassigned hb (rest ++ more) p⟩
      | some op =>
        rw [scan_opCode_cons hb] at h
        nomatch h
  starves := by
    rintro ⟨rest, p⟩ d position requested available h
    cases rest with
    | nil =>
      cases h
      refine ⟨Nat.le_refl p, rfl, Nat.zero_lt_one, fun more hm => ?_⟩
      obtain rfl : more = [] := List.length_eq_zero_iff.mp (by omega)
      exact ⟨_, scan_opCode_nil p⟩
    | cons byte rest =>
      cases hb : OpCode.ofByte? byte with
      | none =>
        rw [scan_opCode_unassigned hb] at h
        nomatch h
      | some op =>
        rw [scan_opCode_cons hb] at h
        nomatch h

/-! ## Instructions are incremental -/

/-- How many bytes of padding there are depends on the offset alone. -/
theorem incremental_skipPadding : Incremental SwitchTable.skipPadding :=
  incremental_position.bind fun _ => (incremental_bytes _).bind fun _ => .pure _

/-- The bounds of a table are checked before its targets are read. -/
theorem incremental_scanRange (start : Nat) : Incremental (SwitchTable.scanRange start) :=
  incremental_skipPadding.lift.bind fun _ => incremental_i32.lift.bind fun _ =>
    incremental_i32.lift.bind fun _ => incremental_i32.lift.bind fun _ =>
    (incremental_require _ (not_isShortage_malformed _)).bind fun _ =>
    (incremental_i32.lift.times _).bind fun _ => .pure _

theorem incremental_scanTarget : Incremental SwitchTable.scanTarget :=
  incremental_i32.bind fun _ => incremental_i32.bind fun _ => .pure _

/-- The number of pairs is checked before they are read. -/
theorem incremental_scanPairs (start : Nat) : Incremental (SwitchTable.scanPairs start) :=
  incremental_skipPadding.lift.bind fun _ => incremental_i32.lift.bind fun _ =>
    incremental_i32.lift.bind fun _ =>
    (incremental_require _ (not_isShortage_malformed _)).bind fun _ =>
    (incremental_scanTarget.lift.times _).bind fun _ => .pure _

/-- The widened op code is checked before its operands are read, and its layout decides how many of
    them there are. -/
theorem incremental_scanWidened : Incremental scanWidened :=
  incremental_position.bind fun _ => incremental_opCode.bind fun op =>
    (incremental_require _ (not_isShortage_malformed _)).bind fun _ =>
    incremental_u16.lift.bind fun _ => by
      by_cases h : op.layout = .increment
      · simp only [h, if_true]
        exact incremental_i16.lift.bind fun _ => .pure _
      · simp only [h, if_false]
        exact .pure _

/-- Operands of every layout are numbers read one after the other, but for the switches and
    `wide`. -/
theorem incremental_scanOperands (start : Nat) (layout : Layout) :
    Incremental (scanOperands start layout) := by
  cases layout with
  | nothing => exact .pure _
  | signedByte => exact incremental_i8.lift.bind fun _ => .pure _
  | signedShort => exact incremental_i16.lift.bind fun _ => .pure _
  | constantByte => exact incremental_u8.lift.bind fun _ => .pure _
  | constant => exact incremental_u16.lift.bind fun _ => .pure _
  | localSlot => exact incremental_u8.lift.bind fun _ => .pure _
  | branch => exact incremental_i16.lift.bind fun _ => .pure _
  | branchWide => exact incremental_i32.lift.bind fun _ => .pure _
  | elementType => exact incremental_u8.lift.bind fun _ => .pure _
  | increment =>
    exact incremental_u8.lift.bind fun _ => incremental_i8.lift.bind fun _ => .pure _
  | interfaceCall =>
    exact incremental_u16.lift.bind fun _ => incremental_u8.lift.bind fun _ =>
      incremental_u8.lift.bind fun _ => .pure _
  | dynamicCall =>
    exact incremental_u16.lift.bind fun _ => incremental_u16.lift.bind fun _ => .pure _
  | multiArray =>
    exact incremental_u16.lift.bind fun _ => incremental_u8.lift.bind fun _ => .pure _
  | tableSwitch => exact (incremental_scanRange start).bind fun _ => .pure _
  | lookupSwitch => exact (incremental_scanPairs start).bind fun _ => .pure _
  | widened => exact incremental_scanWidened

/-- The check lets through exactly the offsets of 16 bits, as they are. -/
theorem checkedOffset_eq_ok {p : Nat} {offset : UInt16} :
    checkedOffset p = .ok offset ↔ p < 65536 ∧ offset.toNat = p := by
  unfold checkedOffset
  split
  · rename_i hp
    rw [Except.ok.injEq, ← UInt16.toNat_inj, UInt16.toNat_ofNat_of_lt' hp, eq_comm]
    exact (and_iff_right hp).symm
  · rename_i hp
    constructor
    · intro h
      nomatch h
    · rintro ⟨h, -⟩
      exact absurd h hp

/-- An offset that is too large is no lack of input. -/
theorem incremental_checkedOffset (p : Nat) :
    Incremental (Scan.ofExcept (checkedOffset p)) := by
  refine .ofExcept _ fun e he => ?_
  unfold checkedOffset at he
  split at he
  · nomatch he
  · exact Except.error.inj he ▸ not_isShortage_malformed _

/-- An instruction is read as far as it goes, and what comes behind it is left to the next one. -/
theorem incremental_scan : Incremental scan :=
  incremental_position.bind fun start => incremental_opCode.bind fun _ =>
    (incremental_scanOperands start _).bind fun _ => (incremental_checkedOffset start).bind fun _ =>
    incremental_position.bind fun _ => .pure _

/-! ## One instruction

  The offset of an instruction is a 16-bit number, and that it is one is checked only behind the
  operands. -/

/-- An instruction is accepted as its op code byte and its operands, if it stands at a 16-bit
    offset. -/
theorem accepts_scan {p : Nat} {read : List UInt8} {i : Instruction} :
    scan.Accepts p read i ↔ p < 65536 ∧ i.offset.toNat = p ∧ i.length = read.length ∧
      ∃ operands, read = i.op.byte :: operands ∧
        (scanOperands p i.op.layout).Accepts (p + 1) operands i.operands := by
  rw [scan, accepts_position_bind, accepts_bind incremental_opCode]
  constructor
  · -- the scan, step by step: op code, operands, offset, length
    rintro ⟨_, _, op, rfl, hop, h⟩
    obtain rfl := accepts_opCode.mp hop
    obtain ⟨bytes, _, operands, rfl, hoperands, h⟩ :=
      (accepts_bind (incremental_scanOperands p op.layout)).mp h
    obtain ⟨offset, hoffset, h⟩ := accepts_ofExcept_bind.mp h
    rw [accepts_position_bind] at h
    obtain ⟨rfl, rfl⟩ := accepts_pure.mp h
    obtain ⟨hlt, hoffset⟩ := checkedOffset_eq_ok.mp hoffset
    refine ⟨hlt, hoffset, ?_, bytes, ?_, hoperands⟩
    · rw [List.append_nil, List.length_append, Nat.add_assoc, Nat.add_sub_cancel_left]
    · rw [List.append_nil, List.singleton_append]
  · rintro ⟨hlt, hoffset, hlength, bytes, rfl, hoperands⟩
    refine ⟨[i.op.byte], bytes, i.op, rfl, accepts_opCode.mpr rfl, ?_⟩
    refine (accepts_bind (incremental_scanOperands p i.op.layout)).mpr
      ⟨bytes, [], i.operands, (List.append_nil _).symm, hoperands, ?_⟩
    refine accepts_ofExcept_bind.mpr ⟨i.offset, checkedOffset_eq_ok.mpr ⟨hlt, hoffset⟩, ?_⟩
    refine accepts_position_bind.mpr (accepts_pure.mpr ⟨rfl, ?_⟩)
    have hspan : p + [i.op.byte].length + bytes.length - p = i.length := by
      rw [hlength, Nat.add_assoc, Nat.add_sub_cancel_left, List.length_cons, Nat.add_comm]
      rfl
    rw [hspan]

/-! ## Whole code arrays

  The decoder collects instructions latest first.  What has been collected stays as it is, which
  is what the two directions below have in common: a run is the instructions that are accepted
  from its place on, put behind those collected. -/

/-- At the end of the code, the instructions read so far are all there are. -/
theorem decodeAfter_of_atEnd {c : Cursor} (h : c.rest = []) (done : List Instruction) :
    decodeAfter done c = .ok done.reverse := by
  rw [decodeAfter, if_pos (c.atEnd_iff.mpr h)]

/-- An instruction is put with those read so far.  There is code left in front of it, as it has
    bytes of its own. -/
theorem decodeAfter_of_ok {c c' : Cursor} {i : Instruction} (h : scan c = .ok i c')
    (done : List Instruction) : decodeAfter done c = decodeAfter (i :: done) c' := by
  have hend : ¬ c.atEnd = true := by
    -- an instruction leaves less than it finds
    intro hend
    have hlt := remaining_lt_of_scan h
    rw [Cursor.remaining, Cursor.remaining, c.atEnd_iff.mp hend] at hlt
    exact absurd hlt (Nat.not_lt_zero _)
  rw [decodeAfter, if_neg hend]
  split
  · rename_i i' d hscan
    rw [h] at hscan
    cases hscan
    rfl
  · rename_i e d hscan
    rw [h] at hscan
    nomatch hscan

/-- The first instruction that fails decides. -/
theorem decodeAfter_of_error {c d : Cursor} {e : ReadError} (hc : c.rest ≠ [])
    (h : scan c = .error e d) (done : List Instruction) : decodeAfter done c = .error e := by
  rw [decodeAfter, if_neg fun hend => hc (c.atEnd_iff.mp hend)]
  split
  · rename_i i c' hscan
    rw [h] at hscan
    cases hscan
  · rename_i e' c' hscan
    rw [h] at hscan
    cases hscan
    rfl

/-- Instructions that are accepted one after the other are decoded, whatever is behind them. -/
theorem decodeAfter_append {p : Nat} {code : List UInt8} {is : List Instruction}
    (h : scan.AcceptsAll p code is) (done : List Instruction) (rest : List UInt8) :
    decodeAfter done ⟨code ++ rest, p⟩ =
      decodeAfter (is.reverse ++ done) ⟨rest, p + code.length⟩ := by
  induction is generalizing p code done with
  | nil =>
    obtain rfl : code = [] := h
    rfl
  | cons i is ih =>
    -- the bytes of the others are what follows the first instruction
    obtain ⟨first, others, rfl, hi, hothers⟩ := h
    rw [List.append_assoc, decodeAfter_of_ok (hi (others ++ rest)), ih hothers, List.reverse_cons,
      List.append_assoc, List.singleton_append, List.length_append, Nat.add_assoc]

/-- Instructions that are accepted up to the end are all there are. -/
theorem decodeAfter_of_acceptsAll {p : Nat} {code : List UInt8} {is : List Instruction}
    (h : scan.AcceptsAll p code is) : decodeAfter [] ⟨code, p⟩ = .ok is := by
  have happend := decodeAfter_append h [] []
  rw [List.append_nil, List.append_nil] at happend
  rw [happend, decodeAfter_of_atEnd rfl, List.reverse_reverse]

/-- What is decoded was accepted, one instruction after the other. -/
theorem acceptsAll_of_decodeAfter {done is : List Instruction} {c : Cursor}
    (h : decodeAfter done c = .ok is) :
    ∃ new, is = done.reverse ++ new ∧ scan.AcceptsAll c.position c.rest new := by
  -- induction on the run: the end, another instruction, or a failure
  fun_induction decodeAfter done c with
  | case1 done c hend =>
    obtain rfl := Except.ok.inj h
    exact ⟨[], (List.append_nil _).symm, c.atEnd_iff.mp hend⟩
  | case2 done c hend i c' hscan ih =>
    obtain ⟨new, rfl, hnew⟩ := ih h
    obtain ⟨first, hr, hi⟩ := incremental_scan.accepts hscan
    rw [hr.2] at hnew
    refine ⟨i :: new, ?_, first, c'.rest, hr.1, hi, hnew⟩
    rw [List.reverse_cons, List.append_assoc, List.singleton_append]
  | case3 done c hend e c' hscan => nomatch h

/-- A code array decodes to the instructions that are accepted one after the other. -/
theorem decode_eq_ok {code : List UInt8} {is : List Instruction} :
    decode code = .ok is ↔ code.length ≤ maxCodeLength ∧ scan.AcceptsAll 0 code is := by
  constructor
  · intro h
    unfold decode at h
    split at h
    · nomatch h
    · rename_i hlen
      obtain ⟨new, rfl, hnew⟩ := acceptsAll_of_decodeAfter h
      exact ⟨Nat.le_of_not_lt hlen, hnew⟩
  · rintro ⟨hlen, h⟩
    rw [decode, if_neg (Nat.not_lt.mpr hlen)]
    exact decodeAfter_of_acceptsAll h

/-- The length of a code array is looked at before any of its bytes. -/
theorem decode_of_length_lt {code : List UInt8} (h : maxCodeLength < code.length) :
    decode code = .error (.malformed (.codeTooLong code.length)) := if_pos h

end JavaClass.Instruction
