/-
  Code arrays that cannot be decoded.

  Decoding stops at the first instruction that it cannot read, and reports why.  `Undecodable`
  writes the reasons down on the bytes from that instruction on, without mention of the decoder:
  a byte that is no op code, a widened instruction that cannot be widened, a table switch or a
  lookup switch whose table has no possible size, and bytes that are missing.  `undecodable_of_scan`
  shows that one instruction fails for no other reason, by tracing the failure through its layout;
  `decode_undecodable` places that instruction in the code array: everything in front of it
  decodes, and nothing that reaches into it does.
-/
import JavaClass.Proofs.Bytes.Rejects
import JavaClass.Proofs.Instruction.Encoding
import JavaClass.Proofs.Instruction.Truncation

namespace JavaClass.Instruction

open Scan
open BigEndian (signedBytes)

/-- `Undecodable start stored e`: the bytes `stored`, which are those of a code array from the
    offset `start` on, begin with no instruction, and `e` says why. -/
inductive Undecodable (start : Nat) : List UInt8 → ReadError → Prop
  | unknown {byte : UInt8} {rest : List UInt8} (unassigned : 0xca ≤ byte.toNat) :
    Undecodable start (byte :: rest) (.unknownOpCode byte start)
  | unknownWidened {byte : UInt8} {rest : List UInt8} (unassigned : 0xca ≤ byte.toNat) :
    Undecodable start (0xc4 :: byte :: rest) (.unknownOpCode byte (start + 1))
  /-- Another instruction than `iinc`, a load, a store, or `ret`. -/
  | notWidenable {op : OpCode} {rest : List UInt8} (narrow : op.byte ≠ 0x84)
    (other : op.byte ∉ wideLocals) :
    Undecodable start (0xc4 :: op.byte :: rest) (.malformed (.notWidenable op (start + 1)))
  | tableSwitchBounds {padding rest : List UInt8} {default low high : Int32}
    (aligned : padding.length = 3 - start % 4) (bounds : high.toInt < low.toInt) :
    Undecodable start (0xaa :: (padding ++ (signedBytes 4 default.toInt ++
        (signedBytes 4 low.toInt ++ (signedBytes 4 high.toInt ++ rest)))))
      (.malformed (.tableSwitchBounds low high start))
  | lookupSwitchCount {padding rest : List UInt8} {default count : Int32}
    (aligned : padding.length = 3 - start % 4) (negative : count.toInt < 0) :
    Undecodable start (0xab :: (padding ++ (signedBytes 4 default.toInt ++
        (signedBytes 4 count.toInt ++ rest))))
      (.malformed (.lookupSwitchCount count start))
  /-- The failure lies behind the op code, and is about the end of the code array. -/
  | missing {stored : List UInt8} {position requested available : Nat}
    (behind : start < position) (ends : position + available = start + stored.length)
    (short : available < requested) :
    Undecodable start stored (.endOfInput position requested available)

section
variable {p start : Nat} {read : List UInt8} {e : ReadError}

/-! ## Op codes -/

/-- An op code is rejected if its byte is above those that are assigned. -/
theorem rejects_opCode : OpCode.scan.Rejects p read e ↔
    ∃ byte rest, read = byte :: rest ∧ 0xca ≤ byte.toNat ∧ e = .unknownOpCode byte p := by
  constructor
  · rintro ⟨hshort, d, hd⟩
    cases read with
    | nil =>
      cases hd
      exact absurd ⟨p, 1, 0, rfl⟩ hshort
    | cons byte rest =>
      cases hb : OpCode.ofByte? byte with
      | none =>
        rw [scan_opCode_unassigned hb] at hd
        cases hd
        exact ⟨byte, rest, rfl, OpCode.ofByte?_eq_none.mp hb, rfl⟩
      | some op =>
        rw [scan_opCode_cons hb] at hd
        nomatch hd
  · rintro ⟨byte, rest, rfl, hb, rfl⟩
    refine ⟨?_, _, scan_opCode_unassigned (OpCode.ofByte?_eq_none.mpr hb) rest p⟩
    rintro ⟨_, _, _, h⟩
    nomatch h

/-- A scan that starts with an op code rejects what is none, and what is rejected behind one. -/
theorem rejects_opCode_bind {β : Type} {next : OpCode → Scan ReadError β} :
    (OpCode.scan >>= next).Rejects p read e ↔
      (∃ byte rest, read = byte :: rest ∧ 0xca ≤ byte.toNat ∧ e = .unknownOpCode byte p) ∨
        ∃ op rest, read = op.byte :: rest ∧ (next op).Rejects (p + 1) rest e := by
  rw [rejects_bind incremental_opCode, rejects_opCode]
  refine or_congr_right ⟨?_, ?_⟩
  · rintro ⟨first, rest, op, rfl, hop, h⟩
    obtain rfl := accepts_opCode.mp hop
    exact ⟨op, rest, rfl, h⟩
  · rintro ⟨op, rest, rfl, h⟩
    exact ⟨[op.byte], rest, op, rfl, accepts_opCode.mpr rfl, h⟩

/-! ## Switch tables -/

/-- Padding is not looked at. -/
theorem unchecked_skipPadding : Unchecked SwitchTable.skipPadding :=
  unchecked_position.bind fun _ => (unchecked_bytes _).bind fun _ => unchecked_pure _

/-- Nor are the numbers of a pair. -/
theorem unchecked_scanTarget : Unchecked SwitchTable.scanTarget :=
  unchecked_i32.bind fun _ => unchecked_i32.bind fun _ => unchecked_pure _

/-- What follows the padding may be rejected, and the length of the padding depends on the offset
    alone. -/
theorem rejects_skipPadding_bind {β : Type} {next : Unit → Scan ReadError β} :
    (liftM SwitchTable.skipPadding >>= next).Rejects (start + 1) read e ↔
      ∃ padding rest, read = padding ++ rest ∧ padding.length = 3 - start % 4 ∧
        (next ()).Rejects (start + 1 + padding.length) rest e := by
  have hlen : (4 - (start + 1) % 4) % 4 = 3 - start % 4 := by omega
  rw [unchecked_skipPadding.lift.rejects_bind incremental_skipPadding.lift]
  simp only [accepts_lift, accepts_skipPadding, hlen]
  constructor
  · rintro ⟨padding, rest, _, rfl, hp, h⟩
    exact ⟨padding, rest, rfl, hp, h⟩
  · rintro ⟨padding, rest, rfl, hp, h⟩
    exact ⟨padding, rest, (), rfl, hp, h⟩

/-- A table is rejected for its bounds only. -/
theorem undecodable_of_scanRange (h : (SwitchTable.scanRange start).Rejects (start + 1) read e) :
    Undecodable start (0xaa :: read) e := by
  simp only [SwitchTable.scanRange, rejects_skipPadding_bind, rejects_i32_bind] at h
  obtain ⟨padding, _, rfl, hpad, default, _, rfl, low, _, rfl, high, rest, rfl, h⟩ := h
  rcases (rejects_require_bind (not_isShortage_malformed _)).mp h with ⟨hbounds, rfl⟩ | ⟨-, h⟩
  · exact .tableSwitchBounds hpad (Int.not_le.mp hbounds)
  · -- the jumps are taken as they are
    exact absurd h ((unchecked_i32.lift.times _).bind fun _ => unchecked_pure _).not_rejects

/-- A list of pairs is rejected for its count only. -/
theorem undecodable_of_scanPairs (h : (SwitchTable.scanPairs start).Rejects (start + 1) read e) :
    Undecodable start (0xab :: read) e := by
  simp only [SwitchTable.scanPairs, rejects_skipPadding_bind, rejects_i32_bind] at h
  obtain ⟨padding, _, rfl, hpad, default, _, rfl, count, rest, rfl, h⟩ := h
  rcases (rejects_require_bind (not_isShortage_malformed _)).mp h with ⟨hcount, rfl⟩ | ⟨-, h⟩
  · exact .lookupSwitchCount hpad (Int.not_le.mp hcount)
  · exact absurd h
      ((unchecked_scanTarget.lift.times _).bind fun _ => unchecked_pure _).not_rejects

/-! ## Widened instructions -/

/-- A widened instruction is rejected for its op code only, which is unassigned or cannot be
    widened. -/
theorem undecodable_of_scanWidened (h : scanWidened.Rejects (start + 1) read e) :
    Undecodable start (0xc4 :: read) e := by
  rw [scanWidened, rejects_position_bind, rejects_opCode_bind] at h
  rcases h with ⟨byte, rest, rfl, hb, rfl⟩ | ⟨op, rest, rfl, h⟩
  · exact .unknownWidened hb
  rcases (rejects_require_bind (not_isShortage_malformed _)).mp h with ⟨hnot, rfl⟩ | ⟨-, h⟩
  · have hnot : ¬ (op.layout = .localSlot) ∧ ¬ (op.layout = .increment) := by
      simpa [OpCode.isWidenable] using hnot
    rw [layout_eq_localSlot, layout_eq_increment] at hnot
    exact .notWidenable hnot.2 hnot.1
  · refine absurd h (unchecked_u16.lift.bind fun slot => ?_).not_rejects
    by_cases hinc : op.layout = .increment
    · rw [if_pos hinc]
      exact unchecked_i16.lift.bind fun _ => unchecked_pure _
    · rw [if_neg hinc]
      exact unchecked_pure _

/-! ## One instruction -/

/-- Operands are checked in switch tables and in widened instructions, and taken as they are in
    every other layout. -/
theorem checked_or_unchecked (start : Nat) (layout : Layout) :
    layout = .tableSwitch ∨ layout = .lookupSwitch ∨ layout = .widened ∨
      Unchecked (scanOperands start layout) := by
  have hunchecked {layout : Layout} (hu : Unchecked (scanOperands start layout)) :
      layout = .tableSwitch ∨ layout = .lookupSwitch ∨ layout = .widened ∨
        Unchecked (scanOperands start layout) := Or.inr (Or.inr (Or.inr hu))
  cases layout with
  | tableSwitch => exact Or.inl rfl
  | lookupSwitch => exact Or.inr (Or.inl rfl)
  | widened => exact Or.inr (Or.inr (Or.inl rfl))
  | nothing => exact hunchecked (unchecked_pure _)
  | signedByte => exact hunchecked (unchecked_i8.lift.bind fun _ => unchecked_pure _)
  | signedShort => exact hunchecked (unchecked_i16.lift.bind fun _ => unchecked_pure _)
  | constantByte => exact hunchecked (unchecked_u8.lift.bind fun _ => unchecked_pure _)
  | constant => exact hunchecked (unchecked_u16.lift.bind fun _ => unchecked_pure _)
  | localSlot => exact hunchecked (unchecked_u8.lift.bind fun _ => unchecked_pure _)
  | branch => exact hunchecked (unchecked_i16.lift.bind fun _ => unchecked_pure _)
  | branchWide => exact hunchecked (unchecked_i32.lift.bind fun _ => unchecked_pure _)
  | elementType => exact hunchecked (unchecked_u8.lift.bind fun _ => unchecked_pure _)
  | increment =>
    exact hunchecked (unchecked_u8.lift.bind fun _ => unchecked_i8.lift.bind fun _ =>
      unchecked_pure _)
  | interfaceCall =>
    exact hunchecked (unchecked_u16.lift.bind fun _ => unchecked_u8.lift.bind fun _ =>
      unchecked_u8.lift.bind fun _ => unchecked_pure _)
  | dynamicCall =>
    exact hunchecked (unchecked_u16.lift.bind fun _ => unchecked_u16.lift.bind fun _ =>
      unchecked_pure _)
  | multiArray =>
    exact hunchecked (unchecked_u16.lift.bind fun _ => unchecked_u8.lift.bind fun _ =>
      unchecked_pure _)

/-- Operands are rejected because of a switch table or an instruction that cannot be widened. -/
theorem undecodable_of_scanOperands {op : OpCode}
    (h : (scanOperands start op.layout).Rejects (start + 1) read e) :
    Undecodable start (op.byte :: read) e := by
  rcases checked_or_unchecked start op.layout with hl | hl | hl | hu
  · rw [hl, scanOperands, rejects_map (incremental_scanRange start)] at h
    rw [(layout_eq_tableSwitch op).mp hl]
    exact undecodable_of_scanRange h
  · rw [hl, scanOperands, rejects_map (incremental_scanPairs start)] at h
    rw [(layout_eq_lookupSwitch op).mp hl]
    exact undecodable_of_scanPairs h
  · rw [hl] at h
    rw [(layout_eq_widened op).mp hl]
    exact undecodable_of_scanWidened h
  · exact absurd h hu.not_rejects

/-- An instruction at a 16-bit offset fails because of its first bytes, or for lack of input. -/
theorem undecodable_of_scan {c : Cursor} (hp : p < 65536) (hr : read ≠ [])
    (h : scan ⟨read, p⟩ = .error e c) : Undecodable p read e := by
  obtain ⟨byte, rest, rfl⟩ := List.exists_cons_of_ne_nil hr
  -- a lack of input is told apart first, since it does not say which check it stopped at
  by_cases hshort : IsShortage e
  · obtain ⟨position, requested, available, rfl⟩ := hshort
    obtain ⟨-, hend, hlt, -⟩ := incremental_scan.starves h
    exact .missing (lt_position_of_scan h) hend hlt
  · have hrejects : scan.Rejects p (byte :: rest) e := ⟨hshort, c, h⟩
    rw [scan, rejects_position_bind, rejects_opCode_bind] at hrejects
    rcases hrejects with ⟨byte, rest, hread, hb, rfl⟩ | ⟨op, rest, hread, hop⟩
    · rw [hread]
      exact .unknown hb
    · rw [hread]
      rcases (rejects_bind (incremental_scanOperands p op.layout)).mp hop with
        hoperands | ⟨first, rest, operands, rfl, -, hbehind⟩
      · exact undecodable_of_scanOperands hoperands
      · -- what is left is the offset of the instruction, and that is a 16-bit number
        have hoffset : checkedOffset p = .ok (UInt16.ofNat p) := if_pos hp
        rw [hoffset] at hbehind
        refine absurd hbehind (Unchecked.not_rejects ?_)
        exact (unchecked_pure _).bind fun _ => unchecked_position.bind fun _ => unchecked_pure _

end

/-! ## Code arrays

  What decodes in front of the failure is what has been accepted up to there.  Nothing longer
  decodes, for a decoder that got beyond the failure would have read an instruction where there is
  none. -/

/-- Decoding fails where the instructions in front have been accepted and the next one fails. -/
theorem exists_of_decodeAfter_eq_error {done : List Instruction} {c : Cursor} {e : ReadError}
    (h : decodeAfter done c = .error e) :
    ∃ first rest is d, c.rest = first ++ rest ∧ rest ≠ [] ∧ scan.AcceptsAll c.position first is ∧
      scan ⟨rest, c.position + first.length⟩ = .error e d := by
  -- induction on the run: the instructions that were read are those in front
  fun_induction decodeAfter done c with
  | case1 done c hend => cases h
  | case2 done c hend i c' hscan ih =>
    obtain ⟨first, rest, is, d, hrest, hne, hall, hd⟩ := ih h
    obtain ⟨head, hr, hi⟩ := incremental_scan.accepts hscan
    rw [hr.2] at hall hd
    refine ⟨head ++ first, rest, i :: is, d, ?_, hne, ⟨head, first, rfl, hi, hall⟩, ?_⟩
    · rw [hr.1, hrest, List.append_assoc]
    · rwa [List.length_append, ← Nat.add_assoc]
  | case3 done c hend e' c' hscan =>
    obtain rfl := Except.error.inj h
    exact ⟨[], c.rest, [], c', rfl, fun hnil => hend (c.atEnd_iff.mpr hnil), rfl, hscan⟩

/-- A code array that reaches into an instruction that fails does not decode. -/
theorem not_decodes_into_failure {first rest more : List UInt8} {before is : List Instruction}
    {c : Cursor} {e : ReadError} (hall : scan.AcceptsAll 0 first before)
    (hfail : scan ⟨rest ++ more, first.length⟩ = .error e c) (hr : rest ≠ []) :
    decode (first ++ rest) ≠ .ok is := by
  intro h
  obtain ⟨-, hdecoded⟩ := decode_eq_ok.mp h
  have hrun := decodeAfter_of_acceptsAll hdecoded
  rw [decodeAfter_append hall, Nat.zero_add] at hrun
  cases hscan : scan ⟨rest, first.length⟩ with
  | ok i d =>
    -- that instruction would be read on the longer bytes, too
    have hmore := incremental_scan.extend_ok hscan more
    rw [Cursor.extend, hfail] at hmore
    cases hmore
  | error e' d =>
    rw [decodeAfter_of_error hr hscan] at hrun
    cases hrun

/-- **Code arrays that cannot be decoded.**  If a code array of permitted length does not decode,
    there is an offset in it, the first at which there is no instruction: what lies in front of
    that offset decodes, nothing that reaches beyond it does, and the failure says what is wrong
    with the bytes from there on. -/
theorem decode_undecodable {code : List UInt8} {e : ReadError} (hlen : code.length ≤ 65535)
    (h : decode code = .error e) :
    ∃ k < code.length, (∃ is, decode (code.take k) = .ok is) ∧
      (∀ n, k < n → ∀ is, decode (code.take n) ≠ .ok is) ∧ Undecodable k (code.drop k) e := by
  have hmax : ¬ maxCodeLength < code.length := Nat.not_lt.mpr hlen
  rw [decode, if_neg hmax] at h
  obtain ⟨first, rest, is, d, hcode, hne, hall, hfail⟩ := exists_of_decodeAfter_eq_error h
  obtain rfl : code = first ++ rest := hcode
  rw [Cursor.start, Nat.zero_add] at hfail
  rw [List.length_append] at hlen ⊢
  have hpos : 0 < rest.length := List.length_pos_iff.mpr hne
  -- the offset is the number of bytes that the instructions in front take
  refine ⟨first.length, by omega, ?_, ?_, ?_⟩
  · rw [List.take_left]
    exact ⟨is, decode_eq_ok.mpr ⟨by unfold maxCodeLength; omega, hall⟩⟩
  · intro n hn is'
    obtain ⟨m, rfl⟩ : ∃ m, n = first.length + (m + 1) := ⟨n - first.length - 1, by omega⟩
    have htake : rest.take (m + 1) ≠ [] := by
      intro hnil
      rcases List.take_eq_nil_iff.mp hnil with hzero | hnil
      · cases hzero
      · exact hne hnil
    rw [← List.take_append_drop (m + 1) rest] at hfail
    rw [List.take_length_add_append]
    exact not_decodes_into_failure hall hfail htake
  · rw [List.drop_left]
    exact undecodable_of_scan (by omega) hne hfail

/-- The theorem at an instruction that is behind another one and cannot be widened. -/
theorem decode_undecodable_wide_iadd :
    decode [0x00, 0xc4, 0x60, 0x00, 0x01] =
      .error (.malformed (.notWidenable ⟨0x60, by decide⟩ 2)) ∧
    ∃ k < 5, (∃ is, decode ([0x00, 0xc4, 0x60, 0x00, 0x01].take k) = .ok is) ∧
      (∀ n, k < n → ∀ is, decode ([0x00, 0xc4, 0x60, 0x00, 0x01].take n) ≠ .ok is) ∧
      Undecodable k ([0x00, 0xc4, 0x60, 0x00, 0x01].drop k)
        (.malformed (.notWidenable ⟨0x60, by decide⟩ 2)) := by
  have h : decode [0x00, 0xc4, 0x60, 0x00, 0x01] =
      .error (.malformed (.notWidenable ⟨0x60, by decide⟩ 2)) := by cbv
  exact ⟨h, decode_undecodable (by decide) h⟩

end JavaClass.Instruction
