/-
  Code arrays put behind each other.

  An instruction is read in the same way wherever it stands, but for two things: its place is
  mentioned in the instruction itself and in failures, and a switch is padded to the next offset
  that is a multiple of four.  So moving the bytes by a multiple of four moves what is read and
  changes nothing else (`scan_moved`); `moves_skipPadding` is the one place where the four is
  needed.  What holds of one instruction is carried over to a run of the decoder
  (`decodeAfter_moved`), and to the second of two code arrays by `decode_append`.
-/
import JavaClass.Proofs.Bytes.Moves
import JavaClass.Proofs.Instruction.Truncation

namespace JavaClass

/-- The instruction `n` bytes further on. -/
def Instruction.moved (n : Nat) (i : Instruction) : Instruction :=
  { i with offset := UInt16.ofNat (i.offset.toNat + n) }

namespace Instruction

open Scan

variable {n : Nat}

/-! ## Operands

  Numbers are the same wherever they stand, and an op code that is unknown is reported where it
  stands.  Of all that an instruction is made of, only the padding of a switch depends on the
  offset. -/

/-- An op code is read the same wherever it stands, and an unknown one is reported there. -/
theorem moves_opCode : Moves n id OpCode.scan OpCode.scan :=
  moves_position_bind fun p => moves_peek.lift.bind fun byte =>
    (moves_ofOption (.unknownOpCode byte p) _).bind fun _ => moves_u8.lift.bind fun _ => .pure _

/-- Offsets that differ by a multiple of four are padded alike. -/
theorem moves_skipPadding (hn : n % 4 = 0) :
    Moves n id SwitchTable.skipPadding SwitchTable.skipPadding := by
  refine moves_position_bind fun p => ?_
  have hpadding : (4 - (p + n) % 4) % 4 = (4 - p % 4) % 4 := by omega
  rw [hpadding]
  exact (moves_bytes _).bind fun _ => .pure _

/-- A table moves by whole words, so that its padding stays the same. -/
theorem moves_scanRange (hn : n % 4 = 0) (start : Nat) :
    Moves n id (SwitchTable.scanRange start) (SwitchTable.scanRange (start + n)) :=
  (moves_skipPadding hn).lift.bind fun _ => moves_i32.lift.bind fun _ =>
    moves_i32.lift.bind fun low => moves_i32.lift.bind fun high =>
    (moves_require _ (.malformed (.tableSwitchBounds low high start))).bind fun _ =>
    (moves_i32.lift.times _).bind fun _ => .pure _

/-- A pair is two numbers. -/
theorem moves_scanTarget : Moves n id SwitchTable.scanTarget SwitchTable.scanTarget :=
  moves_i32.bind fun _ => moves_i32.bind fun _ => .pure _

/-- So does a list of pairs. -/
theorem moves_scanPairs (hn : n % 4 = 0) (start : Nat) :
    Moves n id (SwitchTable.scanPairs start) (SwitchTable.scanPairs (start + n)) :=
  (moves_skipPadding hn).lift.bind fun _ => moves_i32.lift.bind fun _ =>
    moves_i32.lift.bind fun count =>
    (moves_require _ (.malformed (.lookupSwitchCount count start))).bind fun _ =>
    (moves_scanTarget.lift.times _).bind fun _ => .pure _

/-- Widened operands have no padding and may move by any number of bytes. -/
theorem moves_scanWidened : Moves n id scanWidened scanWidened :=
  moves_position_bind fun p => moves_opCode.bind fun op =>
    (moves_require _ (.malformed (.notWidenable op p))).bind fun _ =>
    moves_u16.lift.bind fun _ => by
      by_cases h : op.layout = .increment
      · simp only [h, if_true]
        exact moves_i16.lift.bind fun _ => .pure _
      · simp only [h, if_false]
        exact .pure _

/-- Operands of every layout move by whole words.  Only those of the switches could tell a smaller
    move. -/
theorem moves_scanOperands (hn : n % 4 = 0) (start : Nat) (layout : Layout) :
    Moves n id (scanOperands start layout) (scanOperands (start + n) layout) := by
  cases layout with
  | nothing => exact .pure _
  | signedByte => exact moves_i8.lift.bind fun _ => .pure _
  | signedShort => exact moves_i16.lift.bind fun _ => .pure _
  | constantByte => exact moves_u8.lift.bind fun _ => .pure _
  | constant => exact moves_u16.lift.bind fun _ => .pure _
  | localSlot => exact moves_u8.lift.bind fun _ => .pure _
  | branch => exact moves_i16.lift.bind fun _ => .pure _
  | branchWide => exact moves_i32.lift.bind fun _ => .pure _
  | elementType => exact moves_u8.lift.bind fun _ => .pure _
  | increment => exact moves_u8.lift.bind fun _ => moves_i8.lift.bind fun _ => .pure _
  | interfaceCall =>
    exact moves_u16.lift.bind fun _ => moves_u8.lift.bind fun _ => moves_u8.lift.bind fun _ =>
      .pure _
  | dynamicCall => exact moves_u16.lift.bind fun _ => moves_u16.lift.bind fun _ => .pure _
  | multiArray => exact moves_u16.lift.bind fun _ => moves_u8.lift.bind fun _ => .pure _
  | tableSwitch => exact (moves_scanRange hn start).bind fun _ => .pure _
  | lookupSwitch => exact (moves_scanPairs hn start).bind fun _ => .pure _
  | widened => exact moves_scanWidened

/-! ## One instruction -/

/-- Within reach of 16-bit numbers, the offset of an instruction is taken as it is. -/
theorem moves_checkedOffset_bind {p : Nat} (hp : p + n < 65536) {value : Instruction → Instruction}
    {f g : UInt16 → Scan ReadError Instruction}
    (h : Moves n value (f (UInt16.ofNat p)) (g (UInt16.ofNat (p + n)))) :
    Moves n value (Scan.ofExcept (checkedOffset p) >>= f)
      (Scan.ofExcept (checkedOffset (p + n)) >>= g) := by
  have hlt : p < 65536 := by omega
  rw [checkedOffset, if_pos hlt, checkedOffset, if_pos hp]
  exact h

/-- The same bytes further on by a multiple of four are the same instruction further on, or fail in
    the same way further on. -/
theorem scan_moved (hn : n % 4 = 0) {c : Cursor} (hc : c.position + n < 65536) :
    scan (c.moved n) = movedResult n (moved n) (scan c) := by
  -- the offset moves and the length, which is a difference, does not
  have hmade : ∀ (op : OpCode) (operands : Operands) (stop : Nat),
      moved n ⟨UInt16.ofNat c.position, op, operands, stop - c.position⟩ =
        ⟨UInt16.ofNat (c.position + n), op, operands, stop + n - (c.position + n)⟩ := by
    intro op operands stop
    have hoffset : (UInt16.ofNat c.position).toNat = c.position :=
      UInt16.toNat_ofNat_of_lt' (show c.position < 65536 by omega)
    rw [moved, hoffset, Nat.add_sub_add_right]
  rw [scan]
  refine (moves_opCode.bind fun op => (moves_scanOperands hn c.position op.layout).bind
    fun operands => moves_checkedOffset_bind hc (moves_position_bind fun stop d => ?_)) c
  exact congrArg (EStateM.Result.ok · (d.moved n)) (hmade op operands stop).symm

/-! ## Code arrays

  The instructions of the second array are decoded behind those of the first, so what has been
  decoded so far is carried along and stays in front. -/

/-- In front of the end there is something left. -/
theorem remaining_pos {c : Cursor} (h : ¬ c.atEnd = true) : 0 < c.remaining :=
  List.length_pos_iff.mpr fun hnil => h (c.atEnd_iff.mpr hnil)

/-- A run of the decoder further on by a multiple of four is the same run further on, behind
    whatever has been decoded in front of it. -/
theorem decodeAfter_moved (hn : n % 4 = 0) (before done : List Instruction) {c : Cursor}
    (hc : c.position + n + c.remaining ≤ 65535) :
    decodeAfter (done.map (·.moved n) ++ before) (c.moved n) = match decodeAfter done c with
      | .ok is => .ok (before.reverse ++ is.map (·.moved n))
      | .error e => .error (e.moved n) := by
  -- induction on the run: at the end, behind an instruction, or at a failure
  fun_induction decodeAfter done c with
  | case1 done c hend =>
    have hdone := decodeAfter_of_atEnd (c := c.moved n) (c.atEnd_iff.mp hend)
      (done.map (·.moved n) ++ before)
    rwa [List.reverse_append, ← List.map_reverse] at hdone
  | case2 done c hend i d hscan ih =>
    have hpos := remaining_pos hend
    have hmoved := scan_moved hn (c := c) (by omega)
    rw [hscan] at hmoved
    obtain ⟨read, hr, -⟩ := incremental_scan.accepts hscan
    rw [decodeAfter_of_ok hmoved]
    refine ih ?_
    have hend_eq := hr.end_eq
    omega
  | case3 done c hend e d hscan =>
    have hpos := remaining_pos hend
    have hmoved := scan_moved hn (c := c) (by omega)
    rw [hscan] at hmoved
    exact decodeAfter_of_error (c := c.moved n) (fun hnil => hend (c.atEnd_iff.mpr hnil)) hmoved _

/-- **Decoding a code array behind another.**  If the first has a length that is a multiple of four
    and decodes, then both together decode to the instructions of the first and, as far behind them
    as the first is long, those of the second; and if the second fails, both together fail in the
    same way as far behind. -/
theorem decode_append {a b : List UInt8} {is : List Instruction} (haligned : a.length % 4 = 0)
    (hlen : a.length + b.length ≤ 65535) (ha : decode a = .ok is) :
    (∀ js, decode b = .ok js → decode (a ++ b) = .ok (is ++ js.map (·.moved a.length)) ∧
      ∀ j ∈ js, (j.moved a.length).offset.toNat = j.offset.toNat + a.length) ∧
    ∀ e, decode b = .error e → decode (a ++ b) = .error (e.moved a.length) := by
  have hmax : ¬ maxCodeLength < (a ++ b).length := by
    rw [List.length_append]
    exact Nat.not_lt.mpr hlen
  have hmax' : ¬ maxCodeLength < b.length := by
    unfold maxCodeLength
    omega
  -- both together: the first array is decoded, and then the second one further on
  have hrun := decodeAfter_append (decode_eq_ok.mp ha).2 [] b
  have hmoved := decodeAfter_moved haligned is.reverse [] (c := Cursor.start b) (by
    show 0 + a.length + b.length ≤ 65535
    omega)
  rw [List.append_nil] at hrun
  have hboth : decode (a ++ b) = match decode b with
      | .ok js => .ok (is ++ js.map (·.moved a.length))
      | .error e => .error (e.moved a.length) := by
    rw [decode, if_neg hmax, decode, if_neg hmax', Cursor.start, hrun]
    rw [List.reverse_reverse] at hmoved
    exact hmoved
  constructor
  · intro js hb
    rw [hb] at hboth
    refine ⟨hboth, fun j hj => ?_⟩
    have hbounds := bounds_of_acceptsAll (decode_eq_ok.mp hb).2 j hj
    exact UInt16.toNat_ofNat_of_lt' (show j.offset.toNat + a.length < 65536 by omega)
  · intro e hb
    rw [hb] at hboth
    exact hboth

/-- The theorem at four bytes in front of a table switch, and of an instruction that cannot be
    widened. -/
theorem decode_append_switchCode :
    ∃ is js, decode [0x00, 0x00, 0x00, 0x00] = .ok is ∧ decode switchCode = .ok js ∧
      decode ([0x00, 0x00, 0x00, 0x00] ++ switchCode) = .ok (is ++ js.map (·.moved 4)) ∧
      decode [0xc4, 0x60] = .error (.malformed (.notWidenable ⟨0x60, by decide⟩ 1)) ∧
      decode ([0x00, 0x00, 0x00, 0x00] ++ [0xc4, 0x60]) =
        .error (.malformed (.notWidenable ⟨0x60, by decide⟩ 5)) := by
  have hfront : ∃ is, decode [0x00, 0x00, 0x00, 0x00] = .ok is := ⟨_, by cbv⟩
  have hswitch : ∃ js, decode switchCode = .ok js := ⟨_, by cbv⟩
  have hwide : decode [0xc4, 0x60] = .error (.malformed (.notWidenable ⟨0x60, by decide⟩ 1)) := by
    cbv
  obtain ⟨is, his⟩ := hfront
  obtain ⟨js, hjs⟩ := hswitch
  refine ⟨is, js, his, hjs, ?_, hwide, ?_⟩
  · exact ((decode_append (by decide) (by decide) his).1 js hjs).1
  · exact (decode_append (b := [0xc4, 0x60]) (by decide) (by decide) his).2 _ hwide

/-- Behind a single byte, a switch that was padded by three is padded by two, and its bounds are
    other numbers. -/
example :
    let switch : List UInt8 := [0xaa, 0x00, 0x00, 0x00, 0x00, 0x00, 0x00, 0x14,
      0x00, 0x00, 0x00, 0x05, 0x00, 0x00, 0x00, 0x05, 0x00, 0x00, 0x00, 0x13]
    decode switch = .ok [⟨0, ⟨0xaa, by decide⟩, .switch ⟨20, [(5, 19)]⟩, 20⟩] ∧
      decode (0x00 :: switch) =
        .error (.malformed (.tableSwitchBounds 0x14000000 0x05000000 1)) := by
  cbv
  exact ⟨rfl, rfl⟩

end Instruction

end JavaClass
