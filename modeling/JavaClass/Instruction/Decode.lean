/-
  Decoding code arrays.

  `Instruction.scan` reads the instruction at the cursor; `Instruction.decode` reads a whole code
  array, instruction after instruction, until nothing is left.  Every instruction has an op code,
  so every step uses up at least one byte (`remaining_lt_of_scan`), which is what ends the loop.
-/
import JavaClass.Instruction.Basic
import JavaClass.ReadError

namespace JavaClass

open Scan

/-- The longest code array that a method may have. -/
def maxCodeLength : Nat := 65535

/-- The op code at the cursor.  A byte that is none is not passed. -/
def OpCode.scan : Scan ReadError OpCode := do
  let offset ← position
  let byte ← peek
  let op ← ofOption (.unknownOpCode byte offset) (ofByte? byte)
  let _ ← u8
  return op

namespace SwitchTable

/-- Passes the bytes up to the next offset that is a multiple of four. -/
def skipPadding : Scan ScanError Unit := do
  let offset ← position
  -- offsets count from the start of the code array, not from the switch
  let _ ← bytes ((4 - offset % 4) % 4)
  return ()

/-- The table of the table switch at the offset `start`: the default jump, the lowest and the
    highest key, and one jump for every key from the lowest to the highest. -/
def scanRange (start : Nat) : Scan ReadError SwitchTable := do
  skipPadding
  let default ← i32
  let low ← i32
  let high ← i32
  require (low.toInt ≤ high.toInt) (.malformed (.tableSwitchBounds low high start))
  let jumps ← times (high.toInt - low.toInt + 1).toNat i32
  let targets := jumps.zipIdx.map fun (jump, i) => (Int32.ofInt (low.toInt + i), jump)
  return { default, targets }

/-- A key and its jump. -/
def scanTarget : Scan ScanError (Int32 × Int32) := do
  let key ← i32
  let jump ← i32
  return (key, jump)

/-- The table of the lookup switch at the offset `start`: the default jump and a counted list of
    keys with their jumps. -/
def scanPairs (start : Nat) : Scan ReadError SwitchTable := do
  skipPadding
  let default ← i32
  let count ← i32
  -- a count is a signed number
  require (0 ≤ count.toInt) (.malformed (.lookupSwitchCount count start))
  let targets ← times count.toInt.toNat scanTarget
  return { default, targets }

end SwitchTable

namespace Instruction

/-- The widened instruction behind the op code that widens it. -/
def scanWidened : Scan ReadError Operands := do
  let offset ← position
  -- what is wrong with the op code is reported at its own offset, not at that of the prefix
  let op ← OpCode.scan
  require op.isWidenable (.malformed (.notWidenable op offset))
  let slot ← u16
  if op.layout = .increment then
    let increment ← i16
    return .wide op slot (some increment)
  else return .wide op slot none

/-- The operands of a layout, for an instruction that starts at the offset `start`. -/
def scanOperands (start : Nat) : Layout → Scan ReadError Operands
  | .nothing => return .none
  | .signedByte => do
    let value ← i8
    return .one (.immediate value.toInt32)
  | .signedShort => do
    let value ← i16
    return .one (.immediate value.toInt32)
  | .constantByte => do
    let index ← u8
    return .one (.constant index.toUInt16)
  | .constant => do
    let index ← u16
    return .one (.constant index)
  | .localSlot => do
    let slot ← u8
    return .one (.localSlot slot.toUInt16)
  | .branch => do
    let jump ← i16
    return .one (.branch jump.toInt32)
  | .branchWide => do
    let jump ← i32
    return .one (.branch jump)
  | .elementType => do
    let code ← u8
    return .one (.elementType code)
  | .increment => do
    let slot ← u8
    let value ← i8
    return .two (.localSlot slot.toUInt16) (.immediate value.toInt32)
  | .interfaceCall => do
    let index ← u16
    let count ← u8
    let _ ← u8
    return .two (.constant index) (.immediate count.toUInt32.toInt32)
  | .dynamicCall => do
    let index ← u16
    let _ ← u16
    return .one (.constant index)
  | .multiArray => do
    let index ← u16
    let dimensions ← u8
    return .two (.constant index) (.immediate dimensions.toUInt32.toInt32)
  | .tableSwitch => do
    let table ← SwitchTable.scanRange start
    return .switch table
  | .lookupSwitch => do
    let table ← SwitchTable.scanPairs start
    return .switch table
  | .widened => scanWidened

/-- An offset as the 16-bit word that it is in every code array of permitted length. -/
def checkedOffset (offset : Nat) : Except ReadError UInt16 :=
  if offset < 65536 then .ok (UInt16.ofNat offset)
  else .error (.malformed (.offsetRange offset))

/-- The instruction at the cursor. -/
def scan : Scan ReadError Instruction := do
  let start ← position
  let op ← OpCode.scan
  let operands ← scanOperands start op.layout
  let offset ← Scan.ofExcept (checkedOffset start)
  let stop ← position
  return { offset, op, operands, length := stop - start }

/-! ## Every instruction uses up its op code

  No scan moves back, which is seen from the scans that it is made of.  The op code moves ahead by
  its own byte, and the operands are behind it. -/

theorem remaining_of_opCode {c c' : Cursor} {op : OpCode} (h : OpCode.scan c = .ok op c') :
    c'.remaining < c.remaining := by
  obtain ⟨offset, c₁, h₁, h⟩ := bind_eq_ok.1 h
  obtain ⟨byte, c₂, h₂, h⟩ := bind_eq_ok.1 h
  obtain ⟨op', c₃, h₃, h⟩ := bind_eq_ok.1 h
  obtain ⟨byte', c₄, h₄, h⟩ := bind_eq_ok.1 h
  have h₁ := forward_position.remaining_le h₁
  have h₂ := forward_peek.lift.remaining_le h₂
  have h₃ := (forward_ofOption _ _).remaining_le h₃
  have h₄ := remaining_of_u8 (mapError_eq_ok.1 h₄)
  cases h
  omega

theorem forward_opCode : Forward OpCode.scan :=
  forward_position.bind fun _ => forward_peek.lift.bind fun _ =>
    (forward_ofOption _ _).bind fun _ => forward_u8.lift.bind fun _ => .pure _

theorem forward_skipPadding : Forward SwitchTable.skipPadding :=
  forward_position.bind fun _ => (forward_bytes _).bind fun _ => .pure _

theorem forward_scanRange (start : Nat) : Forward (SwitchTable.scanRange start) :=
  forward_skipPadding.lift.bind fun _ => forward_i32.lift.bind fun _ =>
    forward_i32.lift.bind fun _ => forward_i32.lift.bind fun _ =>
    (forward_require _ _).bind fun _ => (forward_i32.lift.times _).bind fun _ => .pure _

theorem forward_scanTarget : Forward SwitchTable.scanTarget :=
  forward_i32.bind fun _ => forward_i32.bind fun _ => .pure _

theorem forward_scanPairs (start : Nat) : Forward (SwitchTable.scanPairs start) :=
  forward_skipPadding.lift.bind fun _ => forward_i32.lift.bind fun _ =>
    forward_i32.lift.bind fun _ => (forward_require _ _).bind fun _ =>
    (forward_scanTarget.lift.times _).bind fun _ => .pure _

theorem forward_scanWidened : Forward scanWidened :=
  forward_position.bind fun _ => forward_opCode.bind fun op =>
    (forward_require _ _).bind fun _ => forward_u16.lift.bind fun _ => by
      by_cases h : op.layout = .increment
      · simp only [h, if_true]
        exact forward_i16.lift.bind fun _ => .pure _
      · simp only [h, if_false]
        exact .pure _

theorem forward_scanOperands (start : Nat) (layout : Layout) :
    Forward (scanOperands start layout) := by
  cases layout with
  | nothing => exact .pure _
  | signedByte => exact forward_i8.lift.bind fun _ => .pure _
  | signedShort => exact forward_i16.lift.bind fun _ => .pure _
  | constantByte => exact forward_u8.lift.bind fun _ => .pure _
  | constant => exact forward_u16.lift.bind fun _ => .pure _
  | localSlot => exact forward_u8.lift.bind fun _ => .pure _
  | branch => exact forward_i16.lift.bind fun _ => .pure _
  | branchWide => exact forward_i32.lift.bind fun _ => .pure _
  | elementType => exact forward_u8.lift.bind fun _ => .pure _
  | increment => exact forward_u8.lift.bind fun _ => forward_i8.lift.bind fun _ => .pure _
  | interfaceCall =>
    exact forward_u16.lift.bind fun _ => forward_u8.lift.bind fun _ =>
      forward_u8.lift.bind fun _ => .pure _
  | dynamicCall => exact forward_u16.lift.bind fun _ => forward_u16.lift.bind fun _ => .pure _
  | multiArray => exact forward_u16.lift.bind fun _ => forward_u8.lift.bind fun _ => .pure _
  | tableSwitch => exact (forward_scanRange start).bind fun _ => .pure _
  | lookupSwitch => exact (forward_scanPairs start).bind fun _ => .pure _
  | widened => exact forward_scanWidened

/-- Behind an instruction fewer bytes are left than before it. -/
theorem remaining_lt_of_scan {c c' : Cursor} {i : Instruction} (h : scan c = .ok i c') :
    c'.remaining < c.remaining := by
  obtain ⟨start, c₁, h₁, h⟩ := bind_eq_ok.1 h
  obtain ⟨op, c₂, h₂, h⟩ := bind_eq_ok.1 h
  obtain ⟨operands, c₃, h₃, h⟩ := bind_eq_ok.1 h
  obtain ⟨offset, c₄, h₄, h⟩ := bind_eq_ok.1 h
  have h₁ := forward_position.remaining_le h₁
  have h₂ := remaining_of_opCode h₂
  have h₃ := (forward_scanOperands _ _).remaining_le h₃
  have h₄ := (forward_ofExcept _).remaining_le h₄
  cases h
  omega

/-! ## Whole code arrays

  The loop has no bound of its own.  It ends since every instruction leaves fewer bytes than there
  were. -/

/-- The instructions from the cursor to the end of the code, after those in `done` (latest first). -/
def decodeAfter (done : List Instruction) (c : Cursor) : Except ReadError (List Instruction) :=
  if c.atEnd then .ok done.reverse
  else
    match _h : scan c with
    | .ok i c' => decodeAfter (i :: done) c'
    | .error e _ => .error e
termination_by c.remaining
decreasing_by exact remaining_lt_of_scan _h

/-- The instructions of a code array, which cover it from its first byte to its last. -/
def decode (code : List UInt8) : Except ReadError (List Instruction) :=
  if maxCodeLength < code.length then .error (.malformed (.codeTooLong code.length))
  else decodeAfter [] (Cursor.start code)

end Instruction

end JavaClass
