/-
  Instructions of a code array.

  An instruction stands at an offset of its code array, which has at most 65535 bytes, so offsets
  are 16-bit words.  Jumps are kept relative to the instruction, as they are stored; the absolute
  place a jump leads to is an integer, since nothing keeps a jump inside its code array.
-/
import JavaClass.Instruction.OpCode

namespace JavaClass

/-- One operand. -/
inductive Operand where
  /-- A number that is meant literally. -/
  | immediate (value : Int32)
  /-- An index of the constant pool. -/
  | constant (index : UInt16)
  /-- An index of a local variable. -/
  | localSlot (index : UInt16)
  /-- A jump, relative to the instruction. -/
  | branch (offset : Int32)
  /-- The code of a primitive type. -/
  | elementType (code : UInt8)
deriving DecidableEq, Repr

/-- A jump for each of several keys, and one for all other keys. -/
structure SwitchTable where
  default : Int32
  /-- Keys with their jumps, in the order in which they are stored. -/
  targets : List (Int32 × Int32)
deriving DecidableEq, Repr

/-- The operands of an instruction. -/
inductive Operands where
  | none
  | one (operand : Operand)
  | two (first second : Operand)
  | switch (table : SwitchTable)
  /-- A widened instruction: its op code, a local variable, and what is added to it if anything. -/
  | wide (op : OpCode) (slot : UInt16) (increment : Option Int16)
deriving DecidableEq, Repr

/-- An instruction in its place in a code array. -/
structure Instruction where
  offset : UInt16
  op : OpCode
  operands : Operands
  /-- How many bytes the instruction takes, op code and padding included. -/
  length : Nat
deriving DecidableEq, Repr

/-- The offset that lies `delta` bytes from `offset`, if it is one. -/
def jumpTarget? (offset : UInt16) (delta : Int32) : Option UInt16 :=
  let target := (offset.toNat : Int) + delta.toInt
  if 0 ≤ target ∧ target < 65536 then some (UInt16.ofNat target.toNat) else none

namespace Instruction

/-- The offset of the instruction behind this one. -/
def next (i : Instruction) : Nat := i.offset.toNat + i.length

/-- The constant that an instruction refers to. -/
def constantIndex? (i : Instruction) : Option UInt16 :=
  match i.operands with
  | .one (.constant index) | .two (.constant index) _ => some index
  | _ => none

/-- The offset that a branch leads to.  Switches have no single target. -/
def branchTarget? (i : Instruction) : Option UInt16 :=
  match i.operands with
  | .one (.branch delta) => jumpTarget? i.offset delta
  | _ => none

/-- Where a jump of this instruction leads to, inside the code array or not. -/
def absolute (i : Instruction) (delta : Int32) : Int := i.offset.toNat + delta.toInt

/-! ## The text of an instruction -/

/-- The text of an operand: jumps lead to absolute places, constants are marked by `#`. -/
def operandText (i : Instruction) : Operand → String
  | .immediate value => toString value.toInt
  | .constant index => s!"#{index}"
  | .localSlot index => toString index
  | .branch delta => toString (i.absolute delta)
  | .elementType code => (elementTypeName? code).getD (toString code)

/-- The text of a switch table, keys in order and the default last. -/
def switchText (i : Instruction) (table : SwitchTable) : String :=
  let cases := table.targets.map fun (key, delta) => s!"{key.toInt}: {i.absolute delta}"
  ", ".intercalate (cases ++ [s!"default: {i.absolute table.default}"])

/-- The text of the operands, with the blank that parts it from the mnemonic. -/
def operandsText (i : Instruction) : String :=
  match i.operands with
  | .none => ""
  | .one operand => " " ++ i.operandText operand
  | .two first second => " " ++ i.operandText first ++ ", " ++ i.operandText second
  | .switch table => " \x7b " ++ i.switchText table ++ " \x7d"
  | .wide op slot increment =>
    let added := match increment with
      | some increment => s!", {increment.toInt}"
      | none => ""
    s!" {op.mnemonic} {slot}" ++ added

/-- The text of an instruction: offset, mnemonic, operands. -/
def text (i : Instruction) : String := s!"{i.offset}: {i.op.mnemonic}" ++ i.operandsText

end Instruction

end JavaClass
