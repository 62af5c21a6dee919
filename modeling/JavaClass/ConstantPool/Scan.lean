/-
  Reading a constant pool.

  A pool starts with a 16-bit count that includes a slot 0 that does not exist, so a count of `n`
  is followed by constants for the slots 1 … n - 1, and a count of 0 reads like a count of 1.  A
  long or double constant in the last of them would need a slot that the count does not provide.
-/
import JavaClass.ReadError

namespace JavaClass

open Scan
open Constant (Tag)

namespace Constant

/-- What follows a tag byte. -/
def scanBody : Tag → Scan ScanError Constant
  | .utf8 => do
    let length ← u16
    return .utf8 (← Scan.text length.toNat)
  | .integer => return .integer (← i32)
  | .float => return .float (← u32)
  | .long => return .long (← i64)
  | .double => return .double (← u64)
  | .classRef => return .classRef (← u16)
  | .string => return .string (← u16)
  | .fieldRef => return .fieldRef (← u16) (← u16)
  | .methodRef => return .methodRef (← u16) (← u16)
  | .interfaceMethodRef => return .interfaceMethodRef (← u16) (← u16)
  | .nameAndType => return .nameAndType (← u16) (← u16)
  | .methodHandle => return .methodHandle (← u8) (← u16)
  | .methodType => return .methodType (← u16)
  | .dynamic => return .dynamic (← u16) (← u16)
  | .invokeDynamic => return .invokeDynamic (← u16) (← u16)
  | .moduleRef => return .moduleRef (← u16)
  | .packageRef => return .packageRef (← u16)

/-- The constant at the cursor, which is to have the given index. -/
def scan (index : UInt16) : Scan ReadError Constant := do
  let byte ← u8
  let tag ← ofOption (.unsupportedTag byte index) (Tag.ofByte? byte)
  scanBody tag

end Constant

namespace ConstantPool

/-- Reads constants into the pool until the slot `index` reaches the declared count.  The slot
    where that happens is returned with the pool. -/
def scanFrom (count : Nat) (index : Nat) (pool : ConstantPool) :
    Scan ReadError (ConstantPool × Nat) :=
  if index < count then do
    let constant ← Constant.scan (UInt16.ofNat index)
    have := constant.slots_pos
    scanFrom count (index + constant.slots) (pool.add constant)
  else return (pool, index)
termination_by count - index

/-- The constant pool at the cursor. -/
def scan : Scan ReadError ConstantPool := do
  let count ← u16
  let (pool, index) ← scanFrom count.toNat 1 empty
  require (count = 0 ∨ index = count.toNat) (.malformed (.poolSlots count.toNat index))
  return pool

end ConstantPool

end JavaClass
