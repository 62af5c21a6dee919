/-
  The instruction set.

  An instruction starts with an op code byte.  The bytes 0x00 … 0xc9 are op codes, and one table,
  in byte order, gives the mnemonic of each and the layout of the operands behind it; whatever
  differs between instructions is read off their layouts, so no instruction is named anywhere else.
-/

namespace JavaClass

/-- What follows an op code. -/
inductive Layout where
  /-- The op code is the whole instruction. -/
  | nothing
  /-- A signed 8-bit number. -/
  | signedByte
  /-- A signed 16-bit number. -/
  | signedShort
  /-- An 8-bit index of a constant. -/
  | constantByte
  /-- A 16-bit index of a constant. -/
  | constant
  /-- An 8-bit index of a local variable. -/
  | localSlot
  /-- A signed 16-bit jump, relative to the op code. -/
  | branch
  /-- A signed 32-bit jump, relative to the op code. -/
  | branchWide
  /-- An 8-bit code of a primitive type. -/
  | elementType
  /-- An 8-bit index of a local variable and a signed 8-bit number to add to it. -/
  | increment
  /-- A 16-bit index of a constant, an 8-bit count of arguments, one byte of no meaning. -/
  | interfaceCall
  /-- A 16-bit index of a constant, two bytes of no meaning. -/
  | dynamicCall
  /-- A 16-bit index of a constant and an 8-bit count of dimensions. -/
  | multiArray
  /-- Padding, then a default jump, the bounds of the keys, and a jump for each key between them. -/
  | tableSwitch
  /-- Padding, then a default jump and a counted list of keys with jumps. -/
  | lookupSwitch
  /-- Another op code, whose operands are twice as wide as usual. -/
  | widened
deriving DecidableEq, Repr

/-- How many bytes of operands a layout has, unless that depends on the operands. -/
def Layout.length? : Layout → Option Nat
  | .nothing => some 0
  | .signedByte | .constantByte | .localSlot | .elementType => some 1
  | .signedShort | .constant | .branch | .increment => some 2
  | .multiArray => some 3
  | .branchWide | .interfaceCall | .dynamicCall => some 4
  | .tableSwitch | .lookupSwitch | .widened => none

/-- The instructions in the order of their op code bytes: mnemonic and layout of each. -/
def instructionSet : Array (String × Layout) := #[
  -- 0x00
  ("nop", .nothing), ("aconst_null", .nothing), ("iconst_m1", .nothing), ("iconst_0", .nothing),
  ("iconst_1", .nothing), ("iconst_2", .nothing), ("iconst_3", .nothing), ("iconst_4", .nothing),
  -- 0x08
  ("iconst_5", .nothing), ("lconst_0", .nothing), ("lconst_1", .nothing), ("fconst_0", .nothing),
  ("fconst_1", .nothing), ("fconst_2", .nothing), ("dconst_0", .nothing), ("dconst_1", .nothing),
  -- 0x10
  ("bipush", .signedByte), ("sipush", .signedShort), ("ldc", .constantByte),
  ("ldc_w", .constant), ("ldc2_w", .constant), ("iload", .localSlot), ("lload", .localSlot),
  ("fload", .localSlot),
  -- 0x18
  ("dload", .localSlot), ("aload", .localSlot), ("iload_0", .nothing), ("iload_1", .nothing),
  ("iload_2", .nothing), ("iload_3", .nothing), ("lload_0", .nothing), ("lload_1", .nothing),
  -- 0x20
  ("lload_2", .nothing), ("lload_3", .nothing), ("fload_0", .nothing), ("fload_1", .nothing),
  ("fload_2", .nothing), ("fload_3", .nothing), ("dload_0", .nothing), ("dload_1", .nothing),
  -- 0x28
  ("dload_2", .nothing), ("dload_3", .nothing), ("aload_0", .nothing), ("aload_1", .nothing),
  ("aload_2", .nothing), ("aload_3", .nothing), ("iaload", .nothing), ("laload", .nothing),
  -- 0x30
  ("faload", .nothing), ("daload", .nothing), ("aaload", .nothing), ("baload", .nothing),
  ("caload", .nothing), ("saload", .nothing), ("istore", .localSlot), ("lstore", .localSlot),
  -- 0x38
  ("fstore", .localSlot), ("dstore", .localSlot), ("astore", .localSlot), ("istore_0", .nothing),
  ("istore_1", .nothing), ("istore_2", .nothing), ("istore_3", .nothing), ("lstore_0", .nothing),
  -- 0x40
  ("lstore_1", .nothing), ("lstore_2", .nothing), ("lstore_3", .nothing), ("fstore_0", .nothing),
  ("fstore_1", .nothing), ("fstore_2", .nothing), ("fstore_3", .nothing), ("dstore_0", .nothing),
  -- 0x48
  ("dstore_1", .nothing), ("dstore_2", .nothing), ("dstore_3", .nothing), ("astore_0", .nothing),
  ("astore_1", .nothing), ("astore_2", .nothing), ("astore_3", .nothing), ("iastore", .nothing),
  -- 0x50
  ("lastore", .nothing), ("fastore", .nothing), ("dastore", .nothing), ("aastore", .nothing),
  ("bastore", .nothing), ("castore", .nothing), ("sastore", .nothing), ("pop", .nothing),
  -- 0x58
  ("pop2", .nothing), ("dup", .nothing), ("dup_x1", .nothing), ("dup_x2", .nothing),
  ("dup2", .nothing), ("dup2_x1", .nothing), ("dup2_x2", .nothing), ("swap", .nothing),
  -- 0x60
  ("iadd", .nothing), ("ladd", .nothing), ("fadd", .nothing), ("dadd", .nothing),
  ("isub", .nothing), ("lsub", .nothing), ("fsub", .nothing), ("dsub", .nothing),
  -- 0x68
  ("imul", .nothing), ("lmul", .nothing), ("fmul", .nothing), ("dmul", .nothing),
  ("idiv", .nothing), ("ldiv", .nothing), ("fdiv", .nothing), ("ddiv", .nothing),
  -- 0x70
  ("irem", .nothing), ("lrem", .nothing), ("frem", .nothing), ("drem", .nothing),
  ("ineg", .nothing), ("lneg", .nothing), ("fneg", .nothing), ("dneg", .nothing),
  -- 0x78
  ("ishl", .nothing), ("lshl", .nothing), ("ishr", .nothing), ("lshr", .nothing),
  ("iushr", .nothing), ("lushr", .nothing), ("iand", .nothing), ("land", .nothing),
  -- 0x80
  ("ior", .nothing), ("lor", .nothing), ("ixor", .nothing), ("lxor", .nothing),
  ("iinc", .increment), ("i2l", .nothing), ("i2f", .nothing), ("i2d", .nothing),
  -- 0x88
  ("l2i", .nothing), ("l2f", .nothing), ("l2d", .nothing), ("f2i", .nothing), ("f2l", .nothing),
  ("f2d", .nothing), ("d2i", .nothing), ("d2l", .nothing),
  -- 0x90
  ("d2f", .nothing), ("i2b", .nothing), ("i2c", .nothing), ("i2s", .nothing), ("lcmp", .nothing),
  ("fcmpl", .nothing), ("fcmpg", .nothing), ("dcmpl", .nothing),
  -- 0x98
  ("dcmpg", .nothing), ("ifeq", .branch), ("ifne", .branch), ("iflt", .branch),
  ("ifge", .branch), ("ifgt", .branch), ("ifle", .branch), ("if_icmpeq", .branch),
  -- 0xa0
  ("if_icmpne", .branch), ("if_icmplt", .branch), ("if_icmpge", .branch), ("if_icmpgt", .branch),
  ("if_icmple", .branch), ("if_acmpeq", .branch), ("if_acmpne", .branch), ("goto", .branch),
  -- 0xa8
  ("jsr", .branch), ("ret", .localSlot), ("tableswitch", .tableSwitch),
  ("lookupswitch", .lookupSwitch), ("ireturn", .nothing), ("lreturn", .nothing),
  ("freturn", .nothing), ("dreturn", .nothing),
  -- 0xb0
  ("areturn", .nothing), ("return", .nothing), ("getstatic", .constant),
  ("putstatic", .constant), ("getfield", .constant), ("putfield", .constant),
  ("invokevirtual", .constant), ("invokespecial", .constant),
  -- 0xb8
  ("invokestatic", .constant), ("invokeinterface", .interfaceCall),
  ("invokedynamic", .dynamicCall), ("new", .constant), ("newarray", .elementType),
  ("anewarray", .constant), ("arraylength", .nothing), ("athrow", .nothing),
  -- 0xc0
  ("checkcast", .constant), ("instanceof", .constant), ("monitorenter", .nothing),
  ("monitorexit", .nothing), ("wide", .widened), ("multianewarray", .multiArray),
  ("ifnull", .branch), ("ifnonnull", .branch),
  -- 0xc8
  ("goto_w", .branchWide), ("jsr_w", .branchWide)]

set_option maxRecDepth 2000 in
/-- There are 202 instructions, 0x00 … 0xc9. -/
theorem size_instructionSet : instructionSet.size = 0xca := rfl

/-- A byte that is the op code of an instruction. -/
structure OpCode where
  byte : UInt8
  assigned : byte.toNat < 0xca
deriving DecidableEq

namespace OpCode

/-- The table's row of an instruction. -/
def row (op : OpCode) : String × Layout :=
  have : op.byte.toNat < instructionSet.size := size_instructionSet ▸ op.assigned
  instructionSet[op.byte.toNat]

/-- The op code that a byte is, if it is one. -/
def ofByte? (byte : UInt8) : Option OpCode :=
  if assigned : byte.toNat < 0xca then some ⟨byte, assigned⟩ else none

/-- The name of an instruction. -/
def mnemonic (op : OpCode) : String := op.row.1

/-- The layout of an instruction's operands. -/
def layout (op : OpCode) : Layout := op.row.2

/-- Whether the operands of an instruction can be widened: those that name a local variable. -/
def isWidenable (op : OpCode) : Bool := op.layout = .localSlot || op.layout = .increment

/-- Every op code is read back from its byte. -/
theorem ofByte?_byte (op : OpCode) : ofByte? op.byte = some op := dif_pos op.assigned

/-- A byte is read as an op code exactly if it is the byte of that op code. -/
theorem ofByte?_eq_some {byte : UInt8} {op : OpCode} : ofByte? byte = some op ↔ op.byte = byte := by
  constructor
  · intro h
    unfold ofByte? at h
    split at h
    · cases h; rfl
    · cases h
  · rintro rfl
    exact ofByte?_byte op

/-- The bytes above 0xc9 are no op codes. -/
theorem ofByte?_eq_none {byte : UInt8} : ofByte? byte = none ↔ 0xca ≤ byte.toNat := by
  unfold ofByte?
  split <;> simp_all

instance : Repr OpCode := ⟨fun op _ => op.mnemonic⟩

end OpCode

/-- The primitive type that a code stands for as the element type of a new array. -/
def elementTypeName? (code : UInt8) : Option String :=
  [(4, "boolean"), (5, "char"), (6, "float"), (7, "double"),
   (8, "byte"), (9, "short"), (10, "int"), (11, "long")].lookup code

end JavaClass
