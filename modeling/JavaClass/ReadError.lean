/-
  Why a class file, or the code of one of its methods, could not be read.

  A failure is kept as its cause; the wording lies in `message` alone.  None of the causes is
  recoverable: a class file that fails to be read yields no partial class.
-/
import JavaClass.Bytes.Scan
import JavaClass.ConstantPool.Basic
import JavaClass.Instruction.OpCode
import JavaClass.Text.Hex

namespace JavaClass

open Constant (Tag)

/-- A rule of the class file format that the bytes break. -/
inductive Violation where
  /-- The bytes from this offset on are the encoding of no text. -/
  | text (position : Nat)
  /-- The last constant of the pool takes a slot more than the pool declares. -/
  | poolSlots (declared taken : Nat)
  /-- A method's code array is empty, or longer than 65535 bytes. -/
  | codeLength (length : Nat)
  /-- A code attribute does not have the length it declares. -/
  | codeAttributeLength (declared actual : Nat)
  /-- A line number table is not a count followed by that many entries. -/
  | lineNumberTable
  /-- A code array to be decoded has more than 65535 bytes. -/
  | codeTooLong (length : Nat)
  /-- An instruction starts beyond the reach of a 16-bit offset. -/
  | offsetRange (position : Nat)
  /-- The lowest key of a table switch is above its highest. -/
  | tableSwitchBounds (low high : Int32) (offset : Nat)
  /-- The number of keys of a lookup switch is negative. -/
  | lookupSwitchCount (count : Int32) (offset : Nat)
  /-- The instruction cannot be widened. -/
  | notWidenable (op : OpCode) (offset : Nat)
  /-- The source file attribute is not a single index. -/
  | sourceFile
  /-- The constant value attribute of this field is not a single index. -/
  | constantValue (field : String)
  /-- The constant value of a field is of a kind that no field can have. -/
  | constantValueTag (tag : Tag)
deriving DecidableEq, Repr

/-- The wording of a broken rule. -/
def Violation.message : Violation → String
  | .text position => s!"invalid cesu8 string at offset {position}"
  | .poolSlots declared taken =>
    s!"constant pool declares {declared} slots but its entries take {taken}"
  | .codeLength length => s!"invalid code length: {length}"
  | .codeAttributeLength declared actual =>
    s!"Code attribute length mismatch: declared {declared}, actual {actual}"
  | .lineNumberTable => "invalid LineNumberTable attribute"
  | .codeTooLong length => s!"code array is {length} bytes long, the maximum is 65535"
  | .offsetRange position => s!"offset {position} out of range"
  | .tableSwitchBounds low high offset =>
    s!"invalid tableswitch bounds {low.toInt}..{high.toInt} at offset {offset}"
  | .lookupSwitchCount count offset =>
    s!"invalid lookupswitch pairs count {count.toInt} at offset {offset}"
  | .notWidenable op offset => s!"{op.mnemonic} at offset {offset} cannot be modified by wide"
  | .sourceFile => "invalid SourceFile attribute"
  | .constantValue field => s!"invalid ConstantValue attribute of field {field}"
  | .constantValueTag tag => s!"invalid type for ConstantValue: {tag.name}"

/-- Why a class file, or the code of one of its methods, could not be read. -/
inductive ReadError where
  /-- Fewer bytes are left than the next item takes. -/
  | endOfInput (position requested available : Nat)
  /-- The first four bytes are not those of a class file. -/
  | notAClassFile (magic : UInt32)
  /-- The entry of the constant pool at this index has a tag that is none. -/
  | unsupportedTag (tag : UInt8) (index : UInt16)
  /-- An index does not lead to the constant it should. -/
  | reference (error : ReferenceError)
  /-- The byte at this offset is no op code. -/
  | unknownOpCode (byte : UInt8) (offset : Nat)
  /-- The class has no such method. -/
  | methodNotFound (name descriptor : String)
  /-- The class has no such field. -/
  | fieldNotFound (name : String)
  /-- The bytes break a rule of the format. -/
  | malformed (violation : Violation)
  /-- The code of a method, given by name and descriptor, cannot be decoded. -/
  | methodCode (method : String) (cause : ReadError)
deriving DecidableEq, Repr

namespace ReadError

/-- The wording of a failure. -/
def message : ReadError → String
  | .endOfInput position requested available =>
    s!"unexpected end of input at offset {position}: " ++
      s!"needed {requested} bytes, {available} available"
  | .notAClassFile magic =>
    "not a class file: invalid magic number " ++ Text.hexLiteral 8 magic.toNat
  | .unsupportedTag tag index => s!"unsupported constant pool tag {tag} for entry #{index}"
  | .reference error => error.message
  | .unknownOpCode byte offset =>
    "unknown op code " ++ Text.hexLiteral 2 byte.toNat ++ s!" at offset {offset}"
  | .methodNotFound name descriptor => s!"method not found: {name}{descriptor}"
  | .fieldNotFound name => s!"field not found: {name}"
  | .malformed violation => "invalid class file: " ++ violation.message
  | .methodCode method cause => s!"invalid code in method {method}: " ++ cause.message

/-- A failure to read a value off the input, as a failure to read the class file. -/
def ofScan : ScanError → ReadError
  | .endOfData position requested available => .endOfInput position requested available
  | .invalidText position => .malformed (.text position)

end ReadError

/-- The scans of the class file format use those of plain values. -/
instance : MonadLift (Scan ScanError) (Scan ReadError) := ⟨Scan.mapError .ofScan⟩

/-- A resolved reference, as a step of a scan. -/
def Scan.resolve {α : Type} (result : Except ReferenceError α) : Scan ReadError α :=
  Scan.ofExcept (result.mapError .reference)

/-- Lifting a scan keeps its direction. -/
theorem Scan.Forward.lift {α : Type} {scan : Scan ScanError α} (h : scan.Forward) :
    Scan.Forward (liftM scan : Scan ReadError α) := h.mapError _

end JavaClass
