/-
  Reading class files.

  A class file is read in one pass, front to back.  Every list is preceded by its 16-bit count and
  every attribute by its 32-bit length.  The names of members and attributes are looked up in the
  constant pool as soon as they are met; all other indexes are taken as they are.  Of the
  attributes only the code of a method is taken apart, and within it only the line numbers.
  Whatever follows the class is ignored.
-/
import JavaClass.ClassFile.Basic
import JavaClass.ConstantPool.Scan

namespace JavaClass

open Scan

/-! ## Attributes -/

namespace Attribute

/-- What precedes the content of an attribute. -/
structure Header where
  nameIndex : UInt16
  name : String
  length : Nat
deriving DecidableEq, Repr

/-- The header of an attribute. -/
def scanHeader (pool : ConstantPool) : Scan ReadError Header := do
  let nameIndex ← u16
  let name ← resolve (pool.utf8 nameIndex)
  let length ← u32
  return { nameIndex, name, length := length.toNat }

/-- The attribute behind a header. -/
def scanContent (header : Header) : Scan ReadError Attribute := do
  let content ← bytes header.length
  return { nameIndex := header.nameIndex, name := header.name, content }

/-- An attribute. -/
def scan (pool : ConstantPool) : Scan ReadError Attribute := do
  scanContent (← scanHeader pool)

/-- A counted list of attributes. -/
def scanAll (pool : ConstantPool) : Scan ReadError (List Attribute) :=
  counted u16 (scan pool)

end Attribute

/-! ## Code -/

/-- An exception handler. -/
def ExceptionHandler.scan : Scan ScanError ExceptionHandler := do
  let start ← u16
  let stop ← u16
  let handler ← u16
  let catchType ← u16
  return { start, stop, handler, catchType := if catchType = 0 then none else some catchType }

namespace Code

/-- The line numbers among the attributes of a method's code: those of the first attribute that
    holds any. -/
def linesOf (attributes : List Attribute) : Except ReadError (Option LineNumberTable) :=
  match Attribute.named? attributes "LineNumberTable" with
  | none => .ok none
  | some holder =>
    match LineNumberTable.ofBytes? holder.content with
    | some table => .ok (some table)
    | none => .error (.malformed .lineNumberTable)

/-- The code of a method, which has to have the length that its attribute declares. -/
def scan (pool : ConstantPool) (declared : Nat) : Scan ReadError Code := do
  let start ← position
  let maxStack ← u16
  let maxLocals ← u16
  let length ← u32
  require (0 < length.toNat ∧ length.toNat ≤ maxCodeLength)
    (.malformed (.codeLength length.toNat))
  let array ← bytes length.toNat
  let handlers ← counted u16 ExceptionHandler.scan
  let attributes ← Attribute.scanAll pool
  let lines ← Scan.ofExcept (linesOf attributes)
  let stop ← position
  require (stop - start = declared) (.malformed (.codeAttributeLength declared (stop - start)))
  return { maxStack, maxLocals, array, handlers, attributes, lines }

end Code

/-! ## Members -/

/-- A field. -/
def Field.scan (pool : ConstantPool) : Scan ReadError Field := do
  let accessFlags ← u16
  let nameIndex ← u16
  let name ← resolve (pool.utf8 nameIndex)
  let descriptorIndex ← u16
  let descriptor ← resolve (pool.utf8 descriptorIndex)
  let attributes ← Attribute.scanAll pool
  return { accessFlags, nameIndex, descriptorIndex, name, descriptor, attributes }

namespace Method

/-- An attribute of a method: its code, or any other. -/
inductive Part where
  | code (code : Code)
  | other (unparsed : Attribute)
deriving DecidableEq, Repr

/-- An attribute of a method, taken apart if it is code. -/
def scanPart (pool : ConstantPool) : Scan ReadError Part := do
  let header ← Attribute.scanHeader pool
  if header.name = "Code" then return .code (← Code.scan pool header.length)
  else return .other (← Attribute.scanContent header)

/-- The attributes that are not code. -/
def attributesOf (parts : List Part) : List Attribute :=
  parts.filterMap fun
    | .other unparsed => some unparsed
    | .code _ => none

/-- The code among the attributes; the last if there are several. -/
def codeOf (parts : List Part) : Option Code :=
  parts.reverse.findSome? fun
    | .code code => some code
    | .other _ => none

/-- A method. -/
def scan (pool : ConstantPool) : Scan ReadError Method := do
  let accessFlags ← u16
  let nameIndex ← u16
  let name ← resolve (pool.utf8 nameIndex)
  let descriptorIndex ← u16
  let descriptor ← resolve (pool.utf8 descriptorIndex)
  let parts ← counted u16 (scanPart pool)
  return { accessFlags, nameIndex, descriptorIndex, name, descriptor,
           attributes := attributesOf parts, code := codeOf parts }

end Method

/-! ## The whole file -/

namespace ClassFile

/-- The four bytes that every class file starts with. -/
def magic : UInt32 := 0xCAFEBABE

/-- A class file. -/
def scan : Scan ReadError ClassFile := do
  let found ← u32
  require (found = magic) (.notAClassFile found)
  let minor ← u16
  let major ← u16
  let constants ← ConstantPool.scan
  let accessFlags ← u16
  let thisClass ← u16
  let superClass ← u16
  let interfaces ← counted u16 u16
  let fields ← counted u16 (Field.scan constants)
  let methods ← counted u16 (Method.scan constants)
  let attributes ← Attribute.scanAll constants
  return { version := { major, minor }, constants, accessFlags, thisClass, superClass, interfaces,
           fields, methods, attributes }

/-- The class in a byte string. -/
def ofBytes (bytes : List UInt8) : Except ReadError ClassFile :=
  match scan (Cursor.start bytes) with
  | .ok classFile _ => .ok classFile
  | .error e _ => .error e

end ClassFile

end JavaClass
