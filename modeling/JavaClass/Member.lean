/-
  Members of a class: its fields and its methods.
-/
import JavaClass.AccessFlags
import JavaClass.Code.Basic
import JavaClass.ConstantPool.Reference

namespace JavaClass

/-! ## Fields -/

/-- A field of a class.  Name and descriptor are stored as indexes of texts of the pool. -/
structure Field where
  accessFlags : UInt16
  nameIndex : UInt16
  descriptorIndex : UInt16
  name : String
  descriptor : String
  attributes : List Attribute
deriving DecidableEq, Repr

/-- The value of a constant field. -/
inductive FieldConstant where
  | int (value : Int32)
  /-- A single-precision number, as its bit pattern. -/
  | float (bits : UInt32)
  | long (value : Int64)
  /-- A double-precision number, as its bit pattern. -/
  | double (bits : UInt64)
  | string (value : String)
deriving DecidableEq, Repr

namespace Field

/-- The flags of a field, as text. -/
def flagsText (f : Field) : String := FlagNames.ofField.text f.accessFlags

/-- The text of a field. -/
def text (f : Field) : String := f.name ++ ":" ++ f.descriptor

/-- The value that a constant of the pool gives to a field. -/
def constantAt (pool : ConstantPool) (index : UInt16) : Except ReadError FieldConstant := do
  match ← (pool.get index).mapError .reference with
  | .integer value => return .int value
  | .float bits => return .float bits
  | .long value => return .long value
  | .double bits => return .double bits
  | .string _ => return .string (← (pool.string index).mapError .reference)
  | other => throw (.malformed (.constantValueTag other.tag))

/-- The value of a constant field; other fields have none. -/
def constantValue (f : Field) (pool : ConstantPool) : Except ReadError (Option FieldConstant) :=
  match Attribute.named? f.attributes "ConstantValue" with
  | none => return none
  | some holder =>
    match holder.index? with
    | none => throw (.malformed (.constantValue f.name))
    | some index => return some (← constantAt pool index)

end Field

/-! ## Methods -/

/-- A method of a class.  Name and descriptor are stored as indexes of texts of the pool. -/
structure Method where
  accessFlags : UInt16
  nameIndex : UInt16
  descriptorIndex : UInt16
  name : String
  descriptor : String
  /-- The attributes that are not code. -/
  attributes : List Attribute
  /-- Abstract and native methods have no code. -/
  code : Option Code
deriving DecidableEq, Repr

namespace Method

/-- The flags of a method, as text. -/
def flagsText (m : Method) : String := FlagNames.ofMethod.text m.accessFlags

/-- What tells a method from the others of its class: name and descriptor. -/
def signature (m : Method) : String := m.name ++ m.descriptor

/-- The text of a method. -/
def text (m : Method) : String := m.flagsText ++ " " ++ m.signature

/-- The instructions of a method; one without code has none. -/
def instructions (m : Method) : Except ReadError (List Instruction) :=
  match m.code with
  | none => return []
  | some code => code.instructions.mapError (.methodCode m.signature)

/-- The source line of an offset of the method's code. -/
def line? (m : Method) (pc : UInt16) : Option UInt16 := do
  (← (← m.code).lines).lookup pc

/-- The exception handler of an offset of the method's code. -/
def handler? (m : Method) (pc : UInt16) : Option ExceptionHandler := do
  (← m.code).handlers.lookup pc

end Method

end JavaClass
