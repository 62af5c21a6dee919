/-
  Following references through a constant pool.

  Each projection wants a constant of one kind at an index and follows that constant's own
  indexes down to texts.  The error is that of the first step that fails: the constant itself
  comes first, a name before its descriptor, and a member's name and type before its class.
-/
import JavaClass.ConstantPool.Basic

namespace JavaClass

open Constant (Tag)

/-- A name with a descriptor. -/
structure NameAndType where
  name : String
  descriptor : String
deriving DecidableEq, Repr

/-- The text of a name with a descriptor. -/
def NameAndType.text (n : NameAndType) : String := n.name ++ ":" ++ n.descriptor

/-- A field or method of a class. -/
structure MemberReference where
  className : String
  name : String
  descriptor : String
deriving DecidableEq, Repr

/-- The text of a member of a class. -/
def MemberReference.text (m : MemberReference) : String :=
  m.className ++ "." ++ m.name ++ ":" ++ m.descriptor

namespace ConstantPool

/-- The failure to find a constant of kind `expected` at an index that holds another. -/
def unexpected {α : Type} (index : UInt16) (expected : Tag) (found : Constant) :
    Except ReferenceError α :=
  .error (.unexpectedTag index expected found.tag)

/-- The text at an index. -/
def utf8 (pool : ConstantPool) (index : UInt16) : Except ReferenceError String := do
  match ← pool.get index with
  | .utf8 text => return text
  | other => unexpected index .utf8 other

/-- The name of the class at an index. -/
def className (pool : ConstantPool) (index : UInt16) : Except ReferenceError String := do
  match ← pool.get index with
  | .classRef name => pool.utf8 name
  | other => unexpected index .classRef other

/-- The value of the string constant at an index. -/
def string (pool : ConstantPool) (index : UInt16) : Except ReferenceError String := do
  match ← pool.get index with
  | .string value => pool.utf8 value
  | other => unexpected index .string other

/-- The name and descriptor at an index. -/
def nameAndType (pool : ConstantPool) (index : UInt16) : Except ReferenceError NameAndType := do
  match ← pool.get index with
  | .nameAndType name descriptor =>
    let name ← pool.utf8 name
    let descriptor ← pool.utf8 descriptor
    return { name, descriptor }
  | other => unexpected index .nameAndType other

/-- The member of a class with a name and type, all by index. -/
def member (pool : ConstantPool) (owner nameAndType : UInt16) :
    Except ReferenceError MemberReference := do
  let { name, descriptor } ← pool.nameAndType nameAndType
  let className ← pool.className owner
  return { className, name, descriptor }

/-- The field at an index. -/
def fieldReference (pool : ConstantPool) (index : UInt16) :
    Except ReferenceError MemberReference := do
  match ← pool.get index with
  | .fieldRef owner nameAndType => pool.member owner nameAndType
  | other => unexpected index .fieldRef other

/-- The method of a class at an index. -/
def methodReference (pool : ConstantPool) (index : UInt16) :
    Except ReferenceError MemberReference := do
  match ← pool.get index with
  | .methodRef owner nameAndType => pool.member owner nameAndType
  | other => unexpected index .methodRef other

/-- The method of an interface at an index. -/
def interfaceMethodReference (pool : ConstantPool) (index : UInt16) :
    Except ReferenceError MemberReference := do
  match ← pool.get index with
  | .interfaceMethodRef owner nameAndType => pool.member owner nameAndType
  | other => unexpected index .interfaceMethodRef other

/-- The field or method at an index, as a method handle refers to it.  A constant of any other
    kind is reported as if a method had been wanted. -/
def anyMember (pool : ConstantPool) (index : UInt16) : Except ReferenceError MemberReference := do
  match ← pool.get index with
  | .fieldRef owner nameAndType
  | .methodRef owner nameAndType
  | .interfaceMethodRef owner nameAndType => pool.member owner nameAndType
  | other => unexpected index .methodRef other

end ConstantPool

end JavaClass
