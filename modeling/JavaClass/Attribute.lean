/-
  Attributes: named byte strings attached to a class, a field, a method or its code.

  An attribute is kept as it is stored.  What it means is read only when it is asked for, and of
  several attributes of one name only the first counts.
-/
import JavaClass.Bytes.BigEndian

namespace JavaClass

/-- A named byte string.  The name is stored as an index of a text of the constant pool. -/
structure Attribute where
  nameIndex : UInt16
  name : String
  content : List UInt8
deriving DecidableEq, Repr

namespace Attribute

/-- The content of an attribute that is a single index. -/
def index? (a : Attribute) : Option UInt16 :=
  match a.content with
  | [high, low] => some (UInt16.ofNat (BigEndian.value [high, low]))
  | _ => none

/-- The text of an attribute. -/
def text (a : Attribute) : String := s!"{a.name} (data = {a.content.length} bytes)"

/-- The first attribute of a name. -/
def named? (attributes : List Attribute) (name : String) : Option Attribute :=
  attributes.find? (·.name == name)

end Attribute

end JavaClass
