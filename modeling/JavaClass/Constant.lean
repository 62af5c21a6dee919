/-
  Constants: the entries of a constant pool.

  A constant is a literal value or a bundle of indexes of other constants of the same pool.  Its
  kind is stored as a tag byte; seventeen of the byte values are tags.  Float and double values
  are kept as their bit patterns, which tells every NaN and the two zeros apart.
-/

namespace JavaClass

namespace Constant

/-- The kinds of constant. -/
inductive Tag where
  | utf8 | integer | float | long | double | classRef | string | fieldRef | methodRef
  | interfaceMethodRef | nameAndType | methodHandle | methodType | dynamic | invokeDynamic
  | moduleRef | packageRef
deriving DecidableEq, Repr

namespace Tag

/-- The kinds in the order of their tag bytes. -/
def all : List Tag :=
  [.utf8, .integer, .float, .long, .double, .classRef, .string, .fieldRef, .methodRef,
   .interfaceMethodRef, .nameAndType, .methodHandle, .methodType, .dynamic, .invokeDynamic,
   .moduleRef, .packageRef]

/-- The byte that stands for a kind in a class file.  The values 2, 13 and 14 are not in use. -/
def byte : Tag → UInt8
  | .utf8 => 1
  | .integer => 3
  | .float => 4
  | .long => 5
  | .double => 6
  | .classRef => 7
  | .string => 8
  | .fieldRef => 9
  | .methodRef => 10
  | .interfaceMethodRef => 11
  | .nameAndType => 12
  | .methodHandle => 15
  | .methodType => 16
  | .dynamic => 17
  | .invokeDynamic => 18
  | .moduleRef => 19
  | .packageRef => 20

/-- The kind that a byte stands for. -/
def ofByte? (b : UInt8) : Option Tag := all.find? fun tag => tag.byte == b

/-- The name of a kind. -/
def name : Tag → String
  | .utf8 => "Utf8"
  | .integer => "Integer"
  | .float => "Float"
  | .long => "Long"
  | .double => "Double"
  | .classRef => "Class"
  | .string => "String"
  | .fieldRef => "FieldRef"
  | .methodRef => "MethodRef"
  | .interfaceMethodRef => "InterfaceMethodRef"
  | .nameAndType => "NameAndType"
  | .methodHandle => "MethodHandle"
  | .methodType => "MethodType"
  | .dynamic => "Dynamic"
  | .invokeDynamic => "InvokeDynamic"
  | .moduleRef => "Module"
  | .packageRef => "Package"

/-- Every kind is read back from its byte. -/
theorem ofByte?_byte (tag : Tag) : ofByte? tag.byte = some tag := by cases tag <;> rfl

/-- A byte is read as a kind only if it is the byte of that kind. -/
theorem byte_of_ofByte? {b : UInt8} {tag : Tag} (h : ofByte? b = some tag) : tag.byte = b := by
  simpa using List.find?_some h

/-- A byte is read as no kind only if it is the byte of none. -/
theorem ofByte?_eq_none {b : UInt8} : ofByte? b = none ↔ ∀ tag : Tag, tag.byte ≠ b := by
  constructor
  · intro h tag htag
    rw [← htag, ofByte?_byte] at h
    nomatch h
  · intro h
    refine List.find?_eq_none.mpr fun tag _ htag => ?_
    exact h tag (by simpa using htag)

end Tag

end Constant

open Constant (Tag)

/-- An entry of a constant pool.  Every index is an index of the same pool, except for the
    bootstrap method, which is an index of a table stored elsewhere in the class file. -/
inductive Constant where
  | utf8 (text : String)
  | integer (value : Int32)
  /-- A single-precision number, as its bit pattern. -/
  | float (bits : UInt32)
  | long (value : Int64)
  /-- A double-precision number, as its bit pattern. -/
  | double (bits : UInt64)
  | classRef (name : UInt16)
  | string (value : UInt16)
  | fieldRef (owner nameAndType : UInt16)
  | methodRef (owner nameAndType : UInt16)
  | interfaceMethodRef (owner nameAndType : UInt16)
  | nameAndType (name descriptor : UInt16)
  | methodHandle (kind : UInt8) (member : UInt16)
  | methodType (descriptor : UInt16)
  | dynamic (bootstrap nameAndType : UInt16)
  | invokeDynamic (bootstrap nameAndType : UInt16)
  | moduleRef (name : UInt16)
  | packageRef (name : UInt16)
deriving DecidableEq, Repr

namespace Constant

/-- The kind of a constant. -/
def tag : Constant → Tag
  | .utf8 _ => .utf8
  | .integer _ => .integer
  | .float _ => .float
  | .long _ => .long
  | .double _ => .double
  | .classRef _ => .classRef
  | .string _ => .string
  | .fieldRef _ _ => .fieldRef
  | .methodRef _ _ => .methodRef
  | .interfaceMethodRef _ _ => .interfaceMethodRef
  | .nameAndType _ _ => .nameAndType
  | .methodHandle _ _ => .methodHandle
  | .methodType _ => .methodType
  | .dynamic _ _ => .dynamic
  | .invokeDynamic _ _ => .invokeDynamic
  | .moduleRef _ => .moduleRef
  | .packageRef _ => .packageRef

/-- How many slots of the pool a constant takes: two for a 64-bit number, one for any other. -/
def slots : Constant → Nat
  | .long _ | .double _ => 2
  | _ => 1

theorem slots_pos (c : Constant) : 0 < c.slots := by unfold slots; split <;> omega

theorem slots_le_two (c : Constant) : c.slots ≤ 2 := by unfold slots; split <;> omega

end Constant

end JavaClass
