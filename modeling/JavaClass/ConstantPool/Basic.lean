/-
  The constant pool: constants by 16-bit index.

  Indexes start at 1 and count slots.  A long or double constant takes two slots, the second of
  which is unusable: looking it up fails like an index past the end.  `get` is the one way in;
  every other query of the pool is built on it.
-/
import JavaClass.Constant

namespace JavaClass

open Constant (Tag)

/-- Why an index of a constant pool does not lead to the constant that is wanted. -/
inductive ReferenceError where
  /-- No constant has this index. -/
  | outOfRange (index : UInt16)
  /-- The constant at this index is of another kind than the one wanted. -/
  | unexpectedTag (index : UInt16) (expected found : Tag)
deriving DecidableEq, Repr

/-- The wording of a failed reference. -/
def ReferenceError.message : ReferenceError → String
  | .outOfRange index => s!"invalid constant pool index: {index}"
  | .unexpectedTag index expected found =>
    s!"constant pool entry #{index} is a {found.name} entry, expected {expected.name}"

/-- Constants in slots numbered from 1. -/
structure ConstantPool where
  /-- Slot `i` of the pool is element `i - 1`; the second slot of a constant is `none`. -/
  slots : Array (Option Constant) := #[]
deriving DecidableEq, Repr

namespace ConstantPool

/-- The pool without constants. -/
def empty : ConstantPool := {}

instance : Inhabited ConstantPool := ⟨empty⟩

/-- Puts a constant into the next free slots. -/
def add (pool : ConstantPool) (constant : Constant) : ConstantPool :=
  ⟨pool.slots.push (some constant) ++ Array.replicate (constant.slots - 1) none⟩

/-- The pool that holds the given constants in order. -/
def ofList (constants : List Constant) : ConstantPool := constants.foldl add empty

/-- The number of slots, unusable ones included. -/
def size (pool : ConstantPool) : Nat := pool.slots.size

/-- Whether there is no slot. -/
def isEmpty (pool : ConstantPool) : Bool := pool.slots.isEmpty

/-- The constant at an index. -/
def get (pool : ConstantPool) (index : UInt16) : Except ReferenceError Constant :=
  if index = 0 then .error (.outOfRange index)
  else match pool.slots[index.toNat - 1]? with
    | some (some constant) => .ok constant
    | _ => .error (.outOfRange index)

/-- The constants in order, each with its index. -/
def entries (pool : ConstantPool) : List (UInt16 × Constant) :=
  pool.slots.toList.zipIdx.filterMap fun (slot, i) =>
    slot.map fun constant => (UInt16.ofNat (i + 1), constant)

/-- Adding a constant adds its slots. -/
@[simp] theorem size_add (pool : ConstantPool) (constant : Constant) :
    (pool.add constant).size = pool.size + constant.slots := by
  have := constant.slots_pos
  simp only [add, size, Array.size_append, Array.size_push, Array.size_replicate]
  omega

end ConstantPool

end JavaClass
