/-
  The class file format, from a class to its bytes.

  `stored` writes each part of a class down, without mention of how it is read: every number
  big-endian in its own width, every list behind its 16-bit count, every attribute behind its
  32-bit length, every text in modified UTF-8.  What a class does not record is an argument: where
  the code stands among the attributes of a method, and which index its name has (`CodePlace`).

  Not every class can be stored.  `Storable` says which: the counts and lengths have to fit, the
  names have to be those that the pool holds at their indexes, and what is derived from other
  parts, the line numbers above all, has to be derived from them.
-/
import JavaClass.ClassFile.Basic
import JavaClass.Proofs.Code.LineNumberTable

namespace JavaClass

open BigEndian (bytes signedBytes)

/-- A list as it is stored: the number of its items, then the items. -/
def storedList {α : Type} (stored : α → List UInt8) (items : List α) : List UInt8 :=
  bytes 2 items.length ++ items.flatMap stored

/-! ## The constant pool

  Constants stand one behind the other.  The count in front of them is one above the number of
  their slots. -/

/-- A constant as it is stored: the byte of its kind, and its content. -/
def Constant.stored : Constant → List UInt8
  | .utf8 text =>
    let spelled := Text.Modified.encode text.toList
    1 :: (bytes 2 spelled.length ++ spelled)
  | .integer value => 3 :: signedBytes 4 value.toInt
  | .float bits => 4 :: bytes 4 bits.toNat
  | .long value => 5 :: signedBytes 8 value.toInt
  | .double bits => 6 :: bytes 8 bits.toNat
  | .classRef name => 7 :: bytes 2 name.toNat
  | .string value => 8 :: bytes 2 value.toNat
  | .fieldRef owner signature => 9 :: (bytes 2 owner.toNat ++ bytes 2 signature.toNat)
  | .methodRef owner signature => 10 :: (bytes 2 owner.toNat ++ bytes 2 signature.toNat)
  | .interfaceMethodRef owner signature =>
    11 :: (bytes 2 owner.toNat ++ bytes 2 signature.toNat)
  | .nameAndType name descriptor => 12 :: (bytes 2 name.toNat ++ bytes 2 descriptor.toNat)
  | .methodHandle kind member => 15 :: (bytes 1 kind.toNat ++ bytes 2 member.toNat)
  | .methodType descriptor => 16 :: bytes 2 descriptor.toNat
  | .dynamic bootstrap signature =>
    17 :: (bytes 2 bootstrap.toNat ++ bytes 2 signature.toNat)
  | .invokeDynamic bootstrap signature =>
    18 :: (bytes 2 bootstrap.toNat ++ bytes 2 signature.toNat)
  | .moduleRef name => 19 :: bytes 2 name.toNat
  | .packageRef name => 20 :: bytes 2 name.toNat

/-- Whether the length of a constant fits: a text may take 65535 bytes. -/
def Constant.Storable : Constant → Prop
  | .utf8 text => (Text.Modified.encode text.toList).length ≤ 65535
  | _ => True

namespace ConstantPool

/-- The constants of a pool, in order. -/
def constants (pool : ConstantPool) : List Constant := pool.entries.map (·.2)

/-- A pool as it is stored: a count that is one more than its slots, then the constants. -/
def stored (pool : ConstantPool) : List UInt8 :=
  bytes 2 (pool.size + 1) ++ pool.constants.flatMap Constant.stored

/-- Whether a pool can be stored. -/
structure Storable (pool : ConstantPool) : Prop where
  /-- It was made by adding constants, as every pool is. -/
  made : ∃ constants, pool = ofList constants
  /-- The count fits. -/
  size_le : pool.size ≤ 65534
  texts : ∀ constant ∈ pool.constants, constant.Storable

end ConstantPool

/-! ## Attributes

  An attribute is the index of its name, the length of its content, and the content. -/

namespace Attribute

/-- An attribute as it is stored. -/
def stored (a : Attribute) : List UInt8 :=
  bytes 2 a.nameIndex.toNat ++ bytes 4 a.content.length ++ a.content

/-- Whether an attribute can be stored. -/
structure Storable (pool : ConstantPool) (a : Attribute) : Prop where
  name : pool.utf8 a.nameIndex = .ok a.name
  length_lt : a.content.length < 0x100000000

/-- Whether a list of attributes can be stored. -/
structure AllStorable (pool : ConstantPool) (attributes : List Attribute) : Prop where
  length_lt : attributes.length < 65536
  each : ∀ a ∈ attributes, a.Storable pool

end Attribute

/-! ## Code

  Code is stored as the content of an attribute, with attributes of its own at the end. -/

/-- An exception handler as it is stored; index 0 stands for everything that is thrown. -/
def ExceptionHandler.stored (h : ExceptionHandler) : List UInt8 :=
  bytes 2 h.start.toNat ++ bytes 2 h.stop.toNat ++ bytes 2 h.handler.toNat ++
    bytes 2 (h.catchType.getD 0).toNat

namespace Code

/-- The content of a code attribute. -/
def stored (code : Code) : List UInt8 :=
  bytes 2 code.maxStack.toNat ++ bytes 2 code.maxLocals.toNat ++ bytes 4 code.array.length ++
    code.array ++ storedList ExceptionHandler.stored code.handlers ++
    storedList Attribute.stored code.attributes

/-- The line numbers that the attributes of a method's code give it: those of the first line number
    table, sorted, if there is one. -/
inductive HasLines : List Attribute → Option LineNumberTable → Prop
  | none {attributes : List Attribute} (absent : ∀ a ∈ attributes, a.name ≠ "LineNumberTable") :
    HasLines attributes none
  | first {before after : List Attribute} {holder : Attribute} {declared kept : List LineEntry}
    (absent : ∀ a ∈ before, a.name ≠ "LineNumberTable") (name : holder.name = "LineNumberTable")
    (length_lt : declared.length < 65536)
    (content : holder.content = storedList LineEntry.stored declared)
    (sorted : IsStableSort declared kept) : HasLines (before ++ holder :: after) (some ⟨kept⟩)

/-- Whether the code of a method can be stored. -/
structure Storable (pool : ConstantPool) (code : Code) : Prop where
  array_pos : 0 < code.array.length
  array_le : code.array.length ≤ 65535
  handlers_length : code.handlers.length < 65536
  /-- Index 0 is not available for a class. -/
  catchType : ∀ h ∈ code.handlers, h.catchType ≠ some 0
  attributes : Attribute.AllStorable pool code.attributes
  lines : HasLines code.attributes code.lines
  length_lt : code.stored.length < 0x100000000

end Code

/-! ## Members

  Fields and methods are stored alike, except that the code of a method stands among its
  attributes. -/

namespace Field

/-- A field as it is stored. -/
def stored (f : Field) : List UInt8 :=
  bytes 2 f.accessFlags.toNat ++ bytes 2 f.nameIndex.toNat ++ bytes 2 f.descriptorIndex.toNat ++
    storedList Attribute.stored f.attributes

/-- Whether a field can be stored. -/
structure Storable (pool : ConstantPool) (f : Field) : Prop where
  name : pool.utf8 f.nameIndex = .ok f.name
  descriptor : pool.utf8 f.descriptorIndex = .ok f.descriptor
  attributes : Attribute.AllStorable pool f.attributes

end Field

/-- Where the code of a method is stored: behind how many of its other attributes, and under which
    index of the name `Code`. -/
structure CodePlace where
  before : Nat
  nameIndex : UInt16

/-- The code of a method as one of its attributes, its length in front. -/
def Code.storedAttribute (place : CodePlace) (code : Code) : List UInt8 :=
  bytes 2 place.nameIndex.toNat ++ bytes 4 code.stored.length ++ code.stored

namespace Method

/-- The attributes of a method as they are stored. -/
def storedAttributes (place : CodePlace) (attributes : List Attribute) :
    Option Code → List UInt8
  | none => storedList Attribute.stored attributes
  | some code =>
    bytes 2 (attributes.length + 1) ++
      (attributes.take place.before).flatMap Attribute.stored ++ code.storedAttribute place ++
      (attributes.drop place.before).flatMap Attribute.stored

/-- A method as it is stored. -/
def stored (place : CodePlace) (m : Method) : List UInt8 :=
  bytes 2 m.accessFlags.toNat ++ bytes 2 m.nameIndex.toNat ++ bytes 2 m.descriptorIndex.toNat ++
    storedAttributes place m.attributes m.code

/-- Whether a method can be stored. -/
structure Storable (pool : ConstantPool) (place : CodePlace) (m : Method) : Prop where
  name : pool.utf8 m.nameIndex = .ok m.name
  descriptor : pool.utf8 m.descriptorIndex = .ok m.descriptor
  attributes : Attribute.AllStorable pool m.attributes
  /-- Only code is called code. -/
  others : ∀ a ∈ m.attributes, a.name ≠ "Code"
  code : ∀ code, m.code = some code → code.Storable pool ∧
    pool.utf8 place.nameIndex = .ok "Code" ∧ m.attributes.length + 1 < 65536

/-- Methods one behind the other, each with its own place for its code. -/
def storedAll (place : Nat → CodePlace) : List Method → List UInt8
  | [] => []
  | m :: methods => m.stored (place 0) ++ storedAll (fun i => place (i + 1)) methods

end Method

/-! ## The whole file -/

namespace ClassFile

/-- A class file; `place i` is where the code of method `i` goes. -/
def stored (place : Nat → CodePlace) (c : ClassFile) : List UInt8 :=
  bytes 4 0xCAFEBABE ++ bytes 2 c.version.minor.toNat ++ bytes 2 c.version.major.toNat ++
    c.constants.stored ++ bytes 2 c.accessFlags.toNat ++ bytes 2 c.thisClass.toNat ++
    bytes 2 c.superClass.toNat ++ storedList (bytes 2 ·.toNat) c.interfaces ++
    storedList Field.stored c.fields ++
    (bytes 2 c.methods.length ++ Method.storedAll place c.methods) ++
    storedList Attribute.stored c.attributes

/-- Whether a class can be stored. -/
structure Storable (place : Nat → CodePlace) (c : ClassFile) : Prop where
  constants : c.constants.Storable
  interfaces_length : c.interfaces.length < 65536
  fields_length : c.fields.length < 65536
  fields : ∀ f ∈ c.fields, f.Storable c.constants
  methods_length : c.methods.length < 65536
  methods : ∀ (i : Nat) (m : Method), c.methods[i]? = some m → m.Storable c.constants (place i)
  attributes : Attribute.AllStorable c.constants c.attributes

end ClassFile

end JavaClass
