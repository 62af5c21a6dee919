/-
  Class files.

  A class file refers to the names it uses by index of its constant pool.  The indexes are kept,
  and resolved when a name is asked for, so a class file may be read although some of its names
  are invalid.
-/
import JavaClass.ConstantPool.Listing
import JavaClass.Member
import JavaClass.Version

namespace JavaClass

/-- The content of a class file. -/
structure ClassFile where
  version : Version
  constants : ConstantPool
  accessFlags : UInt16
  /-- The class itself, as an index. -/
  thisClass : UInt16
  /-- The class it extends, as an index; zero if there is none. -/
  superClass : UInt16
  /-- The interfaces that it implements, as indexes. -/
  interfaces : List UInt16
  fields : List Field
  methods : List Method
  attributes : List Attribute
deriving DecidableEq, Repr

namespace ClassFile

/-- The flags of the class, as text. -/
def flagsText (c : ClassFile) : String := FlagNames.ofClass.text c.accessFlags

/-! ## Names -/

/-- The name of a class given by index. -/
def nameAt (c : ClassFile) (index : UInt16) : Except ReadError String :=
  (c.constants.className index).mapError .reference

/-- The name of the class. -/
def className (c : ClassFile) : Except ReadError String := c.nameAt c.thisClass

/-- The name of the class it extends, if there is one. -/
def superName (c : ClassFile) : Except ReadError (Option String) :=
  if c.superClass = 0 then return none else return some (← c.nameAt c.superClass)

/-- The names of the interfaces that it implements. -/
def interfaceNames (c : ClassFile) : Except ReadError (List String) :=
  c.interfaces.mapM c.nameAt

/-- The name of the source file that the class was compiled from, if it is recorded. -/
def sourceFile (c : ClassFile) : Except ReadError (Option String) :=
  match Attribute.named? c.attributes "SourceFile" with
  | none => return none
  | some holder =>
    match holder.index? with
    | none => throw (.malformed .sourceFile)
    | some index => return some (← (c.constants.utf8 index).mapError .reference)

/-! ## Members -/

/-- The first method of a name and descriptor. -/
def findMethod (c : ClassFile) (name descriptor : String) : Except ReadError Method :=
  match c.methods.find? fun m => m.name == name && m.descriptor == descriptor with
  | some method => return method
  | none => throw (.methodNotFound name descriptor)

/-- The method at which a program starts. -/
def mainMethod (c : ClassFile) : Except ReadError Method :=
  c.findMethod "main" "([Ljava/lang/String;)V"

/-- The first field of a name. -/
def findField (c : ClassFile) (name : String) : Except ReadError Field :=
  match c.fields.find? (·.name == name) with
  | some field => return field
  | none => throw (.fieldNotFound name)

/-! ## Summary -/

/-- The name of a class given by index, or the index itself if it leads to none. -/
def nameOrIndex (c : ClassFile) (index : UInt16) : String :=
  match c.constants.className index with
  | .ok name => name
  | .error _ => s!"#{index} <invalid>"

/-- A line for each item, behind a mark. -/
def itemLines (mark : String) (items : List String) : String :=
  items.foldl (fun text item => text ++ mark ++ item ++ "\n") ""

/-- A class at a glance: its names, version, flags and members. -/
def summary (c : ClassFile) : String :=
  "Class " ++ c.nameOrIndex c.thisClass ++ " " ++
    (if c.superClass = 0 then "" else "(extends " ++ c.nameOrIndex c.superClass ++ ") ") ++
    "version: " ++ c.version.text ++ "\n" ++
    "flags: " ++ c.flagsText ++ "\n" ++
    itemLines "implements " (c.interfaces.map c.nameOrIndex) ++
    "fields:\n" ++ itemLines "  - " (c.fields.map Field.text) ++
    "methods:\n" ++ itemLines "  - " (c.methods.map Method.text)

end ClassFile

end JavaClass
