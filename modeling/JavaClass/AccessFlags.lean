/-
  Access flags.

  Classes, fields and methods each have a 16-bit word of flags, and the same bit may mean
  different things in the three.  Bits without a meaning are ignored wherever flags are shown.
-/

namespace JavaClass

/-- The flags that have a meaning, in ascending order of their bits, with their names. -/
abbrev FlagNames := List (UInt16 × String)

/-- The flags of a class. -/
def FlagNames.ofClass : FlagNames :=
  [(0x0001, "PUBLIC"), (0x0010, "FINAL"), (0x0020, "SUPER"), (0x0200, "INTERFACE"),
   (0x0400, "ABSTRACT"), (0x1000, "SYNTHETIC"), (0x2000, "ANNOTATION"), (0x4000, "ENUM"),
   (0x8000, "MODULE")]

/-- The flags of a field. -/
def FlagNames.ofField : FlagNames :=
  [(0x0001, "PUBLIC"), (0x0002, "PRIVATE"), (0x0004, "PROTECTED"), (0x0008, "STATIC"),
   (0x0010, "FINAL"), (0x0040, "VOLATILE"), (0x0080, "TRANSIENT"), (0x1000, "SYNTHETIC"),
   (0x4000, "ENUM")]

/-- The flags of a method. -/
def FlagNames.ofMethod : FlagNames :=
  [(0x0001, "PUBLIC"), (0x0002, "PRIVATE"), (0x0004, "PROTECTED"), (0x0008, "STATIC"),
   (0x0010, "FINAL"), (0x0020, "SYNCHRONIZED"), (0x0040, "BRIDGE"), (0x0080, "VARARGS"),
   (0x0100, "NATIVE"), (0x0400, "ABSTRACT"), (0x0800, "STRICT"), (0x1000, "SYNTHETIC")]

namespace FlagNames

/-- The bits of a word that have a meaning. -/
def known (names : FlagNames) (flags : UInt16) : UInt16 :=
  flags &&& names.foldl (fun mask (bit, _) => mask ||| bit) 0

/-- The names of the flags that are set, in ascending order of their bits. -/
def namesIn (names : FlagNames) (flags : UInt16) : List String :=
  (names.filter fun (bit, _) => flags &&& bit != 0).map (·.2)

/-- The flags that are set, as text. -/
def text (names : FlagNames) (flags : UInt16) : String :=
  match names.namesIn flags with
  | [] => "(empty)"
  | set => " | ".intercalate set

end FlagNames

namespace AccessFlags

/-- Whether a field or method belongs to the class itself and not to its objects. -/
def isStatic (flags : UInt16) : Bool := flags &&& 0x0008 != 0

/-- Whether a method is implemented outside of the class file. -/
def isNative (flags : UInt16) : Bool := flags &&& 0x0100 != 0

/-- Whether a method is left to be implemented. -/
def isAbstract (flags : UInt16) : Bool := flags &&& 0x0400 != 0

end AccessFlags

end JavaClass
