/-
  Versions of the class file format.
-/

namespace JavaClass

/-- A version of the class file format. -/
structure Version where
  major : UInt16
  minor : UInt16
deriving DecidableEq, Repr, Inhabited

namespace Version

/-- The releases of the platform, from the one that brought major version 45 on. -/
def releases : List String :=
  ["Jdk1_1", "Jdk1_2", "Jdk1_3", "Jdk1_4", "Jdk1_5", "Jdk6", "Jdk7", "Jdk8", "Jdk9", "Jdk10",
   "Jdk11", "Jdk12", "Jdk13", "Jdk14", "Jdk15", "Jdk16", "Jdk17", "Jdk18", "Jdk19", "Jdk20",
   "Jdk21", "Jdk22"]

/-- The release that brought the major version, if it is a known one. -/
def release? (v : Version) : Option String :=
  if v.major.toNat < 45 then none else releases[v.major.toNat - 45]?

/-- The text of a version. -/
def text (v : Version) : String :=
  s!"{v.major}.{v.minor}" ++
    match v.release? with
    | some release => s!" ({release})"
    | none => ""

end Version

end JavaClass
