/-
  Class names and the files that classes are kept in.
-/

namespace JavaClass.ClassName

/-- A class name in binary form, with slashes between its parts.  Dots count as slashes. -/
def binary (name : String) : String := name.map fun c => if c = '.' then '/' else c

/-- The file of a class, below the directory that its packages start from. -/
def file (name : String) : String := binary name ++ ".class"

end JavaClass.ClassName
