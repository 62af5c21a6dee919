/-
  Loading classes from a class path.

  A class is looked for by its binary name, so dots and slashes are interchangeable; only the
  report that it was not found carries the name as it was given.
-/
import JavaClass.ClassFile.Scan
import JavaClass.ClassPath.Basic

namespace JavaClass

/-- Why a class could not be loaded. -/
inductive LoadError where
  /-- No entry of the class path has the class. -/
  | classNotFound (name : String)
  /-- A component of the text of a class path is no directory. -/
  | invalidEntry (component : String)
  /-- An entry has the class but cannot read it. -/
  | unreadable (className : String) (cause : UnreadableFile)
  /-- The bytes found are no class file. -/
  | invalidClass (cause : ReadError)
deriving DecidableEq, Repr

/-- The wording of a failure. -/
def LoadError.message : LoadError → String
  | .classNotFound name => "class not found: " ++ name
  | .invalidEntry component => "invalid class path entry: " ++ component
  | .unreadable className cause =>
    "unexpected error loading class " ++ className ++ ": " ++ cause.message
  | .invalidClass cause => "class reading error: " ++ cause.message

namespace ClassPath

/-- The class path that a text describes: its components, each of which has to be a directory. -/
def parse (fs : FileSystem) (text : String) : Except LoadError ClassPath :=
  (ofPaths fs (components text)).mapError fun d => .invalidEntry d.path

/-- The bytes of a class. -/
def read (path : ClassPath) (name : String) : Except LoadError (List UInt8) :=
  match path.find (ClassName.binary name) with
  | .ok (some bytes) => .ok bytes
  | .ok none => .error (.classNotFound name)
  | .error cause => .error (.unreadable (ClassName.binary name) cause)

/-- A class. -/
def load (path : ClassPath) (name : String) : Except LoadError ClassFile := do
  let bytes ← path.read name
  (ClassFile.ofBytes bytes).mapError .invalidClass

end ClassPath

end JavaClass
