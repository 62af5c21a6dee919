/-
  Class paths.

  A class path is a list of entries, each a place where classes may be found.  A class is looked
  for in one entry after the other, and the first that has an answer decides: an entry that fails
  is not passed over in favour of a later one.
-/
import JavaClass.ClassPath.FileSystem
import JavaClass.ClassPath.Name

namespace JavaClass

/-- A class file that is there but cannot be read. -/
structure UnreadableFile where
  file : String
  cause : String
deriving DecidableEq, Repr

/-- The wording of the failure. -/
def UnreadableFile.message (f : UnreadableFile) : String :=
  "cannot read " ++ f.file ++ ": " ++ f.cause

/-- A path that was meant to be a directory and is none. -/
structure InvalidDirectory where
  path : String
deriving DecidableEq, Repr

/-- The wording of the failure. -/
def InvalidDirectory.message (d : InvalidDirectory) : String := "invalid directory: " ++ d.path

/-- What an entry says about a class: its bytes, that it does not have the class, or that it has
    the class but cannot read it. -/
abbrev Answer := Except UnreadableFile (Option (List UInt8))

namespace ClassPath

/-- A place where classes may be found. -/
structure Entry where
  /-- How the entry shows in the text of a class path. -/
  label : String
  /-- What the entry says about a class of a given name. -/
  find : String → Answer

/-- The classes below a directory, each in the file of its name. -/
def Entry.ofDirectory (fs : FileSystem) (directory : String) : Entry where
  label := directory
  find name :=
    match fs.readFile? (joinPath directory (ClassName.file name)) with
    | none => .ok none
    | some (.ok bytes) => .ok (some bytes)
    | some (.error cause) => .error { file := ClassName.file name, cause }

/-- The entry of a path, which has to be a directory. -/
def Entry.ofPath (fs : FileSystem) (path : String) : Except InvalidDirectory Entry :=
  if fs.isDirectory path then .ok (ofDirectory fs path) else .error ⟨path⟩

/-- The character between the entries of a class path. -/
def separator : Char := ':'

/-- The components of the text of a class path. -/
def components (text : String) : List String :=
  (splitParts separator text.toList).map String.ofList

end ClassPath

/-- A list of places where classes may be found. -/
abbrev ClassPath := List ClassPath.Entry

namespace ClassPath

/-- The class path of a list of directories, or the first of them that is none. -/
def ofPaths (fs : FileSystem) (paths : List String) : Except InvalidDirectory ClassPath :=
  paths.mapM (Entry.ofPath fs)

/-- A class path with one more entry, behind the others. -/
def push (path : ClassPath) (entry : Entry) : ClassPath := path ++ [entry]

/-- The text of a class path. -/
def text (path : ClassPath) : String := separator.toString.intercalate (path.map (·.label))

/-- What a class path says about a class: what the first entry says that has an answer. -/
def find : ClassPath → String → Answer
  | [], _ => .ok none
  | entry :: path, name =>
    match entry.find name with
    | .ok none => find path name
    | answer => answer

end ClassPath

end JavaClass
