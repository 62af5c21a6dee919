/-
  File systems, as far as looking for classes needs them.

  A file system answers two questions about a path: is it a directory, and what does the file
  there hold?  A file may be there and yet be unreadable, which is not the same as being absent.

  `FileTree` is a file system in memory.  Its paths are resolved the usual way: step by step from
  the working directory, `.` and an empty step staying where they are and `..` going up, and every
  step but the last having to lead to a directory.  The tree does not know its surroundings beyond
  the fact that there are directories all the way up, so any path that leaves the tree and names
  something outside leads nowhere.
-/

namespace JavaClass

/-- What can be asked about paths. -/
structure FileSystem where
  /-- Whether a path leads to a directory. -/
  isDirectory : String → Bool
  /-- The content of the file that a path leads to, or the reason why it cannot be read; `none` if
      the path leads to no file. -/
  readFile? : String → Option (Except String (List UInt8))

/-- Whether a path starts from the root of the file system and not from a directory in it. -/
def isAbsolute (path : String) : Bool := path.toList.head? == some '/'

/-- Puts a path behind a directory, with a slash between the two unless there is one already.  An
    absolute path stays as it is. -/
def joinPath (directory path : String) : String :=
  if isAbsolute path then path
  else if directory = "" ∨ directory.toList.getLast? = some '/' then directory ++ path
  else directory ++ "/" ++ path

/-- The parts of a text between the separators. -/
def splitParts (separator : Char) (text : List Char) : List (List Char) :=
  text.foldr
    (fun c parts =>
      if c = separator then [] :: parts
      else match parts with
        | part :: parts => (c :: part) :: parts
        | [] => [[c]])
    [[]]

/-! ## File trees -/

/-- Files and empty directories below a working directory, each under the names that lead to it.
    The directories in between need not be listed. -/
structure FileTree where
  /-- An item is a file with its content, or an empty directory. -/
  items : List (List String × Option (List UInt8))

namespace FileTree

/-- A place that a path leads to: inside the tree, or a directory around it. -/
inductive Place where
  | inside (names : List String)
  | around
deriving DecidableEq, Repr

/-- Whether the names lead to a directory of the tree. -/
def hasDirectory (tree : FileTree) (names : List String) : Bool :=
  names.isEmpty || tree.items.any fun (item, content) =>
    names.isPrefixOf item && (names != item || content.isNone)

/-- The content of the file that the names lead to. -/
def file? (tree : FileTree) (names : List String) : Option (List UInt8) :=
  (tree.items.find? fun (item, content) => item == names && content.isSome).bind (·.2)

/-- Whether a place is a directory. -/
def isDirectoryAt (tree : FileTree) : Place → Bool
  | .inside names => tree.hasDirectory names
  | .around => true

/-- Where one step of a path leads. -/
def step (tree : FileTree) (place : Place) (name : String) : Option Place :=
  if !tree.isDirectoryAt place then none
  else if name = "" ∨ name = "." then some place
  else match place with
    | .around => if name = ".." then some .around else none
    | .inside names =>
      if name = ".." then
        if names.isEmpty then some .around else some (.inside names.dropLast)
      else
        let next := names ++ [name]
        if tree.hasDirectory next || (tree.file? next).isSome then some (.inside next) else none

/-- Whether a path may be looked up at all: it is not empty and not too long. -/
def isPath (path : String) : Bool := !path.isEmpty && path.utf8ByteSize < 4096

/-- Where a path leads. -/
def locate (tree : FileTree) (path : String) : Option Place :=
  if !isPath path then none
  else
    let origin : Place := if isAbsolute path then .around else .inside []
    ((splitParts '/' path.toList).map String.ofList).foldlM tree.step origin

/-- The tree as a file system.  All its files can be read. -/
def toFileSystem (tree : FileTree) : FileSystem where
  isDirectory path := (tree.locate path).any tree.isDirectoryAt
  readFile? path :=
    match tree.locate path with
    | some (.inside names) => (tree.file? names).map .ok
    | _ => none

end FileTree

end JavaClass
