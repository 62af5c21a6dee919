/-
  The program.

  It asks the file system about the paths that a request may need, and leaves everything else to
  `CommandLine.run`.
-/
import JavaClass.CommandLine

namespace JavaClass.Main

open CommandLine

/-- What the real file system has at a path. -/
inductive Found where
  | nothing
  | directory
  | file (content : Except String (List UInt8))

/-- The error code of an attempt to read a directory as if it were a file. -/
def isADirectory : UInt32 := 21

/-- Looks at a path of the real file system. -/
def look (path : String) : IO Found := do
  try
    let content ← IO.FS.readBinFile path
    return .file (.ok content.toList)
  catch
    | .noFileOrDirectory .. => return .nothing
    | .inappropriateType _ code _ => return if code = isADirectory then .directory else .nothing
    | error => return .file (.error (toString error))

/-- What the real file system says about the paths that a request may need. -/
def consult (request : Request) : IO FileSystem := do
  let candidates := (ClassPath.components request.classPath).flatMap fun directory =>
    [directory, joinPath directory (ClassName.file request.className)]
  let found ← candidates.mapM fun path => return (path, ← look path)
  return {
    isDirectory := fun path => found.lookup path matches some .directory
    readFile? := fun path =>
      match found.lookup path with
      | some (.file content) => some content
      | _ => none }

end JavaClass.Main

/-- Runs the program on its arguments. -/
def main (arguments : List String) : IO UInt32 := do
  let fs ← match JavaClass.CommandLine.parse arguments with
    | .ok (.disassemble request) => JavaClass.Main.consult request
    | _ => pure { isDirectory := fun _ => false, readFile? := fun _ => none }
  let outcome := JavaClass.CommandLine.run fs arguments
  IO.print outcome.stdout
  IO.eprint outcome.stderr
  return outcome.exitCode.toUInt32
