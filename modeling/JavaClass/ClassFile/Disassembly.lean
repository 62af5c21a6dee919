/-
  Disassembly: a class with the instructions of its methods, as text.

  All names of the heading and all instructions of the selected methods have to be readable; the
  error is the first in the order of the text.  The options select parts of the text and never
  change the others.
-/
import JavaClass.ClassFile.Basic

namespace JavaClass

/-- Which parts of a class to show. -/
structure Selection where
  /-- Whether to list the constant pool. -/
  constants : Bool := false
  /-- The name of the methods to show; without one, all are shown. -/
  method : Option String := none
deriving DecidableEq, Repr

/-- Whether a method is to be shown. -/
def Selection.includes (s : Selection) (method : Method) : Bool :=
  match s.method with
  | none => true
  | some name => method.name == name

namespace ClassFile

/-- The lines about the class itself. -/
def heading (c : ClassFile) : Except ReadError String := do
  let name ← c.className
  let superName ← c.superName
  let sourceFile ← c.sourceFile
  let extended := match superName with
    | some superName => " extends " ++ superName
    | none => ""
  let source := match sourceFile with
    | some file => "  compiled from: " ++ file ++ "\n"
    | none => ""
  return "class " ++ name ++ extended ++ "\n" ++ source ++
    "  version: " ++ c.version.text ++ "\n" ++ "  flags: " ++ c.flagsText ++ "\n"

/-- The section of a method: a blank line, the method, and a line for each instruction. -/
def methodSection (method : Method) : Except ReadError String := do
  let instructions ← method.instructions
  return instructions.foldl (fun text i => text ++ "  " ++ i.text ++ "\n")
    ("\n" ++ method.text ++ "\n")

/-- The selected parts of a class as text. -/
def disassemble (c : ClassFile) (selection : Selection) : Except ReadError String := do
  let heading ← c.heading
  let listing := if selection.constants then c.constants.listing else ""
  let sections ← (c.methods.filter selection.includes).mapM methodSection
  return heading ++ listing ++ "".intercalate sections

end ClassFile

end JavaClass
