/-
  The code of a method: its code array with what belongs to it.
-/
import JavaClass.Attribute
import JavaClass.Code.ExceptionTable
import JavaClass.Code.LineNumberTable
import JavaClass.Instruction.Decode

namespace JavaClass

/-- The code of a method. -/
structure Code where
  maxStack : UInt16
  maxLocals : UInt16
  /-- The code array. -/
  array : List UInt8
  handlers : ExceptionTable
  attributes : List Attribute
  /-- The content of the first line number table among the attributes. -/
  lines : Option LineNumberTable
deriving DecidableEq, Repr

namespace Code

/-- The instructions of the code array. -/
def instructions (code : Code) : Except ReadError (List Instruction) :=
  Instruction.decode code.array

/-- The text of a method's code. -/
def text (code : Code) : String :=
  s!"max_stack = {code.maxStack}, max_locals = {code.maxLocals}, code = " ++
    Text.hexBytes code.array

end Code

end JavaClass
