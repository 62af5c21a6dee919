/-
  Exception handlers of a method.
-/

namespace JavaClass

/-- Where control goes when an exception is thrown in a range of offsets. -/
structure ExceptionHandler where
  /-- The first offset that the handler covers. -/
  start : UInt16
  /-- The first offset behind those. -/
  stop : UInt16
  /-- The offset of the handler's own code. -/
  handler : UInt16
  /-- The class that the handler catches, as an index; `none` catches everything. -/
  catchType : Option UInt16
deriving DecidableEq, Repr

/-- Whether a handler covers an offset. -/
def ExceptionHandler.covers (h : ExceptionHandler) (pc : UInt16) : Bool :=
  h.start.toNat ≤ pc.toNat && pc.toNat < h.stop.toNat

/-- The handlers of a method in the order of their declaration. -/
abbrev ExceptionTable := List ExceptionHandler

/-- The handler of an offset: the first that covers it. -/
def ExceptionTable.lookup (table : ExceptionTable) (pc : UInt16) : Option ExceptionHandler :=
  table.find? (·.covers pc)

end JavaClass
