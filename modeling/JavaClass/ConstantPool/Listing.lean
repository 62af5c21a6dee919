/-
  Constants as text, and the listing of a whole pool.

  `text` spells out what a constant means by following its references, and fails where they do.
  The listing never fails: it shows every constant with its own indexes first, and marks one whose
  references cannot be followed as invalid.
-/
import JavaClass.ConstantPool.Reference
import JavaClass.Decimal.Positional

namespace JavaClass.ConstantPool

/-- The text of a constant, references followed. -/
def constantText (pool : ConstantPool) : Constant → Except ReferenceError String
  | .utf8 text => return text
  | .integer value => return toString value.toInt
  | .float bits => return Decimal.singleText bits
  | .long value => return toString value.toInt
  | .double bits => return Decimal.doubleText bits
  | .classRef name => pool.utf8 name
  | .string value => pool.utf8 value
  | .fieldRef owner nameAndType
  | .methodRef owner nameAndType
  | .interfaceMethodRef owner nameAndType => return (← pool.member owner nameAndType).text
  | .nameAndType name descriptor => do
    let name ← pool.utf8 name
    let descriptor ← pool.utf8 descriptor
    return NameAndType.text { name, descriptor }
  | .methodHandle kind member => return s!"{kind}:" ++ (← pool.anyMember member).text
  | .methodType name | .moduleRef name | .packageRef name => pool.utf8 name
  | .dynamic bootstrap nameAndType
  | .invokeDynamic bootstrap nameAndType =>
    return s!"#{bootstrap}:" ++ (← pool.nameAndType nameAndType).text

/-- The text of the constant at an index. -/
def text (pool : ConstantPool) (index : UInt16) : Except ReferenceError String := do
  pool.constantText (← pool.get index)

/-! ## The listing -/

/-- A constant as the listing shows it before any reference is followed: the value of a literal,
    marked by its type, or the indexes of a bundle. -/
def operandsText : Constant → String
  | .utf8 text => text
  | .integer value => toString value.toInt
  | .float bits => Decimal.singleText bits ++ "f"
  | .long value => toString value.toInt ++ "l"
  | .double bits => Decimal.doubleText bits ++ "d"
  | .classRef index | .string index | .methodType index | .moduleRef index | .packageRef index =>
    s!"#{index}"
  | .fieldRef owner nameAndType
  | .methodRef owner nameAndType
  | .interfaceMethodRef owner nameAndType => s!"#{owner}.#{nameAndType}"
  | .nameAndType name descriptor => s!"#{name}:#{descriptor}"
  | .methodHandle kind member => s!"{kind}:#{member}"
  | .dynamic bootstrap nameAndType
  | .invokeDynamic bootstrap nameAndType => s!"#{bootstrap}:#{nameAndType}"

/-- Whether a constant is a value of its own, without references to follow. -/
def isLiteral : Constant → Bool
  | .utf8 _ | .integer _ | .float _ | .long _ | .double _ => true
  | _ => false

/-- A constant as the listing shows it. -/
def itemText (pool : ConstantPool) (constant : Constant) : String :=
  if isLiteral constant then operandsText constant
  else
    let meaning := match pool.constantText constant with
      | .ok text => text
      | .error _ => "<invalid>"
    operandsText constant ++ " // " ++ meaning

/-- A text filled up to `width` characters by blanks on its left. -/
def alignRight (width : Nat) (text : String) : String :=
  String.ofList (List.replicate (width - text.length) ' ') ++ text

/-- A text filled up to `width` characters by blanks on its right. -/
def alignLeft (width : Nat) (text : String) : String :=
  text ++ String.ofList (List.replicate (width - text.length) ' ')

/-- The line of one constant. -/
def line (pool : ConstantPool) (index : UInt16) (constant : Constant) : String :=
  "  " ++ alignRight 5 s!"#{index}" ++ " = " ++ alignLeft 18 constant.tag.name ++ " " ++
    pool.itemText constant ++ "\n"

/-- The listing of a pool: a heading, then the constants in order. -/
def listing (pool : ConstantPool) : String :=
  pool.entries.foldl (fun text (index, constant) => text ++ pool.line index constant)
    s!"Constant pool: (size: {pool.size})\n"

end JavaClass.ConstantPool
