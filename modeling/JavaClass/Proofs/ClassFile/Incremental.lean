/-
  Reading a class file is incremental.

  Every part of a class file is read by scans that look at nothing but the bytes they pass, and
  every check of the format is made on what was read before it.  So each scan of the format is
  incremental, from the constants up to the whole file.  The one reader that has a cursor of its
  own, that of the line number tables, is run on bytes that have been passed, and its failures are
  renamed: none of them is taken for a lack of input (`incremental_linesOf`).
-/
import JavaClass.ClassFile.Scan
import JavaClass.Proofs.Bytes.Numbers

namespace JavaClass

open Scan

/-! ## The constant pool

  The body of a constant is one number or two, apart from that of a text.  The loop over the slots
  is incremental by induction on the calls that it makes. -/

/-- A constant that is made of one number. -/
theorem incremental_one {α : Type} {number : Scan ScanError α} (h : Incremental number)
    (make : α → Constant) : Incremental (number >>= fun a => pure (make a)) :=
  h.bind fun _ => .pure _

/-- A constant that is made of two numbers. -/
theorem incremental_two {α β : Type} {first : Scan ScanError α} {second : Scan ScanError β}
    (h₁ : Incremental first) (h₂ : Incremental second) (make : α → β → Constant) :
    Incremental (first >>= fun a => second >>= fun b => pure (make a b)) :=
  h₁.bind fun _ => h₂.bind fun _ => .pure _

/-- The tag decides how the body of a constant is read. -/
theorem incremental_scanBody (tag : Constant.Tag) : Incremental (Constant.scanBody tag) := by
  cases tag with
  | utf8 => exact incremental_u16.bind fun n => (incremental_text n.toNat).bind fun _ => .pure _
  | integer => exact incremental_one incremental_i32 _
  | float => exact incremental_one incremental_u32 _
  | long => exact incremental_one incremental_i64 _
  | double => exact incremental_one incremental_u64 _
  | classRef | string | methodType | moduleRef | packageRef =>
    exact incremental_one incremental_u16 _
  | fieldRef | methodRef | interfaceMethodRef | nameAndType | dynamic | invokeDynamic =>
    exact incremental_two incremental_u16 incremental_u16 _
  | methodHandle => exact incremental_two incremental_u8 incremental_u16 _

/-- A constant is its tag and the body for it, and an unknown tag is no lack of input. -/
theorem incremental_constant (index : UInt16) : Incremental (Constant.scan index) :=
  incremental_u8.lift.bind fun byte =>
    (incremental_ofOption (not_isShortage_unsupportedTag byte index) _).bind fun tag =>
      (incremental_scanBody tag).lift

/-- The constants are read until the slots they take up are as many as were counted. -/
theorem incremental_scanFrom (count index : Nat) (pool : ConstantPool) :
    Incremental (ConstantPool.scanFrom count index pool) := by
  fun_induction ConstantPool.scanFrom count index pool with
  | case1 index pool _ ih => exact (incremental_constant _).bind fun constant => ih constant
  | case2 index pool _ => exact .pure _

/-- A constant pool is its count and its constants. -/
theorem incremental_pool : Incremental ConstantPool.scan :=
  incremental_u16.lift.bind fun count => (incremental_scanFrom count.toNat 1 .empty).bind fun _ =>
    (incremental_require _ (not_isShortage_malformed _)).bind fun _ => .pure _

/-! ## Attributes

  An index that leads nowhere is no lack of input, so looking a name up in the middle keeps a scan
  incremental. -/

/-- The name of an attribute is looked up before its length is read. -/
theorem incremental_header (pool : ConstantPool) : Incremental (Attribute.scanHeader pool) :=
  incremental_u16.lift.bind fun _ => (incremental_resolve _).bind fun _ =>
    incremental_u32.lift.bind fun _ => .pure _

theorem incremental_content (header : Attribute.Header) :
    Incremental (Attribute.scanContent header) :=
  (incremental_bytes header.length).lift.bind fun _ => .pure _

theorem incremental_attribute (pool : ConstantPool) : Incremental (Attribute.scan pool) :=
  (incremental_header pool).bind fun header => incremental_content header

theorem incremental_attributes (pool : ConstantPool) : Incremental (Attribute.scanAll pool) :=
  incremental_u16.lift.counted (incremental_attribute pool)

/-! ## Code -/

theorem incremental_handler : Incremental ExceptionHandler.scan :=
  incremental_u16.bind fun _ => incremental_u16.bind fun _ => incremental_u16.bind fun _ =>
    incremental_u16.bind fun _ => .pure _

/-- A line number table that ends too early is malformed; the class file does not end there. -/
theorem incremental_linesOf (attributes : List Attribute) :
    Incremental (Scan.ofExcept (Code.linesOf attributes)) := by
  refine .ofExcept _ fun e he => ?_
  unfold Code.linesOf at he
  cases hn : Attribute.named? attributes "LineNumberTable" with
  | none =>
    rw [hn] at he
    nomatch he
  | some holder =>
    rw [hn] at he
    cases ht : LineNumberTable.ofBytes? holder.content with
    | some table =>
      simp only [ht] at he
      nomatch he
    | none =>
      simp only [ht] at he
      exact Except.error.inj he ▸ not_isShortage_malformed _

/-- The code of a method is read part by part, and its length is checked against what was declared
    when all of it has been read. -/
theorem incremental_code (pool : ConstantPool) (declared : Nat) :
    Incremental (Code.scan pool declared) :=
  incremental_position.bind fun _ => incremental_u16.lift.bind fun _ =>
    incremental_u16.lift.bind fun _ => incremental_u32.lift.bind fun length =>
    (incremental_require _ (not_isShortage_malformed _)).bind fun _ =>
    (incremental_bytes length.toNat).lift.bind fun _ =>
    (incremental_u16.lift.counted incremental_handler.lift).bind fun _ =>
    (incremental_attributes pool).bind fun attributes =>
    (incremental_linesOf attributes).bind fun _ => incremental_position.bind fun _ =>
    (incremental_require _ (not_isShortage_malformed _)).bind fun _ => .pure _

/-! ## Members -/

theorem incremental_field (pool : ConstantPool) : Incremental (Field.scan pool) :=
  incremental_u16.lift.bind fun _ => incremental_u16.lift.bind fun _ =>
    (incremental_resolve _).bind fun _ => incremental_u16.lift.bind fun _ =>
    (incremental_resolve _).bind fun _ => (incremental_attributes pool).bind fun _ => .pure _

/-- An attribute of a method is read as code if that is its name, and kept as it is otherwise. -/
theorem incremental_part (pool : ConstantPool) : Incremental (Method.scanPart pool) := by
  refine (incremental_header pool).bind fun header => ?_
  by_cases h : header.name = "Code"
  · simp only [h, if_true]
    exact (incremental_code pool header.length).bind fun _ => .pure _
  · simp only [h, if_false]
    exact (incremental_content header).bind fun _ => .pure _

/-- A method is its header and its parts. -/
theorem incremental_method (pool : ConstantPool) : Incremental (Method.scan pool) :=
  incremental_u16.lift.bind fun _ => incremental_u16.lift.bind fun _ =>
    (incremental_resolve _).bind fun _ => incremental_u16.lift.bind fun _ =>
    (incremental_resolve _).bind fun _ =>
    (incremental_u16.lift.counted (incremental_part pool)).bind fun _ => .pure _

/-! ## The whole file -/

/-- Reading a class file depends only on the bytes that it passes. -/
theorem incremental_classFile : Incremental ClassFile.scan :=
  incremental_u32.lift.bind fun found =>
    (incremental_require _ (not_isShortage_notAClassFile found)).bind fun _ =>
    incremental_u16.lift.bind fun _ => incremental_u16.lift.bind fun _ =>
    incremental_pool.bind fun constants => incremental_u16.lift.bind fun _ =>
    incremental_u16.lift.bind fun _ => incremental_u16.lift.bind fun _ =>
    (incremental_u16.lift.counted incremental_u16.lift).bind fun _ =>
    (incremental_u16.lift.counted (incremental_field constants)).bind fun _ =>
    (incremental_u16.lift.counted (incremental_method constants)).bind fun _ =>
    (incremental_attributes constants).bind fun _ => .pure _

end JavaClass
