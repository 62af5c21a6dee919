/-
  What the class file reader accepts.

  A part of a class file is accepted as its stored form, if it can be stored, and as nothing else
  (`Scan.Reads`).  Lists and sequences keep this, so it is proved part by part, from the attributes
  up.

  A method is the one part that is not known from what is kept of it: its code may stand anywhere
  among its attributes, and there may be more of it than is kept.  So a method is described as it is
  declared, attribute by attribute (`Method.Declaration`), and with it the class that it belongs to
  (`ClassFile.Declaration`).  A byte string is a class file exactly if it begins with such a
  declaration, and what is read is what the declaration says (`ClassFile.ofBytes_eq_ok_iff`).
-/
import JavaClass.Proofs.ClassFile.Stored
import JavaClass.Proofs.ClassFile.Truncation
import JavaClass.Proofs.ConstantPool.Grammar

namespace JavaClass

open Scan
open BigEndian (bytes)

/-! ## Forms

  `Reads` says of a scan all there is to say about what it accepts, with a set of valid items in
  between the bytes and the value.  Where the items are the values, as nearly everywhere, this is
  an equivalence without a quantifier (`reads_id`). -/

/-- As many items as a 16-bit number can count, each of them valid. -/
structure Counted {α : Type} (Valid : α → Prop) (items : List α) : Prop where
  length_lt : items.length < 65536
  each : ∀ a ∈ items, Valid a

theorem counted_nil {α : Type} (Valid : α → Prop) : Counted Valid [] :=
  ⟨Nat.zero_lt_succ _, List.forall_mem_nil Valid⟩

namespace Scan

theorem lift_pure {α : Type} (a : α) :
    liftM (pure a : Scan ScanError α) = (pure a : Scan ReadError α) := rfl

theorem lift_bind {α β : Type} (scan : Scan ScanError α) (next : α → Scan ScanError β) :
    liftM (scan >>= next) = (liftM scan >>= fun a => liftM (next a) : Scan ReadError β) :=
  mapError_bind ReadError.ofScan scan next

variable {ε α β : Type} {Valid : β → Prop} {written : β → List UInt8} {value : β → α}

/-- The scan accepts the written forms of valid items, and nothing else, and yields their values. -/
def Reads (scan : Scan ε α) (Valid : β → Prop) (written : β → List UInt8) (value : β → α) : Prop :=
  ∀ p read a, scan.Accepts p read a ↔ ∃ b, Valid b ∧ read = written b ∧ value b = a

/-- Items that are their own values. -/
theorem reads_id {scan : Scan ε α} {Valid : α → Prop} {written : α → List UInt8} :
    scan.Reads Valid written id ↔
      ∀ p read a, scan.Accepts p read a ↔ Valid a ∧ read = written a := by
  have hself : ∀ read a, (∃ b, Valid b ∧ read = written b ∧ id b = a) ↔
      Valid a ∧ read = written a := by
    intro read a
    constructor
    · rintro ⟨b, hb, hr, rfl⟩
      exact ⟨hb, hr⟩
    · rintro ⟨ha, hr⟩
      exact ⟨a, ha, hr, rfl⟩
  simp only [Reads, hself]

/-- What is read item by item is accepted as the forms of these items, one after the other. -/
theorem Reads.all {scan : Scan ε α} (h : scan.Reads Valid written value) {p : Nat}
    {read : List UInt8} {as : List α} :
    scan.AcceptsAll p read as ↔
      ∃ bs : List β, (∀ b ∈ bs, Valid b) ∧ read = bs.flatMap written ∧ bs.map value = as := by
  constructor
  · intro hall
    -- induction on the values: each was read from an item of its own
    induction as generalizing p read with
    | nil =>
      obtain rfl : read = [] := hall
      exact ⟨[], List.forall_mem_nil Valid, rfl, rfl⟩
    | cons a as ih =>
      obtain ⟨first, rest, rfl, ha, hrest⟩ := hall
      obtain ⟨b, hb, rfl, rfl⟩ := (h _ _ _).mp ha
      obtain ⟨bs, hbs, rfl, rfl⟩ := ih hrest
      exact ⟨b :: bs, List.forall_mem_cons.mpr ⟨hb, hbs⟩, List.flatMap_cons.symm, rfl⟩
  · rintro ⟨bs, hbs, rfl, rfl⟩
    -- induction on the items: each is accepted where the one before it ends
    induction bs generalizing p with
    | nil => rfl
    | cons b bs ih =>
      obtain ⟨hb, hbs⟩ := List.forall_mem_cons.mp hbs
      exact ⟨written b, bs.flatMap written, List.flatMap_cons, (h _ _ _).mpr ⟨b, hb, rfl, rfl⟩,
        ih hbs⟩

/-- A counted list is read if its items are. -/
theorem Reads.counted {scan : Scan ReadError α} (h : scan.Reads Valid written value)
    (hi : Incremental scan) :
    (counted (liftM u16) scan).Reads (Counted Valid) (storedList written) (List.map value) := by
  intro p read as
  rw [accepts_counted incremental_u16.lift hi (accepts_lift.trans accepts_u16)]
  constructor
  · rintro ⟨hlen, rest, rfl, hall⟩
    obtain ⟨bs, hbs, rfl, rfl⟩ := h.all.mp hall
    rw [List.length_map] at hlen ⊢
    exact ⟨bs, ⟨hlen, hbs⟩, rfl, rfl⟩
  · rintro ⟨bs, hbs, rfl, rfl⟩
    rw [List.length_map]
    exact ⟨hbs.length_lt, _, rfl, h.all.mpr ⟨bs, hbs.each, rfl, rfl⟩⟩

/-- A counted list of items that are their own values. -/
theorem accepts_counted_iff {scan : Scan ReadError α} {Valid : α → Prop}
    {written : α → List UInt8} (h : scan.Reads Valid written id) (hi : Incremental scan) {p : Nat}
    {read : List UInt8} {as : List α} :
    (counted (liftM u16) scan).Accepts p read as ↔
      Counted Valid as ∧ read = storedList written as := by
  have hcounted := h.counted hi
  rw [List.map_id_fun] at hcounted
  exact reads_id.mp hcounted p read as

/-- An index is read as it is written. -/
theorem reads_u16 : (liftM u16 : Scan ReadError UInt16).Reads (fun _ => True)
    (BigEndian.bytes 2 ·.toNat) id :=
  reads_id.mpr fun _ _ _ => by rw [accepts_lift, accepts_u16, true_and]

end Scan

/-! ## Attributes

  The length of an attribute is stored in front of it and not kept, so it is bounded here and the
  content has exactly that length. -/

namespace Attribute

variable {pool : ConstantPool} {p : Nat} {read : List UInt8}

/-- The header of an attribute: an index that leads to its name, and its length. -/
theorem accepts_scanHeader {header : Header} : (scanHeader pool).Accepts p read header ↔
    pool.utf8 header.nameIndex = .ok header.name ∧ header.length < 0x100000000 ∧
      read = bytes 2 header.nameIndex.toNat ++ bytes 4 header.length := by
  simp only [scanHeader, accepts_u16_bind, accepts_resolve_bind, accepts_u32_bind, accepts_pure]
  constructor
  · rintro ⟨nameIndex, _, rfl, name, hname, length, _, rfl, rfl, rfl⟩
    rw [List.append_nil]
    exact ⟨hname, length.toNat_lt, rfl⟩
  · rintro ⟨hname, hlen, rfl⟩
    have hlength : (UInt32.ofNat header.length).toNat = header.length :=
      UInt32.toNat_ofNat_of_lt' hlen
    refine ⟨header.nameIndex, _, rfl, header.name, hname, UInt32.ofNat header.length, [], ?_, rfl,
      ?_⟩
    · rw [hlength, List.append_nil]
    · rw [hlength]

/-- The content of an attribute: as many bytes as its header says. -/
theorem accepts_scanContent {header : Header} {a : Attribute} :
    (scanContent header).Accepts p read a ↔
      read.length = header.length ∧ a = ⟨header.nameIndex, header.name, read⟩ := by
  rw [scanContent, accepts_map (incremental_bytes _).lift]
  simp only [accepts_lift, accepts_bytes]
  constructor
  · rintro ⟨content, ⟨hlen, rfl⟩, rfl⟩
    exact ⟨hlen, rfl⟩
  · rintro ⟨hlen, rfl⟩
    exact ⟨read, ⟨hlen, rfl⟩, rfl⟩

/-- An attribute is read from its stored form and no other bytes. -/
theorem reads_scan : (scan pool).Reads (Storable pool) stored id := by
  refine reads_id.mpr fun p read a => ?_
  rw [scan, accepts_bind (incremental_header pool)]
  constructor
  · rintro ⟨_, content, header, rfl, hheader, hcontent⟩
    obtain ⟨hname, hlen, rfl⟩ := accepts_scanHeader.mp hheader
    obtain ⟨hread, rfl⟩ := accepts_scanContent.mp hcontent
    rw [← hread] at hlen ⊢
    exact ⟨⟨hname, hlen⟩, rfl⟩
  · rintro ⟨h, rfl⟩
    exact ⟨_, a.content, ⟨a.nameIndex, a.name, a.content.length⟩, rfl,
      accepts_scanHeader.mpr ⟨h.name, h.length_lt, rfl⟩, accepts_scanContent.mpr ⟨rfl, rfl⟩⟩

/-- A list of attributes is storable if it can be counted and each of them is storable. -/
theorem allStorable_iff {attributes : List Attribute} :
    AllStorable pool attributes ↔ Counted (Storable pool) attributes :=
  ⟨fun h => ⟨h.length_lt, h.each⟩, fun h => ⟨h.length_lt, h.each⟩⟩

/-- A list of attributes is read from its stored form. -/
theorem accepts_scanAll {attributes : List Attribute} :
    (scanAll pool).Accepts p read attributes ↔
      AllStorable pool attributes ∧ read = storedList stored attributes := by
  rw [scanAll, accepts_counted_iff reads_scan (incremental_attribute pool), allStorable_iff]

end Attribute

/-! ## Code

  The reader takes the parts of code in a row and then compares: the nested line number tables
  with what their attributes contain, and the number of bytes that were read with the length that
  was declared.  The two stages are separated (`scanBody`, `checkBody`), since the second is made
  without reading. -/

/-- A class that a handler catches is read off its index, and index 0 off everything. -/
theorem ExceptionHandler.catchType_eq_iff {index : UInt16} {catchType : Option UInt16} :
    (if index = 0 then none else some index) = catchType ↔
      catchType ≠ some 0 ∧ index = catchType.getD 0 := by
  split
  · rename_i hzero
    cases catchType with
    | none => simp [hzero]
    | some other => simp [hzero, eq_comm]
  · rename_i hne
    cases catchType with
    | none => simp [hne]
    | some other =>
      simp only [Option.some.injEq, Option.getD_some, ne_eq]
      constructor
      · rintro rfl
        exact ⟨hne, rfl⟩
      · rintro ⟨-, rfl⟩
        rfl

/-- An exception handler is read from its stored form; index 0 is nothing to catch. -/
theorem ExceptionHandler.reads_scan : (liftM ExceptionHandler.scan : Scan ReadError _).Reads
    (·.catchType ≠ some 0) ExceptionHandler.stored id := by
  refine reads_id.mpr fun p read h => ?_
  simp only [ExceptionHandler.scan, lift_bind, lift_pure, accepts_u16_bind, accepts_pure]
  constructor
  · rintro ⟨start, _, rfl, stop, _, rfl, handler, _, rfl, index, _, rfl, rfl, rfl⟩
    obtain ⟨hcatch, hindex⟩ := catchType_eq_iff.mp (rfl : (if index = 0 then none else _) = _)
    refine ⟨hcatch, ?_⟩
    rw [stored, ← hindex]
    simp only [List.append_assoc, List.append_nil]
  · rintro ⟨hcatch, rfl⟩
    refine ⟨h.start, _, ?_, h.stop, _, rfl, h.handler, _, rfl, h.catchType.getD 0, [], rfl, rfl, ?_⟩
    · simp only [stored, List.append_assoc, List.append_nil]
    · rw [catchType_eq_iff.mpr ⟨hcatch, rfl⟩]

/-- No attribute of a name is found exactly if there is none. -/
theorem Attribute.named?_eq_none {attributes : List Attribute} {name : String} :
    named? attributes name = none ↔ ∀ a ∈ attributes, a.name ≠ name := by
  simp [named?]

/-- An attribute is found by its name exactly if those before it have other names. -/
theorem Attribute.named?_eq_some {attributes : List Attribute} {name : String}
    {holder : Attribute} :
    named? attributes name = some holder ↔ holder.name = name ∧
      ∃ before after, attributes = before ++ holder :: after ∧ ∀ a ∈ before, a.name ≠ name := by
  rw [named?, List.find?_eq_some_iff_append]
  simp

namespace Code

variable {pool : ConstantPool} {p declared : Nat} {read : List UInt8}

/-- The line numbers that the attributes give are those that are found. -/
theorem linesOf_eq_ok {attributes : List Attribute} {lines : Option LineNumberTable} :
    linesOf attributes = .ok lines ↔ HasLines attributes lines := by
  constructor
  · intro h
    -- no table, or the first one, which is a table only if all of its content is
    unfold linesOf at h
    split at h
    · rename_i hnone
      cases h
      exact .none (Attribute.named?_eq_none.mp hnone)
    · rename_i holder hsome
      obtain ⟨hname, before, after, rfl, hbefore⟩ := Attribute.named?_eq_some.mp hsome
      split at h
      · rename_i table htable
        cases h
        obtain ⟨declared, hlen, hcontent, rfl⟩ := LineNumberTable.ofBytes?_eq_some.mp htable
        exact .first hbefore hname hlen hcontent (LineNumberTable.isStableSort_ofEntries declared)
      · nomatch h
  · intro h
    cases h with
    | none absent => rw [linesOf, Attribute.named?_eq_none.mpr absent]
    | @first before after holder declared kept absent name length_lt content sorted =>
      have hsome := Attribute.named?_eq_some.mpr ⟨name, before, after, rfl, absent⟩
      have htable : LineNumberTable.ofBytes? holder.content = some ⟨kept⟩ :=
        LineNumberTable.ofBytes?_eq_some.mpr
          ⟨declared, length_lt, content, (LineNumberTable.isStableSort_iff.mp sorted).symm⟩
      rw [linesOf, hsome]
      simp only [htable]

/-- Whether code can be read, apart from what is compared in the end: its line numbers with its
    attributes, and its length with the one that is declared. -/
structure Readable (pool : ConstantPool) (code : Code) : Prop where
  array_pos : 0 < code.array.length
  array_le : code.array.length ≤ 65535
  handlers : Counted (·.catchType ≠ some 0) code.handlers
  attributes : Attribute.AllStorable pool code.attributes

/-- A code is storable if it can be read, its lines are those of the first table, and its length
    fits. -/
theorem storable_iff {code : Code} : code.Storable pool ↔ code.Readable pool ∧
    HasLines code.attributes code.lines ∧ code.stored.length < 0x100000000 := by
  constructor
  · intro h
    exact ⟨⟨h.array_pos, h.array_le, ⟨h.handlers_length, h.catchType⟩, h.attributes⟩, h.lines,
      h.length_lt⟩
  · rintro ⟨h, hlines, hlen⟩
    exact ⟨h.array_pos, h.array_le, h.handlers.length_lt, h.handlers.each, h.attributes, hlines,
      hlen⟩

/-- The parts of a method's code, before any of them is compared with another. -/
def scanBody (pool : ConstantPool) : Scan ReadError Code := do
  let maxStack ← u16
  let maxLocals ← u16
  let length ← u32
  require (0 < length.toNat ∧ length.toNat ≤ maxCodeLength)
    (.malformed (.codeLength length.toNat))
  let array ← Scan.bytes length.toNat
  let handlers ← counted u16 ExceptionHandler.scan
  let attributes ← Attribute.scanAll pool
  return { maxStack, maxLocals, array, handlers, attributes, lines := none }

/-- What is compared behind them, for code that starts at the offset `start`. -/
def checkBody (start declared : Nat) (body : Code) : Scan ReadError Code := do
  let lines ← Scan.ofExcept (linesOf body.attributes)
  let stop ← position
  require (stop - start = declared) (.malformed (.codeAttributeLength declared (stop - start)))
  return { body with lines }

/-- Code is read part by part, and then compared. -/
theorem scan_eq (pool : ConstantPool) (declared : Nat) : scan pool declared = (do
    let start ← position
    let body ← scanBody pool
    checkBody start declared body) := by
  simp only [scan, scanBody, checkBody, bind_assoc, pure_bind]

theorem incremental_scanBody (pool : ConstantPool) : Incremental (scanBody pool) :=
  incremental_u16.lift.bind fun _ => incremental_u16.lift.bind fun _ =>
    incremental_u32.lift.bind fun length =>
    (incremental_require _ (not_isShortage_malformed _)).bind fun _ =>
    (incremental_bytes length.toNat).lift.bind fun _ =>
    (incremental_u16.lift.counted incremental_handler.lift).bind fun _ =>
    (incremental_attributes pool).bind fun _ => .pure _

/-- The body of a code is read from its stored form, and its lines are left for later. -/
theorem accepts_scanBody {body : Code} : (scanBody pool).Accepts p read body ↔
    body.Readable pool ∧ body.lines = none ∧ read = body.stored := by
  simp only [scanBody, accepts_u16_bind, accepts_u32_bind, accepts_require_bind,
    accepts_bind (incremental_bytes _).lift, accepts_lift, accepts_bytes,
    accepts_bind (incremental_u16.lift.counted incremental_handler.lift),
    accepts_counted_iff ExceptionHandler.reads_scan incremental_handler.lift,
    accepts_bind (incremental_attributes pool), Attribute.accepts_scanAll, accepts_pure]
  constructor
  · rintro ⟨maxStack, _, rfl, maxLocals, _, rfl, length, _, rfl, ⟨hpos, hle⟩, array, _, _, rfl,
      ⟨hlen, rfl⟩, _, _, handlers, rfl, ⟨hhandlers, rfl⟩, _, _, attributes, rfl,
      ⟨hattributes, rfl⟩, rfl, rfl⟩
    -- the number that was read is the number of bytes that were taken
    rw [← hlen] at hpos hle ⊢
    refine ⟨⟨hpos, hle, hhandlers, hattributes⟩, rfl, ?_⟩
    simp only [stored, List.append_assoc, List.append_nil]
  · rintro ⟨h, hlines, rfl⟩
    have hle := h.array_le
    have hlength : (UInt32.ofNat body.array.length).toNat = body.array.length :=
      UInt32.toNat_ofNat_of_lt' (show _ < 0x100000000 by omega)
    refine ⟨body.maxStack, _, ?_, body.maxLocals, _, rfl, UInt32.ofNat body.array.length, _, rfl,
      ?_, body.array, _, body.array, rfl, ⟨?_, rfl⟩, _, _, body.handlers, rfl, ⟨h.handlers, rfl⟩,
      _, [], body.attributes, rfl, ⟨h.attributes, rfl⟩, rfl, ?_⟩
    · rw [hlength]
      simp only [stored, List.append_assoc, List.append_nil]
    · rw [hlength]
      exact ⟨h.array_pos, hle⟩
    · exact hlength.symm
    · rw [← hlines]

/-- Code is accepted as its stored form if its attribute declares the length of that. -/
theorem accepts_scan {code : Code} (hdeclared : declared < 0x100000000) :
    (scan pool declared).Accepts p read code ↔
      code.Storable pool ∧ declared = code.stored.length ∧ read = code.stored := by
  rw [scan_eq, accepts_position_bind, accepts_bind (incremental_scanBody pool)]
  simp only [accepts_scanBody, checkBody, accepts_ofExcept_bind, linesOf_eq_ok,
    accepts_position_bind, accepts_require_bind, accepts_pure, storable_iff]
  constructor
  · rintro ⟨_, _, body, rfl, ⟨hbody, hnone, rfl⟩, lines, hlines, hlen, rfl, rfl⟩
    -- what was read since the start is the stored form, so that is what the length is compared with
    rw [Nat.add_sub_cancel_left] at hlen
    rw [List.append_nil]
    rw [← hlen] at hdeclared
    exact ⟨⟨⟨hbody.array_pos, hbody.array_le, hbody.handlers, hbody.attributes⟩, hlines,
      hdeclared⟩, hlen.symm, rfl⟩
  · rintro ⟨⟨hbody, hlines, -⟩, rfl, rfl⟩
    exact ⟨code.stored, [], { code with lines := none }, (List.append_nil _).symm,
      ⟨⟨hbody.array_pos, hbody.array_le, hbody.handlers, hbody.attributes⟩, rfl, rfl⟩, code.lines,
      hlines, Nat.add_sub_cancel_left .., rfl, rfl⟩

end Code

/-! ## Members

  A field has nothing but attributes that are kept as they are.  A method has code among them, and
  so it is read from a declaration that lists its attributes as they come. -/

/-- A field is read from its stored form. -/
theorem Field.reads_scan (pool : ConstantPool) :
    (scan pool).Reads (Storable pool) stored id := by
  refine reads_id.mpr fun p read f => ?_
  simp only [scan, accepts_u16_bind, accepts_resolve_bind,
    accepts_bind (incremental_attributes pool), Attribute.accepts_scanAll, accepts_pure]
  constructor
  · rintro ⟨accessFlags, _, rfl, nameIndex, _, rfl, name, hname, descriptorIndex, _, rfl,
      descriptor, hdescriptor, _, _, attributes, rfl, ⟨hattributes, rfl⟩, rfl, rfl⟩
    refine ⟨⟨hname, hdescriptor, hattributes⟩, ?_⟩
    simp only [stored, List.append_assoc, List.append_nil]
  · rintro ⟨h, rfl⟩
    refine ⟨f.accessFlags, _, ?_, f.nameIndex, _, rfl, f.name, h.name, f.descriptorIndex, _, rfl,
      f.descriptor, h.descriptor, _, [], f.attributes, rfl, ⟨h.attributes, rfl⟩, rfl, rfl⟩
    simp only [stored, List.append_assoc, List.append_nil]

namespace Method

/-- An attribute of a method as it is declared: code, under some index of its name, or another. -/
inductive Item where
  | code (nameIndex : UInt16) (body : Code)
  | other (unparsed : Attribute)
deriving DecidableEq, Repr

namespace Item

/-- An attribute as it is written, its length in front of its content. -/
def written : Item → List UInt8
  | .code nameIndex body => bytes 2 nameIndex.toNat ++ bytes 4 body.stored.length ++ body.stored
  | .other unparsed => unparsed.stored

/-- What is read of an attribute. -/
def part : Item → Part
  | .code _ body => .code body
  | .other unparsed => .other unparsed

/-- Whether an attribute can be declared: what is called code is code. -/
inductive Valid (pool : ConstantPool) : Item → Prop
  | code {nameIndex : UInt16} {body : Code} (name : pool.utf8 nameIndex = .ok "Code")
    (storable : body.Storable pool) : Valid pool (.code nameIndex body)
  | other {unparsed : Attribute} (name : unparsed.name ≠ "Code")
    (storable : unparsed.Storable pool) : Valid pool (.other unparsed)

end Item

/-- An attribute of a method is read as what was written, code or not. -/
theorem reads_scanPart (pool : ConstantPool) :
    (scanPart pool).Reads (Item.Valid pool) Item.written Item.part := by
  intro p read part
  rw [scanPart, accepts_bind (incremental_header pool)]
  constructor
  · rintro ⟨_, content, header, rfl, hheader, h⟩
    obtain ⟨hname, hlen, rfl⟩ := Attribute.accepts_scanHeader.mp hheader
    -- the name decides whether the content is code or is kept as it is
    by_cases hcode : header.name = "Code"
    · rw [if_pos hcode] at h
      obtain ⟨body, hbody, rfl⟩ := (accepts_map (incremental_code pool _)).mp h
      obtain ⟨hstorable, hdeclared, rfl⟩ := (Code.accepts_scan hlen).mp hbody
      rw [hcode] at hname
      rw [hdeclared]
      exact ⟨.code header.nameIndex body, .code hname hstorable, rfl, rfl⟩
    · rw [if_neg hcode] at h
      obtain ⟨a, ha, rfl⟩ := (accepts_map (incremental_content header)).mp h
      obtain ⟨hread, rfl⟩ := Attribute.accepts_scanContent.mp ha
      rw [← hread] at hlen ⊢
      exact ⟨.other ⟨header.nameIndex, header.name, content⟩, .other hcode ⟨hname, hlen⟩, rfl, rfl⟩
  · rintro ⟨item, hitem, rfl, rfl⟩
    -- an item that may be declared is found again by its name
    cases hitem with
    | @code nameIndex body name storable =>
      refine ⟨_, body.stored, ⟨nameIndex, "Code", body.stored.length⟩, rfl,
        Attribute.accepts_scanHeader.mpr ⟨name, storable.length_lt, rfl⟩, ?_⟩
      rw [if_pos rfl]
      exact (accepts_map (incremental_code pool _)).mpr
        ⟨body, (Code.accepts_scan storable.length_lt).mpr ⟨storable, rfl, rfl⟩, rfl⟩
    | @other a name storable =>
      refine ⟨_, a.content, ⟨a.nameIndex, a.name, a.content.length⟩, rfl,
        Attribute.accepts_scanHeader.mpr ⟨storable.name, storable.length_lt, rfl⟩, ?_⟩
      rw [if_neg name]
      exact (accepts_map (incremental_content _)).mpr
        ⟨a, Attribute.accepts_scanContent.mpr ⟨rfl, rfl⟩, rfl⟩

/-- A method as it is declared, attribute by attribute. -/
structure Declaration where
  accessFlags : UInt16
  nameIndex : UInt16
  descriptorIndex : UInt16
  name : String
  descriptor : String
  items : List Item
deriving DecidableEq, Repr

namespace Declaration

/-- What precedes the attributes of a method. -/
def head (d : Declaration) : List UInt8 :=
  bytes 2 d.accessFlags.toNat ++ bytes 2 d.nameIndex.toNat ++ bytes 2 d.descriptorIndex.toNat

/-- A declaration as it is written. -/
def written (d : Declaration) : List UInt8 := d.head ++ storedList Item.written d.items

/-- What is read of a declaration. -/
def method (d : Declaration) : Method where
  accessFlags := d.accessFlags
  nameIndex := d.nameIndex
  descriptorIndex := d.descriptorIndex
  name := d.name
  descriptor := d.descriptor
  attributes := attributesOf (d.items.map Item.part)
  code := codeOf (d.items.map Item.part)

/-- Whether names and attributes of a declaration are those of the pool. -/
structure Valid (pool : ConstantPool) (d : Declaration) : Prop where
  name : pool.utf8 d.nameIndex = .ok d.name
  descriptor : pool.utf8 d.descriptorIndex = .ok d.descriptor
  items : Counted (Item.Valid pool) d.items

end Declaration

/-- A method is read from what is written for its declaration. -/
theorem reads_scan (pool : ConstantPool) :
    (scan pool).Reads (Declaration.Valid pool) Declaration.written Declaration.method := by
  have hparts := (reads_scanPart pool).counted (incremental_part pool)
  intro p read m
  simp only [scan, accepts_u16_bind, accepts_resolve_bind,
    accepts_bind (incremental_u16.lift.counted (incremental_part pool)), accepts_pure]
  constructor
  · rintro ⟨accessFlags, _, rfl, nameIndex, _, rfl, name, hname, descriptorIndex, _, rfl,
      descriptor, hdescriptor, _, _, parts, rfl, hall, rfl, rfl⟩
    obtain ⟨items, hitems, rfl, rfl⟩ := (hparts _ _ _).mp hall
    refine ⟨⟨accessFlags, nameIndex, descriptorIndex, name, descriptor, items⟩,
      ⟨hname, hdescriptor, hitems⟩, ?_, rfl⟩
    simp only [Declaration.written, Declaration.head, List.append_assoc, List.append_nil]
  · rintro ⟨d, h, rfl, rfl⟩
    refine ⟨d.accessFlags, _, ?_, d.nameIndex, _, rfl, d.name, h.name, d.descriptorIndex, _, rfl,
      d.descriptor, h.descriptor, _, [], d.items.map Item.part, rfl,
      (hparts _ _ _).mpr ⟨d.items, h.items, rfl, rfl⟩, rfl, rfl⟩
    simp only [Declaration.written, Declaration.head, List.append_assoc, List.append_nil]

end Method

/-! ## The whole file

  The parts of a class file stand in a row, and all of them are read with the pool that was read
  first.  The functions `upTo…` name what precedes each part; other modules say with them where a
  place is. -/

namespace ClassFile

/-- A class file as it is declared.  The constants are listed with the bytes that they are written
    as, since a text may be spelled in several ways. -/
structure Declaration where
  version : Version
  constants : List Constant
  spelled : List UInt8
  accessFlags : UInt16
  thisClass : UInt16
  superClass : UInt16
  interfaces : List UInt16
  fields : List Field
  methods : List Method.Declaration
  attributes : List Attribute
deriving DecidableEq, Repr

namespace Declaration

/-- The pool of a declaration. -/
def pool (d : Declaration) : ConstantPool := .ofList d.constants

/-- What precedes the flags of a class. -/
def head (d : Declaration) : List UInt8 :=
  bytes 4 0xCAFEBABE ++ bytes 2 d.version.minor.toNat ++ bytes 2 d.version.major.toNat ++ d.spelled

/-- What precedes the interfaces of a class. -/
def upToInterfaces (d : Declaration) : List UInt8 :=
  d.head ++ bytes 2 d.accessFlags.toNat ++ bytes 2 d.thisClass.toNat ++ bytes 2 d.superClass.toNat

/-- What precedes the fields of a class. -/
def upToFields (d : Declaration) : List UInt8 :=
  d.upToInterfaces ++ storedList (bytes 2 ·.toNat) d.interfaces

/-- What precedes the methods of a class. -/
def upToMethods (d : Declaration) : List UInt8 := d.upToFields ++ storedList Field.stored d.fields

/-- What precedes the attributes of a class. -/
def upToAttributes (d : Declaration) : List UInt8 :=
  d.upToMethods ++ storedList Method.Declaration.written d.methods

/-- A declaration as it is written. -/
def written (d : Declaration) : List UInt8 :=
  d.upToAttributes ++ storedList Attribute.stored d.attributes

/-- All that is written for a class, in its order. -/
theorem written_eq (d : Declaration) : d.written =
    bytes 4 0xCAFEBABE ++ bytes 2 d.version.minor.toNat ++ bytes 2 d.version.major.toNat ++
      d.spelled ++ bytes 2 d.accessFlags.toNat ++ bytes 2 d.thisClass.toNat ++
      bytes 2 d.superClass.toNat ++ storedList (bytes 2 ·.toNat) d.interfaces ++
      storedList Field.stored d.fields ++ storedList Method.Declaration.written d.methods ++
      storedList Attribute.stored d.attributes := rfl

/-- What is read of a declaration. -/
def classFile (d : Declaration) : ClassFile where
  version := d.version
  constants := d.pool
  accessFlags := d.accessFlags
  thisClass := d.thisClass
  superClass := d.superClass
  interfaces := d.interfaces
  fields := d.fields
  methods := d.methods.map Method.Declaration.method
  attributes := d.attributes

/-- Whether the parts of a declaration can be declared with its pool. -/
structure Valid (d : Declaration) : Prop where
  constants : ConstantPool.EncodedAs d.constants d.spelled
  interfaces : Counted (fun _ => True) d.interfaces
  fields : Counted (Field.Storable d.pool) d.fields
  methods : Counted (Method.Declaration.Valid d.pool) d.methods
  attributes : Attribute.AllStorable d.pool d.attributes

end Declaration

/-- A class is read from what is written for its declaration. -/
theorem reads_scan : scan.Reads Declaration.Valid Declaration.written Declaration.classFile := by
  have hmethods := fun pool => (Method.reads_scan pool).counted (incremental_method pool)
  intro p read c
  simp only [scan, accepts_u32_bind, accepts_u16_bind, accepts_require_bind,
    accepts_bind incremental_pool, ConstantPool.accepts_scan,
    accepts_bind (incremental_u16.lift.counted incremental_u16.lift),
    accepts_counted_iff reads_u16 incremental_u16.lift,
    accepts_bind (incremental_u16.lift.counted (incremental_field _)),
    accepts_counted_iff (Field.reads_scan _) (incremental_field _),
    accepts_bind (incremental_u16.lift.counted (incremental_method _)),
    accepts_bind (incremental_attributes _), Attribute.accepts_scanAll, accepts_pure]
  constructor
  · rintro ⟨_, _, rfl, rfl, minor, _, rfl, major, _, rfl, spelled, _, _, rfl,
      ⟨constants, hconstants, rfl⟩, accessFlags, _, rfl, thisClass, _, rfl, superClass, _, rfl, h⟩
    obtain ⟨_, _, interfaces, rfl, ⟨hinterfaces, rfl⟩, _, _, fields, rfl, ⟨hfields, rfl⟩, _, _, ms,
      rfl, hms, _, _, attributes, rfl, ⟨hattributes, rfl⟩, rfl, rfl⟩ := h
    obtain ⟨methods, hvalid, rfl, rfl⟩ := (hmethods _ _ _ _).mp hms
    refine ⟨⟨⟨major, minor⟩, constants, spelled, accessFlags, thisClass, superClass, interfaces,
      fields, methods, attributes⟩,
      ⟨hconstants, hinterfaces, hfields, hvalid, hattributes⟩, ?_, rfl⟩
    simp only [Declaration.written_eq, List.append_assoc, List.append_nil]
    rfl
  · rintro ⟨d, h, rfl, rfl⟩
    refine ⟨magic, _, ?_, rfl, d.version.minor, _, rfl, d.version.major, _, rfl, d.spelled, _, _,
      rfl, ⟨d.constants, h.constants, rfl⟩, d.accessFlags, _, rfl, d.thisClass, _, rfl,
      d.superClass, _, rfl, _, _, d.interfaces, rfl, ⟨h.interfaces, rfl⟩, _, _, d.fields, rfl,
      ⟨h.fields, rfl⟩, _, _, d.methods.map Method.Declaration.method, rfl,
      (hmethods _ _ _ _).mpr ⟨d.methods, h.methods, rfl, rfl⟩, _, [], d.attributes, rfl,
      ⟨h.attributes, rfl⟩, rfl, rfl⟩
    simp only [Declaration.written_eq, List.append_assoc, List.append_nil]
    rfl

/-- The bytes begin with the declaration, and the class is what it says. -/
structure Declaration.Describes (d : Declaration) (data : List UInt8) (c : ClassFile) : Prop where
  valid : d.Valid
  begins : ∃ rest, data = d.written ++ rest
  class_eq : d.classFile = c

/-- **What is a class file.**  A class is read exactly off the byte strings that begin with a
    declaration of it. -/
theorem ofBytes_eq_ok_iff {data : List UInt8} {c : ClassFile} :
    ofBytes data = .ok c ↔ ∃ d : Declaration, d.Describes data c := by
  constructor
  · intro h
    obtain ⟨read, rest, rfl, ha⟩ := accepts_of_ofBytes h
    obtain ⟨d, hvalid, rfl, rfl⟩ := (reads_scan _ _ _).mp ha
    exact ⟨d, hvalid, ⟨rest, rfl⟩, rfl⟩
  · rintro ⟨d, hvalid, ⟨rest, rfl⟩, rfl⟩
    exact ofBytes_of_accepts ((reads_scan 0 _ _).mpr ⟨d, hvalid, rfl, rfl⟩) rest

end ClassFile

end JavaClass
