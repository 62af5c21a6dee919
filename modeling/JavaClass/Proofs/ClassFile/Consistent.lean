/-
  What holds of every class that is read.

  A class keeps a name beside the index that it was looked up by, and the line numbers of its
  methods beside the attribute that they were read from.  `Consistent` says that these agree, part
  by part, and that code arrays and exception handlers are within their bounds.  Each scan of the
  format ensures it for the part that it reads, so it holds of every class that a byte string is
  read as, however odd that byte string is (`consistent_of_ofBytes`).
-/
import JavaClass.Proofs.Bytes.Ensures
import JavaClass.Proofs.ClassFile.RoundTrip
import JavaClass.Proofs.ConstantPool.Lookup

namespace JavaClass

open Scan

/-! ## Consistent classes

  The reader looks names up and keeps the indexes, so the two could disagree.  `Consistent`
  collects, part by part, all the ways in which they could. -/

/-- An attribute has the name that the pool holds at its index. -/
def Attribute.Named (pool : ConstantPool) (a : Attribute) : Prop :=
  pool.utf8 a.nameIndex = .ok a.name

/-- The code of a method agrees with its pool and within itself. -/
structure Code.Consistent (pool : ConstantPool) (code : Code) : Prop where
  array_pos : 0 < code.array.length
  array_le : code.array.length ≤ 65535
  /-- A handler that catches everything has no index. -/
  catchType : ∀ h ∈ code.handlers, h.catchType ≠ some 0
  attributes : ∀ a ∈ code.attributes, a.Named pool
  /-- The line numbers are those of the first line number table. -/
  lines : HasLines code.attributes code.lines

/-- A field agrees with its pool. -/
structure Field.Consistent (pool : ConstantPool) (f : Field) : Prop where
  name : pool.utf8 f.nameIndex = .ok f.name
  descriptor : pool.utf8 f.descriptorIndex = .ok f.descriptor
  attributes : ∀ a ∈ f.attributes, a.Named pool

/-- A method agrees with its pool, and its code is not among its other attributes. -/
structure Method.Consistent (pool : ConstantPool) (m : Method) : Prop where
  name : pool.utf8 m.nameIndex = .ok m.name
  descriptor : pool.utf8 m.descriptorIndex = .ok m.descriptor
  attributes : ∀ a ∈ m.attributes, a.Named pool ∧ a.name ≠ "Code"
  code : ∀ code, m.code = some code → code.Consistent pool

/-- A class agrees with its pool in all its parts. -/
structure ClassFile.Consistent (c : ClassFile) : Prop where
  constants : c.constants.size ≤ 65534
  fields : ∀ f ∈ c.fields, f.Consistent c.constants
  methods : ∀ m ∈ c.methods, m.Consistent c.constants
  attributes : ∀ a ∈ c.attributes, a.Named c.constants

/-! ## The constant pool -/

/-- The count of a pool is one more than its slots and fits sixteen bits. -/
theorem ConstantPool.ensures_scan : scan.Ensures fun pool => pool.size ≤ 65534 := by
  intro c pool d h
  obtain ⟨constants, rfl, hslots⟩ := slotsOf_le_of_scan h
  rwa [size_ofList]

/-! ## Attributes -/

namespace Attribute
variable (pool : ConstantPool)

/-- The name of an attribute is the text that its index leads to. -/
theorem ensures_scanHeader :
    (scanHeader pool).Ensures fun header => pool.utf8 header.nameIndex = .ok header.name :=
  .behind fun nameIndex => (ensures_resolve (pool.utf8 nameIndex)).bind fun _ hname =>
    .behind fun _ => .pure hname

/-- An attribute has the name of its header, with the index that was looked up for it. -/
theorem ensures_scanContent {header : Header} (h : pool.utf8 header.nameIndex = .ok header.name) :
    (scanContent header).Ensures fun a => a.Named pool ∧ a.name = header.name :=
  .behind fun _ => .pure ⟨h, rfl⟩

/-- So it is with the content behind the header. -/
theorem ensures_scan : (scan pool).Ensures (Named pool) :=
  (ensures_scanHeader pool).bind fun _ hheader =>
    (ensures_scanContent pool hheader).mono fun _ ha => ha.1

/-- All attributes of a list are named by the pool. -/
theorem ensures_scanAll : (scanAll pool).Ensures fun attributes => ∀ a ∈ attributes, a.Named pool :=
  (ensures_scan pool).counted _

end Attribute

/-! ## Code

  The bounds on a code array are checked, and the lines are made from the attributes that are
  kept. -/

/-- An index of zero is read as no index. -/
theorem ExceptionHandler.ensures_scan : scan.Ensures fun h => h.catchType ≠ some 0 := by
  refine .behind fun _ => .behind fun _ => .behind fun _ => .behind fun catchType => .pure ?_
  show (if catchType = 0 then none else some catchType) ≠ some 0
  split
  · nofun
  · rename_i hne
    intro h
    exact hne (Option.some.inj h)

/-- The line numbers are looked up in the attributes that were read before. -/
theorem Code.ensures_linesOf (attributes : List Attribute) :
    (ofExcept (linesOf attributes)).Ensures (HasLines attributes) := by
  intro c lines d h
  exact linesOf_eq_ok.mp (ensures_ofExcept _ _ _ _ h)

/-- The length of a code is checked, its attributes are named, and its lines are sorted. -/
theorem Code.ensures_scan (pool : ConstantPool) (declared : Nat) :
    (scan pool declared).Ensures (Consistent pool) := by
  refine .behind fun _ => .behind fun _ => .behind fun _ => .behind fun length => ?_
  refine (ensures_require _ _).bind fun _ hlength => ?_
  refine (ensures_bytes length.toNat).lift.bind fun array harray => ?_
  refine (ExceptionHandler.ensures_scan.lift.counted _).bind fun handlers hhandlers => ?_
  refine (Attribute.ensures_scanAll pool).bind fun attributes hattributes => ?_
  refine (ensures_linesOf attributes).bind fun lines hlines => ?_
  -- the length of the whole attribute is checked as well, but not kept
  refine .behind fun _ => .behind fun _ => .pure ?_
  obtain ⟨hpos, hle⟩ := hlength
  exact ⟨harray ▸ hpos, harray ▸ hle, hhandlers, hattributes, hlines⟩

/-! ## Members -/

/-- A field is named and described by the pool, and so are its attributes. -/
theorem Field.ensures_scan (pool : ConstantPool) : (scan pool).Ensures (Consistent pool) := by
  refine .behind fun _ => .behind fun nameIndex => ?_
  refine (ensures_resolve (pool.utf8 nameIndex)).bind fun name hname => ?_
  refine .behind fun descriptorIndex => ?_
  refine (ensures_resolve (pool.utf8 descriptorIndex)).bind fun descriptor hdescriptor => ?_
  refine (Attribute.ensures_scanAll pool).bind fun attributes hattributes => .pure ?_
  exact ⟨hname, hdescriptor, hattributes⟩

namespace Method

/-- The code of a method is consistent, and its other attributes are named, but not as code. -/
def Part.Consistent (pool : ConstantPool) : Part → Prop
  | .code body => body.Consistent pool
  | .other unparsed => unparsed.Named pool ∧ unparsed.name ≠ "Code"

/-- What is read as code is consistent code, and what is kept is a named attribute. -/
theorem ensures_scanPart (pool : ConstantPool) :
    (scanPart pool).Ensures (Part.Consistent pool) := by
  refine (Attribute.ensures_scanHeader pool).bind fun header hheader => ?_
  split
  · exact (Code.ensures_scan pool header.length).bind fun _ hbody => .pure hbody
  · rename_i hname
    refine (Attribute.ensures_scanContent pool hheader).bind fun a ha => .pure ?_
    obtain ⟨hnamed, heq⟩ := ha
    exact ⟨hnamed, by rwa [heq]⟩

/-- The attributes of a method are parts of it. -/
theorem other_mem_of_mem_attributesOf {parts : List Part} {a : Attribute}
    (h : a ∈ attributesOf parts) : Part.other a ∈ parts := by
  obtain ⟨part, hpart, ha⟩ := List.mem_filterMap.mp h
  cases part with
  | code body => nomatch ha
  | other unparsed =>
    cases ha
    exact hpart

/-- The code of a method is a part of it. -/
theorem code_mem_of_codeOf {parts : List Part} {body : Code} (h : codeOf parts = some body) :
    Part.code body ∈ parts := by
  obtain ⟨part, hpart, hbody⟩ := List.exists_of_findSome?_eq_some h
  cases part with
  | code found =>
    cases hbody
    exact List.mem_reverse.mp hpart
  | other unparsed => nomatch hbody

/-- A method is named and described by the pool, and its parts are consistent. -/
theorem ensures_scan (pool : ConstantPool) : (scan pool).Ensures (Consistent pool) := by
  refine .behind fun _ => .behind fun nameIndex => ?_
  refine (ensures_resolve (pool.utf8 nameIndex)).bind fun name hname => ?_
  refine .behind fun descriptorIndex => ?_
  refine (ensures_resolve (pool.utf8 descriptorIndex)).bind fun descriptor hdescriptor => ?_
  refine ((ensures_scanPart pool).counted _).bind fun parts hparts => .pure ?_
  have hothers : ∀ a ∈ attributesOf parts, a.Named pool ∧ a.name ≠ "Code" :=
    fun a ha => hparts (.other a) (other_mem_of_mem_attributesOf ha)
  have hcode : ∀ body, codeOf parts = some body → body.Consistent pool :=
    fun body hbody => hparts (.code body) (code_mem_of_codeOf hbody)
  exact ⟨hname, hdescriptor, hothers, hcode⟩

end Method

/-! ## The whole file -/

namespace ClassFile

/-- A class is put together from parts that are consistent with its pool. -/
theorem ensures_scan : scan.Ensures Consistent := by
  refine .behind fun _ => .behind fun _ => .behind fun _ => .behind fun _ => ?_
  refine ConstantPool.ensures_scan.bind fun constants hconstants => ?_
  -- flags, class, superclass and interfaces are kept as the indexes that they are
  refine .behind fun _ => .behind fun _ => .behind fun _ => .behind fun _ => ?_
  refine ((Field.ensures_scan constants).counted _).bind fun fields hfields => ?_
  refine ((Method.ensures_scan constants).counted _).bind fun methods hmethods => ?_
  refine (Attribute.ensures_scanAll constants).bind fun attributes hattributes => .pure ?_
  exact ⟨hconstants, hfields, hmethods, hattributes⟩

/-- **Every class that is read is consistent**, whatever byte string it is read from. -/
theorem consistent_of_ofBytes {bytes : List UInt8} {c : ClassFile} (h : ofBytes bytes = .ok c) :
    c.Consistent := by
  unfold ofBytes at h
  split at h
  · rename_i c' rest hscan
    cases h
    exact ensures_scan _ _ _ hscan
  · nomatch h

/-- The theorem at the sample, which has a method with code whose line numbers are declared in
    descending order. -/
theorem consistent_of_ofBytes_sample :
    ofBytes (sample.stored fun _ => ⟨1, 1⟩) = .ok sample ∧ sample.Consistent := by
  have hread := ofBytes_of_accepts (accepts_stored storable_sample 0) []
  rw [List.append_nil] at hread
  exact ⟨hread, consistent_of_ofBytes hread⟩

end ClassFile

end JavaClass
