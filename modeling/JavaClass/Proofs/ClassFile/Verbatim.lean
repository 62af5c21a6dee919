/-
  The parts of a class file that are taken as they are.

  A class file has passages that are stored without being looked at: the version, flags, the indexes
  of classes, the bounds of a method's stack, code arrays, exception handlers, and the contents of
  attributes that are not taken apart.  For each part of the format, `segments` cuts its stored form
  into these passages and what lies between them, and `overwrite` puts into the part that is read
  what stands in the passages instead.  Names, counts, lengths and the constants are no passages,
  and neither is the first line number table of a method's code, for that is read.

  Overwriting keeps a declaration valid, since nothing in it is compared with a passage.  So the
  overwritten bytes are read, and as the class with new values in these passages and the old ones
  everywhere else (`ofBytes_overwritten`).
-/
import JavaClass.Proofs.Bytes.Segments
import JavaClass.Proofs.ClassFile.MethodAttributes

namespace JavaClass

open BigEndian (bytes)

variable {Name : Type} {pool : ConstantPool}

/-- What holds of the items of a counted list holds of it after every item is changed, if it holds
    of the changed items. -/
theorem Counted.mapIdx {α : Type} {Valid : α → Prop} {items : List α} (h : Counted Valid items)
    {change : Nat → α → α} (hchange : ∀ i a, Valid a → Valid (change i a)) :
    Counted Valid (items.mapIdx change) := by
  refine ⟨by rw [List.length_mapIdx]; exact h.length_lt, ?_⟩
  intro b hb
  obtain ⟨i, hi, rfl⟩ := List.mem_mapIdx.mp hb
  exact hchange i _ (h.each _ (List.getElem_mem hi))

/-! ## Attributes

  An attribute is a fixed header and a passage.  Whoever has the attribute names the passage, so a
  member that has many of them numbers them. -/

namespace Attribute

/-- The content of an attribute is a passage. -/
def segments (name : Name) (a : Attribute) : List (Segment Name) :=
  [.fixed (bytes 2 a.nameIndex.toNat ++ bytes 4 a.content.length), .free name a.content]

/-- What stands in its passage becomes the content of an attribute. -/
def overwrite (f : Overwriting Name) (name : Name) (a : Attribute) : Attribute :=
  { a with content := f.replace name a.content }

/-- The segments of an attribute are its bytes, and overwriting them stores the overwritten
    attribute. -/
theorem cutInto_segments (name : Name) (a : Attribute) :
    CutInto (a.segments name) a.stored fun f => (a.overwrite f name).stored := by
  have hcut := (CutInto.fixed (bytes 2 a.nameIndex.toNat ++ bytes 4 a.content.length)).append
    (CutInto.free name a.content)
  simp only [stored, overwrite, Overwriting.length_replace]
  exact hcut

/-- An attribute has the one passage that it is told to have. -/
theorem distinct_segments (name : Name) (a : Attribute) :
    Segment.Distinct (a.segments name) (· = name) :=
  (Segment.Distinct.free name a.content).fixed_cons _

/-- The content keeps its length, so the length that is declared for it still fits. -/
theorem Storable.overwrite {a : Attribute} (h : a.Storable pool) (f : Overwriting Name)
    (name : Name) : (a.overwrite f name).Storable pool where
  name := h.name
  length_lt := by
    rw [Attribute.overwrite, f.length_replace]
    exact h.length_lt

/-- Attributes that are storable stay so together if each of them does. -/
theorem AllStorable.mapIdx {attributes : List Attribute} (h : AllStorable pool attributes)
    {change : Nat → Attribute → Attribute}
    (hchange : ∀ i a, a.Storable pool → (change i a).Storable pool) :
    AllStorable pool (attributes.mapIdx change) :=
  allStorable_iff.mpr ((allStorable_iff.mp h).mapIdx hchange)

end Attribute

/-! ## Code

  The content of a code attribute has passages of its own, and among its attributes there is one
  that is read, the first line number table.  It is left as it is, and so is its place: the
  attributes in front of it keep their names. -/

namespace ExceptionHandler

/-- All of an exception handler is taken as it is. -/
inductive Passage where
  | start
  | stop
  | handler
  | catchType
deriving DecidableEq

/-- Four passages follow each other without anything in between. -/
def segments (h : ExceptionHandler) : List (Segment Passage) :=
  [.free .start (bytes 2 h.start.toNat), .free .stop (bytes 2 h.stop.toNat),
    .free .handler (bytes 2 h.handler.toNat),
    .free .catchType (bytes 2 (h.catchType.getD 0).toNat)]

/-- Index 0 stands for everything that is thrown. -/
def overwrite (f : Overwriting Passage) (h : ExceptionHandler) : ExceptionHandler where
  start := f.u16 .start h.start
  stop := f.u16 .stop h.stop
  handler := f.u16 .handler h.handler
  catchType :=
    let index := f.u16 .catchType (h.catchType.getD 0)
    if index = 0 then none else some index

/-- Whatever index stands there, the overwritten handler is one that is stored with it. -/
theorem overwrite_catchType (f : Overwriting Passage) (h : ExceptionHandler) :
    (h.overwrite f).catchType ≠ some 0 ∧
      f.u16 .catchType (h.catchType.getD 0) = (h.overwrite f).catchType.getD 0 :=
  catchType_eq_iff.mp rfl

/-- The segments of a handler are its bytes, and overwriting them stores the overwritten handler. -/
theorem cutInto_segments (h : ExceptionHandler) :
    CutInto h.segments h.stored fun f => (h.overwrite f).stored := by
  have hcut := (((CutInto.u16 Passage.start h.start).append (.u16 .stop h.stop)).append
    (.u16 .handler h.handler)).append (.u16 .catchType (h.catchType.getD 0))
  simp only [(h.overwrite_catchType _).2] at hcut
  exact hcut

/-- The four passages of a handler have four names. -/
theorem distinct_segments (h : ExceptionHandler) :
    Segment.Distinct h.segments (· ∈ [.start, .stop, .handler, .catchType]) :=
  ⟨show [Passage.start, .stop, .handler, .catchType].Nodup by decide, fun _ hmem => hmem⟩

end ExceptionHandler

namespace Code

/-- A passage of the content of a code attribute. -/
inductive Passage where
  | maxStack
  | maxLocals
  | array
  | handler (i : Nat) (passage : ExceptionHandler.Passage)
  | attribute (i : Nat)
deriving DecidableEq

/-- Which of the attributes is the first line number table; a number too large if there is none. -/
def linesIndex (attributes : List Attribute) : Nat :=
  attributes.findIdx (·.name == "LineNumberTable")

/-- The first line number table is no passage, since its content is read. -/
def attributeSegments (linesAt : Nat) (i : Nat) (a : Attribute) : List (Segment Passage) :=
  if i = linesAt then [.fixed a.stored] else a.segments (.attribute i)

/-- The first line number table is left as it is. -/
def overwriteAttribute (linesAt : Nat) (f : Overwriting Passage) (i : Nat) (a : Attribute) :
    Attribute :=
  if i = linesAt then a else a.overwrite f (.attribute i)

/-- What precedes the exception handlers. -/
def headSegments (code : Code) : List (Segment Passage) :=
  [.free .maxStack (bytes 2 code.maxStack.toNat), .free .maxLocals (bytes 2 code.maxLocals.toNat),
    .fixed (bytes 4 code.array.length), .free .array code.array]

/-- The head, the handlers under their numbers, and the attributes under theirs. -/
def segments (code : Code) : List (Segment Passage) :=
  code.headSegments ++
    Segment.ofList (fun i h => h.segments.map (.within (.handler i))) code.handlers ++
    Segment.ofList (attributeSegments (linesIndex code.attributes)) code.attributes

/-- The line numbers stay what they are. -/
def overwrite (f : Overwriting Passage) (code : Code) : Code :=
  { code with
    maxStack := f.u16 .maxStack code.maxStack
    maxLocals := f.u16 .maxLocals code.maxLocals
    array := f.replace .array code.array
    handlers := code.handlers.mapIdx fun i h => h.overwrite (f.within (.handler i))
    attributes := code.attributes.mapIdx (overwriteAttribute (linesIndex code.attributes) f) }

/-- With or without a passage, the segments of an attribute are its bytes. -/
theorem cutInto_attributeSegments (linesAt i : Nat) (a : Attribute) :
    CutInto (attributeSegments linesAt i a) a.stored
      fun f => (overwriteAttribute linesAt f i a).stored := by
  unfold attributeSegments overwriteAttribute
  split
  · exact .fixed a.stored
  · exact a.cutInto_segments (Passage.attribute i)

/-- The segments of a code are its bytes, and overwriting them stores the overwritten code. -/
theorem cutInto_segments (code : Code) :
    CutInto code.segments code.stored fun f => (code.overwrite f).stored := by
  have hhandlers := CutInto.list (fun i h => (h : ExceptionHandler).cutInto_segments.within
    (Passage.handler i)) code.handlers
  have hattributes := CutInto.list (cutInto_attributeSegments (linesIndex code.attributes))
    code.attributes
  have hcut := (((((CutInto.u16 Passage.maxStack code.maxStack).append
    (.u16 .maxLocals code.maxLocals)).append (.fixed (bytes 4 code.array.length))).append
    (.free .array code.array)).append hhandlers).append hattributes
  simp only [stored, overwrite, Overwriting.length_replace]
  exact hcut

/-- An attribute has no other passage than the one of its number. -/
theorem distinct_attributeSegments (linesAt i : Nat) (a : Attribute) :
    Segment.Distinct (attributeSegments linesAt i a) (· = Passage.attribute i) := by
  unfold attributeSegments
  split
  · exact ⟨List.nodup_nil, nofun⟩
  · exact a.distinct_segments (Passage.attribute i)

/-- No two passages of a code have the same name. -/
theorem distinct_segments (code : Code) : Segment.Distinct code.segments fun _ => True := by
  -- three groups, each with names that the others do not have
  have hhead : Segment.Distinct code.headSegments (· ∈ [.maxStack, .maxLocals, .array]) :=
    ⟨show [Passage.maxStack, .maxLocals, .array].Nodup by decide, fun _ hmem => hmem⟩
  have hhandlers := Segment.Distinct.ofList_within ExceptionHandler.distinct_segments
    (fun _ _ _ _ => Passage.handler.inj) code.handlers
  have hattributes := Segment.Distinct.ofList
    (distinct_attributeSegments (linesIndex code.attributes))
    (fun i j _ hi hj => Passage.attribute.inj (hi.symm.trans hj)) code.attributes
  refine ((hhead.append hhandlers ?_).append hattributes ?_).mono fun _ _ => trivial
  · rintro _ hmem ⟨i, inner, rfl⟩
    simp at hmem
  · rintro _ hmem ⟨i, rfl⟩
    simp at hmem

/-- The name of an attribute is in no passage. -/
theorem name_overwriteAttribute (linesAt : Nat) (f : Overwriting Passage) (i : Nat)
    (a : Attribute) : (overwriteAttribute linesAt f i a).name = a.name := by
  unfold overwriteAttribute
  split
  · rfl
  · rfl

/-- Other attributes than the first line number table say nothing about the lines. -/
theorem HasLines.overwrite {attributes : List Attribute} {lines : Option LineNumberTable}
    (h : HasLines attributes lines) (f : Overwriting Passage) :
    HasLines (attributes.mapIdx (overwriteAttribute (linesIndex attributes) f)) lines := by
  -- no name changes, so neither does the absence of one
  have hnames : ∀ (attributes : List Attribute) (linesAt : Nat),
      (∀ a ∈ attributes, a.name ≠ "LineNumberTable") →
      ∀ a ∈ attributes.mapIdx (overwriteAttribute linesAt f), a.name ≠ "LineNumberTable" := by
    intro attributes linesAt habsent a ha
    obtain ⟨i, hi, rfl⟩ := List.mem_mapIdx.mp ha
    rw [name_overwriteAttribute]
    exact habsent _ (List.getElem_mem hi)
  cases h with
  | none absent => exact .none (hnames _ _ absent)
  | @first before after holder declared kept absent name length_lt content sorted =>
    -- the table is found behind the same attributes, and left alone there
    have hindex : linesIndex (before ++ holder :: after) = before.length := by
      have hbefore : before.findIdx (·.name == "LineNumberTable") = before.length :=
        List.findIdx_eq_length.mpr fun a ha => beq_eq_false_iff_ne.mpr (absent a ha)
      rw [linesIndex, List.findIdx_append, hbefore, if_neg (Nat.lt_irrefl _), List.findIdx_cons,
        name]
      exact Nat.zero_add _
    have hholder : overwriteAttribute before.length f (0 + before.length) holder = holder :=
      if_pos (Nat.zero_add _)
    rw [hindex, List.mapIdx_append, List.mapIdx_cons, hholder]
    exact .first (hnames _ _ absent) name length_lt content sorted

/-- Overwriting changes neither lengths nor names nor the line numbers, which is all that is checked
    of a code. -/
theorem Storable.overwrite {code : Code} (h : code.Storable pool) (f : Overwriting Passage) :
    (code.overwrite f).Storable pool := by
  obtain ⟨hreadable, hlines, hlength⟩ := storable_iff.mp h
  have harray : (code.overwrite f).array.length = code.array.length := f.length_replace _ _
  -- the array, the handlers, the attributes, the lines, and the length of it all
  refine storable_iff.mpr ⟨⟨?_, ?_, ?_, ?_⟩, hlines.overwrite f, ?_⟩
  · rw [harray]
    exact hreadable.array_pos
  · rw [harray]
    exact hreadable.array_le
  · exact hreadable.handlers.mapIdx fun i handler _ => (handler.overwrite_catchType _).1
  · refine hreadable.attributes.mapIdx fun i a ha => ?_
    unfold overwriteAttribute
    split
    · exact ha
    · exact ha.overwrite f _
  · rw [code.cutInto_segments.length_eq f]
    exact hlength

end Code

/-! ## Members

  The code of a method may stand anywhere among its attributes and there may be more of it, while
  what is read numbers the attributes without it.  So the attributes are gone through in order,
  with the number of the next one that is not code, and code is given by how much of it follows. -/

namespace Field

/-- A passage of a field. -/
inductive Passage where
  | accessFlags
  | attribute (i : Nat)
deriving DecidableEq

/-- What precedes the attributes. -/
def headSegments (field : Field) : List (Segment Passage) :=
  [.free .accessFlags (bytes 2 field.accessFlags.toNat), .fixed (bytes 2 field.nameIndex.toNat),
    .fixed (bytes 2 field.descriptorIndex.toNat)]

/-- The head, and the attributes under their numbers. -/
def segments (field : Field) : List (Segment Passage) :=
  field.headSegments ++ Segment.ofList (fun i a => a.segments (.attribute i)) field.attributes

/-- Flags and contents may change, names may not. -/
def overwrite (f : Overwriting Passage) (field : Field) : Field :=
  { field with
    accessFlags := f.u16 .accessFlags field.accessFlags
    attributes := field.attributes.mapIdx fun i a => a.overwrite f (.attribute i) }

/-- The segments of a field are its bytes, and overwriting them stores the overwritten field. -/
theorem cutInto_segments (field : Field) :
    CutInto field.segments field.stored fun f => (field.overwrite f).stored :=
  (((CutInto.u16 Passage.accessFlags field.accessFlags).append (.fixed _)).append
    (.fixed _)).append (.list (fun i a => a.cutInto_segments (Passage.attribute i))
      field.attributes)

/-- No two passages of a field have the same name. -/
theorem distinct_segments (field : Field) : Segment.Distinct field.segments fun _ => True := by
  have hhead : Segment.Distinct field.headSegments (· = .accessFlags) :=
    ⟨List.pairwise_singleton _ _, fun _ hmem => List.mem_singleton.mp hmem⟩
  have hattributes := Segment.Distinct.ofList
    (fun i a => (a : Attribute).distinct_segments (Passage.attribute i))
    (fun i j _ hi hj => Passage.attribute.inj (hi.symm.trans hj)) field.attributes
  refine (hhead.append hattributes ?_).mono fun _ _ => trivial
  rintro _ rfl ⟨i, hi⟩
  nomatch hi

/-- Overwriting keeps a field storable. -/
theorem Storable.overwrite {field : Field} (h : field.Storable pool) (f : Overwriting Passage) :
    (field.overwrite f).Storable pool where
  name := h.name
  descriptor := h.descriptor
  attributes := h.attributes.mapIdx fun i _ ha => ha.overwrite f (.attribute i)

end Field

namespace Method

/-- A passage of a method.  The attributes that are not code are numbered among themselves; a code
    attribute is given by the number of those behind it, so number 0 is the one that is kept. -/
inductive Passage where
  | accessFlags
  | attribute (i : Nat)
  | code (behind : Nat) (passage : Code.Passage)
deriving DecidableEq

/-- The code that is kept is the one with no other behind it. -/
def overwrite (f : Overwriting Passage) (m : Method) : Method :=
  { m with
    accessFlags := f.u16 .accessFlags m.accessFlags
    attributes := m.attributes.mapIdx fun i a => a.overwrite f (.attribute i)
    code := m.code.map (·.overwrite (f.within (.code 0))) }

namespace Item

/-- Whether an attribute of a method is code. -/
def isCode : Item → Bool
  | .code _ _ => true
  | .other _ => false

/-- The segments of attributes, of which the first that is not code has number `i`. -/
def segmentsFrom (i : Nat) : List Item → List (Segment Passage)
  | [] => []
  | .code nameIndex body :: items =>
    .fixed (bytes 2 nameIndex.toNat ++ bytes 4 body.stored.length) ::
      body.segments.map (.within (.code (items.countP isCode))) ++ segmentsFrom i items
  | .other unparsed :: items => unparsed.segments (.attribute i) ++ segmentsFrom (i + 1) items

/-- Overwrites attributes, of which the first that is not code has number `i`. -/
def overwriteFrom (f : Overwriting Passage) (i : Nat) : List Item → List Item
  | [] => []
  | .code nameIndex body :: items =>
    .code nameIndex (body.overwrite (f.within (.code (items.countP isCode)))) ::
      overwriteFrom f i items
  | .other unparsed :: items =>
    .other (unparsed.overwrite f (.attribute i)) :: overwriteFrom f (i + 1) items

/-- There are as many attributes as before. -/
theorem length_overwriteFrom (f : Overwriting Passage) (i : Nat) (items : List Item) :
    (overwriteFrom f i items).length = items.length := by
  fun_induction overwriteFrom f i items with
  | case1 => rfl
  | case2 i nameIndex body items ih => rw [List.length_cons, ih, List.length_cons]
  | case3 i unparsed items ih => rw [List.length_cons, ih, List.length_cons]

/-- The segments of attributes are their bytes, and overwriting them stores the overwritten
    attributes. -/
theorem cutInto_segmentsFrom (i : Nat) (items : List Item) :
    CutInto (segmentsFrom i items) (items.flatMap written)
      fun f => (overwriteFrom f i items).flatMap written := by
  induction items generalizing i with
  | nil => exact .nil
  | cons item items ih =>
    cases item with
    | code nameIndex body =>
      -- the length that is declared is that of the code before and after
      have hhead : CutInto (.fixed (bytes 2 nameIndex.toNat ++ bytes 4 body.stored.length) ::
          body.segments.map (.within (.code (items.countP isCode))))
          (Item.code nameIndex body).written fun f => (Item.code nameIndex
            (body.overwrite (f.within (Passage.code (items.countP isCode))))).written := by
        simp only [written, body.cutInto_segments.length_eq]
        exact (CutInto.fixed _).append (body.cutInto_segments.within _)
      exact hhead.append (ih i)
    | other unparsed => exact (unparsed.cutInto_segments (.attribute i)).append (ih (i + 1))

/-- The numbers of the attributes go up from the first, and those of the code down to zero. -/
theorem distinct_segmentsFrom (i : Nat) (items : List Item) :
    Segment.Distinct (segmentsFrom i items) fun name => (∃ k ≥ i, .attribute k = name) ∨
      ∃ behind < items.countP isCode, ∃ inner, .code behind inner = name := by
  induction items generalizing i with
  | nil => exact .nil
  | cons item items ih =>
    cases item with
    | code nameIndex body =>
      have hbody := (body.distinct_segments.within
        (fun _ _ h => (Passage.code.inj h).2 : ∀ m n, Passage.code (items.countP isCode) m =
          .code (items.countP isCode) n → m = n)).fixed_cons
          (bytes 2 nameIndex.toNat ++ bytes 4 body.stored.length)
      have hcount : (Item.code nameIndex body :: items).countP isCode =
          items.countP isCode + 1 := List.countP_cons_of_pos rfl
      refine (hbody.append (ih i) ?_).mono ?_
      · -- the code in front has more code behind it than any of the others
        rintro _ ⟨inner, rfl⟩ (⟨k, -, h⟩ | ⟨behind, hlt, inner', h⟩)
        · nomatch h
        · exact absurd (Passage.code.inj h).1 (Nat.ne_of_lt hlt)
      · rintro name (⟨inner, rfl⟩ | hattribute | ⟨behind, hlt, hinner⟩)
        · exact Or.inr ⟨_, by omega, inner, rfl⟩
        · exact Or.inl hattribute
        · exact Or.inr ⟨behind, by omega, hinner⟩
    | other unparsed =>
      refine ((unparsed.distinct_segments (.attribute i)).append (ih (i + 1)) ?_).mono ?_
      · rintro _ rfl (⟨k, hk, h⟩ | ⟨behind, -, inner, h⟩)
        · obtain rfl := Passage.attribute.inj h
          omega
        · nomatch h
      · rintro name (rfl | ⟨k, hk, rfl⟩ | hcode)
        · exact Or.inl ⟨i, Nat.le_refl i, rfl⟩
        · exact Or.inl ⟨k, by omega, rfl⟩
        · exact Or.inr hcode

/-- Overwriting keeps the attributes of a method valid. -/
theorem valid_overwriteFrom (f : Overwriting Passage) {i : Nat} {items : List Item}
    (h : ∀ item ∈ items, item.Valid pool) : ∀ item ∈ overwriteFrom f i items, item.Valid pool := by
  induction items generalizing i with
  | nil => exact h
  | cons item items ih =>
    obtain ⟨hitem, hitems⟩ := List.forall_mem_cons.mp h
    cases hitem with
    | code name storable =>
      exact List.forall_mem_cons.mpr ⟨.code name (storable.overwrite _), ih hitems⟩
    | other name storable =>
      exact List.forall_mem_cons.mpr ⟨.other name (storable.overwrite f _), ih hitems⟩

/-- Of the attributes that are not code, each is overwritten under its number. -/
theorem attributesOf_overwriteFrom (f : Overwriting Passage) (i : Nat) (items : List Item) :
    attributesOf ((overwriteFrom f i items).map part) = (attributesOf (items.map part)).mapIdx
      fun k a => a.overwrite f (.attribute (k + i)) := by
  induction items generalizing i with
  | nil => rfl
  | cons item items ih =>
    cases item with
    | code nameIndex body => exact ih i
    | other unparsed =>
      have hstep : ∀ (a : Attribute) (parts : List Part),
          attributesOf (.other a :: parts) = a :: attributesOf parts := fun _ _ => rfl
      have hnext : ∀ k, k + 1 + i = k + (i + 1) := fun k => by omega
      simp only [overwriteFrom, List.map_cons, part, hstep, List.mapIdx_cons, ih, Nat.zero_add,
        hnext]

/-- The last code is found first. -/
theorem codeOf_cons_code (body : Code) (parts : List Part) :
    codeOf (.code body :: parts) = (codeOf parts).or (some body) := by
  rw [codeOf, codeOf, List.reverse_cons, List.findSome?_append]
  rfl

/-- If no code is kept then there is none. -/
theorem countP_isCode_eq_zero {items : List Item} (h : codeOf (items.map part) = none) :
    items.countP isCode = 0 := by
  rw [List.countP_eq_zero]
  intro item hitem hcode
  have hpart : item.part ∈ (items.map part).reverse :=
    List.mem_reverse.mpr (List.mem_map_of_mem hitem)
  have hnone := List.findSome?_eq_none_iff.mp h _ hpart
  cases item with
  | code nameIndex body => nomatch hnone
  | other unparsed => nomatch hcode

/-- The code that is kept is overwritten as the one with none behind it. -/
theorem codeOf_overwriteFrom (f : Overwriting Passage) (i : Nat) (items : List Item) :
    codeOf ((overwriteFrom f i items).map part) =
      (codeOf (items.map part)).map (·.overwrite (f.within (.code 0))) := by
  induction items generalizing i with
  | nil => rfl
  | cons item items ih =>
    cases item with
    | code nameIndex body =>
      rw [overwriteFrom, List.map_cons, List.map_cons, part, part, codeOf_cons_code,
        codeOf_cons_code, ih]
      cases hcode : codeOf (items.map part) with
      | none =>
        -- this is the one that is kept, and has number 0
        rw [countP_isCode_eq_zero hcode]
        rfl
      | some kept => rfl
    | other unparsed =>
      have hstep : ∀ (a : Attribute) (parts : List Part),
          codeOf (.other a :: parts) = codeOf parts := by
        intro a parts
        rw [codeOf, codeOf, List.reverse_cons, List.findSome?_append]
        exact Option.or_none
      rw [overwriteFrom, List.map_cons, List.map_cons, part, part, hstep, hstep, ih]

end Item

namespace Declaration

/-- What precedes the attributes. -/
def headSegments (d : Declaration) : List (Segment Passage) :=
  [.free .accessFlags (bytes 2 d.accessFlags.toNat), .fixed (bytes 2 d.nameIndex.toNat),
    .fixed (bytes 2 d.descriptorIndex.toNat), .fixed (bytes 2 d.items.length)]

/-- The head, and the attributes from number 0 on. -/
def segments (d : Declaration) : List (Segment Passage) :=
  d.headSegments ++ Item.segmentsFrom 0 d.items

/-- A declaration is overwritten in its flags and its attributes. -/
def overwrite (f : Overwriting Passage) (d : Declaration) : Declaration :=
  { d with
    accessFlags := f.u16 .accessFlags d.accessFlags
    items := Item.overwriteFrom f 0 d.items }

/-- The segments of a method are its bytes, and overwriting them stores the overwritten method. -/
theorem cutInto_segments (d : Declaration) :
    CutInto d.segments d.written fun f => (d.overwrite f).written := by
  have hcut := ((((CutInto.u16 Passage.accessFlags d.accessFlags).append
    (.fixed (bytes 2 d.nameIndex.toNat))).append (.fixed (bytes 2 d.descriptorIndex.toNat))).append
    (.fixed (bytes 2 d.items.length))).append (Item.cutInto_segmentsFrom 0 d.items)
  simp only [List.append_assoc] at hcut
  simp only [written, head, storedList, overwrite, Item.length_overwriteFrom, List.append_assoc]
  exact hcut

/-- No two passages of a method have the same name. -/
theorem distinct_segments (d : Declaration) : Segment.Distinct d.segments fun _ => True := by
  have hhead : Segment.Distinct d.headSegments (· = .accessFlags) :=
    ⟨List.pairwise_singleton _ _, fun _ hmem => List.mem_singleton.mp hmem⟩
  refine (hhead.append (Item.distinct_segmentsFrom 0 d.items) ?_).mono fun _ _ => trivial
  rintro _ rfl (⟨k, -, h⟩ | ⟨behind, -, inner, h⟩)
  · nomatch h
  · nomatch h

/-- Overwriting keeps a method valid. -/
theorem Valid.overwrite {d : Declaration} (h : d.Valid pool) (f : Overwriting Passage) :
    (d.overwrite f).Valid pool where
  name := h.name
  descriptor := h.descriptor
  items := by
    refine ⟨?_, Item.valid_overwriteFrom f h.items.each⟩
    rw [Declaration.overwrite, Item.length_overwriteFrom]
    exact h.items.length_lt

/-- What is read of an overwritten method is the method that was read before, overwritten. -/
theorem method_overwrite (f : Overwriting Passage) (d : Declaration) :
    (d.overwrite f).method = d.method.overwrite f := by
  have hattributes := Item.attributesOf_overwriteFrom f 0 d.items
  have hcode := Item.codeOf_overwriteFrom f 0 d.items
  -- the first attribute that is not code has number 0
  simp only [Nat.add_zero] at hattributes
  simp only [method, overwrite, Method.overwrite, hattributes, hcode]

end Declaration

end Method

/-! ## The whole file

  The segments of a class are those of its parts, under names that say which part it is.  What is
  left to show of the whole is that its pool, its counts and its names are in none of them. -/

namespace ClassFile

/-- A passage of a class file. -/
inductive Passage where
  | minor
  | major
  | accessFlags
  | thisClass
  | superClass
  | interface (i : Nat)
  | field (i : Nat) (passage : Field.Passage)
  | method (i : Nat) (passage : Method.Passage)
  | attribute (i : Nat)
deriving DecidableEq

/-- The class with new values in the passages that are overwritten. -/
def overwrite (f : Overwriting Passage) (c : ClassFile) : ClassFile :=
  { c with
    version := { major := f.u16 .major c.version.major, minor := f.u16 .minor c.version.minor }
    accessFlags := f.u16 .accessFlags c.accessFlags
    thisClass := f.u16 .thisClass c.thisClass
    superClass := f.u16 .superClass c.superClass
    interfaces := c.interfaces.mapIdx fun i index => f.u16 (.interface i) index
    fields := c.fields.mapIdx fun i field => field.overwrite (f.within (.field i))
    methods := c.methods.mapIdx fun i m => m.overwrite (f.within (.method i))
    attributes := c.attributes.mapIdx fun i a => a.overwrite f (.attribute i) }

namespace Declaration

/-- What precedes the interfaces. -/
def headSegments (d : Declaration) : List (Segment Passage) :=
  [.fixed (bytes 4 0xCAFEBABE), .free .minor (bytes 2 d.version.minor.toNat),
    .free .major (bytes 2 d.version.major.toNat), .fixed d.spelled,
    .free .accessFlags (bytes 2 d.accessFlags.toNat),
    .free .thisClass (bytes 2 d.thisClass.toNat),
    .free .superClass (bytes 2 d.superClass.toNat)]

/-- The head, and the interfaces, fields, methods and attributes under their numbers. -/
def segments (d : Declaration) : List (Segment Passage) :=
  d.headSegments ++
    Segment.ofList (fun i index => [.free (.interface i) (bytes 2 index.toNat)]) d.interfaces ++
    Segment.ofList (fun i field => field.segments.map (.within (.field i))) d.fields ++
    Segment.ofList (fun i m => m.segments.map (.within (.method i))) d.methods ++
    Segment.ofList (fun i a => a.segments (.attribute i)) d.attributes

/-- A declaration is overwritten part by part. -/
def overwrite (f : Overwriting Passage) (d : Declaration) : Declaration :=
  { d with
    version := { major := f.u16 .major d.version.major, minor := f.u16 .minor d.version.minor }
    accessFlags := f.u16 .accessFlags d.accessFlags
    thisClass := f.u16 .thisClass d.thisClass
    superClass := f.u16 .superClass d.superClass
    interfaces := d.interfaces.mapIdx fun i index => f.u16 (.interface i) index
    fields := d.fields.mapIdx fun i field => field.overwrite (f.within (.field i))
    methods := d.methods.mapIdx fun i m => m.overwrite (f.within (.method i))
    attributes := d.attributes.mapIdx fun i a => a.overwrite f (.attribute i) }

/-- The segments of a class are its bytes, and overwriting them stores the overwritten class. -/
theorem cutInto_segments (d : Declaration) :
    CutInto d.segments d.written fun f => (d.overwrite f).written := by
  -- segment by segment, and then list by list
  have hhead := ((((((CutInto.fixed (bytes 4 0xCAFEBABE)).append
    (.u16 Passage.minor d.version.minor)).append (.u16 .major d.version.major)).append
    (.fixed d.spelled)).append (.u16 .accessFlags d.accessFlags)).append
    (.u16 .thisClass d.thisClass)).append (.u16 .superClass d.superClass)
  have hinterfaces := CutInto.list (fun i index => CutInto.u16 (Passage.interface i) index)
    d.interfaces
  have hfields := CutInto.list (fun i field => (field : Field).cutInto_segments.within
    (Passage.field i)) d.fields
  have hmethods := CutInto.list (fun i m => (m : Method.Declaration).cutInto_segments.within
    (Passage.method i)) d.methods
  have hattributes := CutInto.list (fun i a => (a : Attribute).cutInto_segments
    (Passage.attribute i)) d.attributes
  have hcut := (((hhead.append hinterfaces).append hfields).append hmethods).append hattributes
  simp only [written_eq]
  exact hcut

/-- Every passage has a name of its own. -/
theorem distinct_segments (d : Declaration) : Segment.Distinct d.segments fun _ => True := by
  -- five groups of names; a name tells which group it is from
  have hhead : Segment.Distinct d.headSegments
      (· ∈ [.minor, .major, .accessFlags, .thisClass, .superClass]) :=
    ⟨show [Passage.minor, .major, .accessFlags, .thisClass, .superClass].Nodup by decide,
      fun _ hmem => hmem⟩
  have hinterfaces := Segment.Distinct.ofList
    (fun i (index : UInt16) => .free (Passage.interface i) (bytes 2 index.toNat))
    (fun i j _ hi hj => Passage.interface.inj (hi.symm.trans hj)) d.interfaces
  have hfields := Segment.Distinct.ofList_within Field.distinct_segments
    (fun _ _ _ _ => Passage.field.inj) d.fields
  have hmethods := Segment.Distinct.ofList_within Method.Declaration.distinct_segments
    (fun _ _ _ _ => Passage.method.inj) d.methods
  have hattributes := Segment.Distinct.ofList
    (fun i a => (a : Attribute).distinct_segments (Passage.attribute i))
    (fun i j _ hi hj => Passage.attribute.inj (hi.symm.trans hj)) d.attributes
  refine ((((hhead.append hinterfaces ?_).append hfields ?_).append hmethods ?_).append
    hattributes ?_).mono fun _ _ => trivial
  · rintro _ hmem ⟨i, rfl⟩
    simp at hmem
  · rintro _ hmem ⟨i, inner, rfl⟩
    simp at hmem
  · rintro _ hmem ⟨i, inner, rfl⟩
    simp at hmem
  · rintro _ hmem ⟨i, rfl⟩
    simp at hmem

/-- Nothing that makes a declaration valid is taken from a passage. -/
theorem Valid.overwrite {d : Declaration} (h : d.Valid) (f : Overwriting Passage) :
    (d.overwrite f).Valid where
  constants := h.constants
  interfaces := h.interfaces.mapIdx fun _ _ _ => trivial
  fields := h.fields.mapIdx fun _ _ hfield => hfield.overwrite _
  methods := h.methods.mapIdx fun _ _ hm => hm.overwrite _
  attributes := h.attributes.mapIdx fun _ _ ha => ha.overwrite f _

/-- The class of an overwritten declaration is the overwritten class. -/
theorem classFile_overwrite (f : Overwriting Passage) (d : Declaration) :
    (d.overwrite f).classFile = d.classFile.overwrite f := by
  -- methods are declared and then read, so for them the two have to be exchanged
  have hmethods : (d.methods.mapIdx fun i m => m.overwrite (f.within (.method i))).map
      Method.Declaration.method = (d.methods.map Method.Declaration.method).mapIdx
        fun i m => m.overwrite (f.within (.method i)) := by
    apply List.ext_getElem?
    intro i
    simp only [List.getElem?_map, List.getElem?_mapIdx, Option.map_map]
    congr 1
    funext m
    exact Method.Declaration.method_overwrite _ m
  simp only [classFile, overwrite, ClassFile.overwrite, hmethods]
  rfl

end Declaration

/-- **Parts that are taken as they are do not influence reading.**  A class file consists of the
    segments of its declaration, and each passage among them has a name of its own; whatever the
    passages are overwritten with, byte for byte, the result is read, and as the same class but for
    the values of these passages. -/
theorem ofBytes_overwritten {data : List UInt8} {c : ClassFile} (h : ofBytes data = .ok c) :
    (∃ d : Declaration, d.Describes data c) ∧ ∀ d : Declaration, d.Describes data c →
      (Segment.names d.segments).Nodup ∧
      ∃ rest, data = Segment.contents d.segments ++ rest ∧ ∀ f : Overwriting Passage,
        (f.contents d.segments).length = (Segment.contents d.segments).length ∧
        ofBytes (f.contents d.segments ++ rest) = .ok (c.overwrite f) := by
  refine ⟨ofBytes_eq_ok_iff.mp h, fun d hd => ⟨d.distinct_segments.nodup, ?_⟩⟩
  obtain ⟨rest, hdata⟩ := hd.begins
  have hcut := d.cutInto_segments
  refine ⟨rest, by rw [hcut.contents, hdata], fun f => ⟨f.length_contents _, ?_⟩⟩
  have hdescribes : (d.overwrite f).Describes (f.contents d.segments ++ rest) (c.overwrite f) := by
    refine ⟨hd.valid.overwrite f, ⟨rest, by rw [hcut.overwritten]⟩, ?_⟩
    rw [d.classFile_overwrite, hd.class_eq]
  exact ofBytes_eq_ok_iff.mpr ⟨_, hdescribes⟩

/-- The theorem at the sample, every passage of which is filled with the same byte: the byte is no
    op code, and the indexes lead nowhere, but the line numbers are still there. -/
theorem ofBytes_overwritten_sample :
    ofBytes (sample.stored fun _ => ⟨1, 1⟩) = .ok sample ∧
      ∃ other : List UInt8, other.length = (sample.stored fun _ => ⟨1, 1⟩).length ∧
        ofBytes other = .ok { sample with
          version := { major := 0xeeee, minor := 0xeeee }
          accessFlags := 0xeeee
          thisClass := 0xeeee
          superClass := 0xeeee
          interfaces := [0xeeee]
          methods := [{
            accessFlags := 0xeeee, nameIndex := 2, descriptorIndex := 3
            name := "run", descriptor := "()V"
            attributes := [{ nameIndex := 2, name := "run", content := [0xee] }]
            code := some {
              maxStack := 0xeeee, maxLocals := 0xeeee, array := [0xee, 0xee]
              handlers := [{ start := 0xeeee, stop := 0xeeee, handler := 0xeeee,
                             catchType := some 0xeeee }]
              attributes := [{ nameIndex := 6, name := "LineNumberTable",
                               content := [0, 2, 0, 1, 0, 8, 0, 0, 0, 7] }]
              lines := some ⟨[⟨0, 7⟩, ⟨1, 8⟩]⟩ } }] } := by
  have hread : ofBytes (sample.stored fun _ => ⟨1, 1⟩) = .ok sample := by
    have h := ofBytes_stored storable_sample []
    rwa [List.append_nil] at h
  obtain ⟨⟨d, hd⟩, hall⟩ := ofBytes_overwritten hread
  obtain ⟨-, rest, hdata, hoverwritten⟩ := hall d hd
  obtain ⟨hlength, hother⟩ := hoverwritten (.fill 0xee)
  refine ⟨hread, (Overwriting.fill 0xee).contents d.segments ++ rest, ?_, ?_⟩
  · rw [hdata, List.length_append, List.length_append, hlength]
  · rw [hother]
    rfl

end ClassFile

end JavaClass
