/-
  What is stored is read back.

  Part by part, from the constants up: the stored form of a part is accepted by the scan of that
  part, whatever follows it.  Where a list is read, its items are accepted one after the other; a
  name is accepted because the pool that was just read holds it at its index.  The class itself
  (`ofBytes_stored`) is then read from any byte string that begins with its stored form.
-/
import JavaClass.Proofs.ClassFile.Accepts
import JavaClass.Proofs.Text.RoundTrip

namespace JavaClass

open Scan
open BigEndian (bytes signedBytes)

/-! ## Lists -/

/-- A list is read back if each of its items is. -/
theorem accepts_storedList {α : Type} {scan : Scan ReadError α} {stored : α → List UInt8}
    {items : List α} (hlen : items.length < 65536)
    (h : ∀ a ∈ items, ∀ p, scan.Accepts p (stored a) a) {p : Nat} :
    (counted (liftM u16) scan).Accepts p (storedList stored items) items :=
  AcceptsAll.counted accepts_lift_u16 hlen (acceptsAll_flatMap h (p + 2))

/-! ## The constant pool

  The stored form is one encoding among those of the grammar, the one in which each text is
  spelled as it is encoded.  So what is known of the grammar gives that it is read. -/

namespace Constant

/-- The stored form of a constant is one of its encodings. -/
theorem encodedAs_stored {constant : Constant} (h : constant.Storable) :
    constant.EncodedAs constant.stored := by
  cases constant with
  | utf8 text => exact .text (Nat.lt_succ_of_le h) (Text.decode?_encode text)
  | _ => exact .other fun htag => nomatch htag

/-- Constants that are storable are encoded as they are stored. -/
theorem allEncodedAs_stored {constants : List Constant} (h : ∀ c ∈ constants, c.Storable) :
    AllEncodedAs constants (constants.flatMap stored) := by
  induction constants with
  | nil => exact .nil
  | cons constant constants ih =>
    have hrest := ih fun c hc => h c (List.mem_cons_of_mem constant hc)
    exact .cons (encodedAs_stored (h constant List.mem_cons_self)) hrest

end Constant

/-- The stored form of the pool of some constants is an encoding of them. -/
theorem ConstantPool.encodedAs_stored {constants : List Constant}
    (hsize : slotsOf constants ≤ 65534) (htexts : ∀ c ∈ constants, c.Storable) :
    EncodedAs constants (ofList constants).stored := by
  have hcount : (UInt16.ofNat (slotsOf constants + 1)).toNat = slotsOf constants + 1 :=
    UInt16.toNat_ofNat_of_lt' (show _ < 65536 by omega)
  rw [stored, size_ofList, constants_ofList]
  refine ⟨UInt16.ofNat (slotsOf constants + 1), constants.flatMap Constant.stored, ?_, ?_, ?_⟩
  · rw [hcount]
  · exact Constant.allEncodedAs_stored htexts
  · exact Or.inl (by rw [hcount, Nat.add_comm])

/-- A stored pool is read as itself. -/
theorem ConstantPool.accepts_pool {pool : ConstantPool} (h : pool.Storable) (p : Nat) :
    scan.Accepts p pool.stored pool := by
  obtain ⟨constants, rfl⟩ := h.made
  have hsize := h.size_le
  have htexts := h.texts
  rw [size_ofList] at hsize
  rw [constants_ofList] at htexts
  exact accepts_scan.mpr ⟨constants, encodedAs_stored hsize htexts, rfl⟩

/-! ## Members

  The stored form of a method puts its code at a place among the other attributes.  Taken apart
  again, the attributes are the same and the code is the same, whichever place it was. -/

namespace Method

/-- The attributes of a method in the order in which they are stored. -/
def parts (place : CodePlace) (attributes : List Attribute) : Option Code → List Part
  | none => attributes.map .other
  | some code =>
    (attributes.take place.before).map .other ++
      .code code :: (attributes.drop place.before).map .other

/-- One of the attributes of a method as it is stored. -/
def Part.stored (place : CodePlace) : Part → List UInt8
  | .code body => body.storedAttribute place
  | .other unparsed => unparsed.stored

/-- The code is one more part beside the attributes. -/
theorem length_parts (place : CodePlace) (attributes : List Attribute) (code : Option Code) :
    (parts place attributes code).length = attributes.length + code.toList.length := by
  cases code with
  | none => simp [parts]
  | some code =>
    -- the attributes before the code and those behind it are all of them
    have hsplit := congrArg List.length (List.take_append_drop place.before attributes)
    rw [List.length_append] at hsplit
    simp only [parts, List.length_append, List.length_cons, List.length_map, Option.toList_some,
      List.length_nil]
    omega

/-- The attributes of a method are stored one behind the other. -/
theorem storedAttributes_eq (place : CodePlace) (attributes : List Attribute)
    (code : Option Code) :
    storedAttributes place attributes code = storedList (Part.stored place)
      (parts place attributes code) := by
  have hothers : ∀ attributes : List Attribute,
      (attributes.map Part.other).flatMap (Part.stored place) =
        attributes.flatMap Attribute.stored := fun attributes => List.flatMap_map ..
  rw [storedList, length_parts]
  cases code with
  | none =>
    rw [parts, hothers]
    rfl
  | some code =>
    simp only [storedAttributes, parts, List.flatMap_append, List.flatMap_cons, hothers,
      Part.stored, List.append_assoc, Option.toList_some, List.length_cons, List.length_nil]

/-- Wherever the code is put, the attributes are found in their order. -/
theorem attributesOf_parts (place : CodePlace) (attributes : List Attribute)
    (code : Option Code) : attributesOf (parts place attributes code) = attributes := by
  have hothers : ∀ attributes : List Attribute,
      attributesOf (attributes.map Part.other) = attributes := by
    intro attributes
    rw [attributesOf, List.filterMap_map]
    exact List.filterMap_some
  cases code with
  | none => exact hothers attributes
  | some code =>
    have happend : attributesOf (parts place attributes (some code)) =
        attributesOf ((attributes.take place.before).map .other) ++
          attributesOf ((attributes.drop place.before).map .other) := List.filterMap_append
    rw [happend, hothers, hothers, List.take_append_drop]

/-- Wherever the code is put, it is found. -/
theorem codeOf_parts (place : CodePlace) (attributes : List Attribute) (code : Option Code) :
    codeOf (parts place attributes code) = code := by
  have hothers : ∀ attributes : List Attribute,
      codeOf (attributes.map Part.other) = none := by
    intro attributes
    refine List.findSome?_eq_none_iff.mpr fun part hpart => ?_
    obtain ⟨a, -, rfl⟩ := List.mem_map.mp (List.mem_reverse.mp hpart)
    rfl
  cases code with
  | none => exact hothers attributes
  | some code =>
    -- the search starts from the end, and there is no code behind the code
    have hlater := hothers (attributes.drop place.before)
    unfold codeOf at hlater ⊢
    rw [parts, List.reverse_append, List.reverse_cons, List.append_assoc, List.findSome?_append,
      hlater]
    rfl

/-- Parts that are no code are the attributes. -/
theorem mem_of_other_mem_parts {place : CodePlace} {attributes : List Attribute}
    {code : Option Code} {a : Attribute} (h : Part.other a ∈ parts place attributes code) :
    a ∈ attributes := by
  rw [← attributesOf_parts place attributes code]
  exact List.mem_filterMap.mpr ⟨.other a, h, rfl⟩

/-- The only code is the code of the method. -/
theorem code_of_mem_parts {place : CodePlace} {attributes : List Attribute} {code : Option Code}
    {body : Code} (h : Part.code body ∈ parts place attributes code) : code = some body := by
  have hothers : ∀ attributes : List Attribute, Part.code body ∉ attributes.map Part.other := by
    intro attributes hmem
    obtain ⟨a, -, ha⟩ := List.mem_map.mp hmem
    nomatch ha
  cases code with
  | none => exact absurd h (hothers attributes)
  | some other =>
    rcases List.mem_append.mp h with h | h
    · exact absurd h (hothers _)
    · rcases List.mem_cons.mp h with h | h
      · cases h
        rfl
      · exact absurd h (hothers _)

/-- Each part of a stored method is read as itself. -/
theorem accepts_part {pool : ConstantPool} {place : CodePlace} {m : Method}
    (h : m.Storable pool place) {part : Part} (hpart : part ∈ parts place m.attributes m.code)
    (p : Nat) : (scanPart pool).Accepts p (part.stored place) part := by
  cases part with
  | code code =>
    obtain ⟨hcode, hname, -⟩ := h.code code (code_of_mem_parts hpart)
    exact (reads_scanPart pool _ _ _).mpr
      ⟨.code place.nameIndex code, .code hname hcode, rfl, rfl⟩
  | other a =>
    have ha := mem_of_other_mem_parts hpart
    exact (reads_scanPart pool _ _ _).mpr
      ⟨.other a, .other (h.others a ha) (h.attributes.each a ha), rfl, rfl⟩

/-- A stored method is read as itself, with its code in whatever place. -/
theorem accepts_stored {pool : ConstantPool} {place : CodePlace} {m : Method}
    (h : m.Storable pool place) (p : Nat) : (scan pool).Accepts p (m.stored place) m := by
  -- the count includes the code, if there is any
  have hlen : (parts place m.attributes m.code).length < 65536 := by
    rw [length_parts]
    cases hm : m.code with
    | none => exact h.attributes.length_lt
    | some code => exact (h.code code hm).2.2
  have hstored : m.stored place = bytes 2 m.accessFlags.toNat ++ (bytes 2 m.nameIndex.toNat ++
      (bytes 2 m.descriptorIndex.toNat ++
      (storedList (Part.stored place) (parts place m.attributes m.code) ++ []))) := by
    simp only [stored, storedAttributes_eq, List.append_assoc, List.append_nil]
  rw [hstored]
  -- field by field; the two names are looked up as they are met
  refine accepts_u16_bind.mpr ⟨m.accessFlags, _, rfl, ?_⟩
  refine accepts_u16_bind.mpr ⟨m.nameIndex, _, rfl, accepts_resolve_bind.mpr ⟨m.name, h.name, ?_⟩⟩
  refine accepts_u16_bind.mpr ⟨m.descriptorIndex, _, rfl,
    accepts_resolve_bind.mpr ⟨m.descriptor, h.descriptor, ?_⟩⟩
  refine (accepts_storedList hlen fun part hpart p => accepts_part h hpart p).bind ?_
  refine accepts_pure.mpr ⟨rfl, ?_⟩
  rw [attributesOf_parts, codeOf_parts]

/-- Methods are read back one after the other, wherever each has its code. -/
theorem acceptsAll_stored {pool : ConstantPool} {place : Nat → CodePlace} {methods : List Method}
    (h : ∀ (i : Nat) (m : Method), methods[i]? = some m → m.Storable pool (place i)) (p : Nat) :
    (scan pool).AcceptsAll p (storedAll place methods) methods := by
  induction methods generalizing place p with
  | nil => rfl
  | cons m methods ih =>
    refine ⟨m.stored (place 0), _, rfl, accepts_stored (h 0 m rfl) p, ?_⟩
    exact ih (fun i m hm => h (i + 1) m hm) _

end Method

/-! ## The whole file

  A class is stored in the order in which it is read, so each number and each list is accepted in
  turn, and the pool before any name is looked up. -/

namespace ClassFile

/-- A stored class is read as itself. -/
theorem accepts_stored {place : Nat → CodePlace} {c : ClassFile} (h : c.Storable place) (p : Nat) :
    scan.Accepts p (c.stored place) c := by
  -- bracketed to the right, as it is read
  have hstored : c.stored place = bytes 4 0xCAFEBABE ++ (bytes 2 c.version.minor.toNat ++
      (bytes 2 c.version.major.toNat ++ (c.constants.stored ++ (bytes 2 c.accessFlags.toNat ++
      (bytes 2 c.thisClass.toNat ++ (bytes 2 c.superClass.toNat ++
      (storedList (bytes 2 ·.toNat) c.interfaces ++ (storedList Field.stored c.fields ++
      ((bytes 2 c.methods.length ++ Method.storedAll place c.methods) ++
      (storedList Attribute.stored c.attributes ++ [])))))))))) := by
    simp only [stored, List.append_assoc, List.append_nil]
  rw [hstored]
  refine accepts_u32_bind.mpr ⟨magic, _, rfl, accepts_require_bind.mpr ⟨rfl, ?_⟩⟩
  refine accepts_u16_bind.mpr ⟨c.version.minor, _, rfl, ?_⟩
  refine accepts_u16_bind.mpr ⟨c.version.major, _, rfl, ?_⟩
  refine (ConstantPool.accepts_pool h.constants _).bind ?_
  refine accepts_u16_bind.mpr ⟨c.accessFlags, _, rfl, ?_⟩
  refine accepts_u16_bind.mpr ⟨c.thisClass, _, rfl, ?_⟩
  refine accepts_u16_bind.mpr ⟨c.superClass, _, rfl, ?_⟩
  refine (accepts_storedList h.interfaces_length fun index _ p => accepts_lift_u16 index p).bind ?_
  refine (accepts_storedList h.fields_length fun f hf p =>
    (reads_id.mp (Field.reads_scan _) p _ _).mpr ⟨h.fields f hf, rfl⟩).bind ?_
  refine (AcceptsAll.counted accepts_lift_u16 h.methods_length
    (Method.acceptsAll_stored h.methods _)).bind ?_
  exact (Attribute.accepts_scanAll.mpr ⟨h.attributes, rfl⟩).bind (accepts_pure.mpr ⟨rfl, rfl⟩)

/-- **Storing and reading.**  A class that can be stored is read back from its stored form, wherever
    its methods have their code and whatever follows the class. -/
theorem ofBytes_stored {place : Nat → CodePlace} {c : ClassFile} (h : c.Storable place)
    (more : List UInt8) : ofBytes (c.stored place ++ more) = .ok c :=
  ofBytes_of_accepts (accepts_stored h 0) more

/-- A class with one method, whose line numbers are declared in descending order. -/
def sample : ClassFile where
  version := { major := 52, minor := 0 }
  constants := .ofList [.utf8 "Code", .utf8 "run", .utf8 "()V", .long 7, .utf8 "LineNumberTable"]
  accessFlags := 0x21
  thisClass := 0
  superClass := 0
  interfaces := [7]
  fields := []
  methods := [{
    accessFlags := 1, nameIndex := 2, descriptorIndex := 3, name := "run", descriptor := "()V"
    attributes := [{ nameIndex := 2, name := "run", content := [0xff] }]
    code := some {
      maxStack := 0, maxLocals := 1, array := [0x00, 0xb1]
      handlers := [{ start := 0, stop := 1, handler := 1, catchType := none }]
      attributes := [{ nameIndex := 6, name := "LineNumberTable",
                       content := [0, 2, 0, 1, 0, 8, 0, 0, 0, 7] }]
      lines := some ⟨[⟨0, 7⟩, ⟨1, 8⟩]⟩ } }]
  attributes := []

/-- The sample can be stored. -/
theorem storable_sample : sample.Storable fun _ => ⟨1, 1⟩ := by
  -- the table is declared in descending order and kept in ascending order
  have hlines : Code.HasLines [⟨6, "LineNumberTable", [0, 2, 0, 1, 0, 8, 0, 0, 0, 7]⟩]
      (some ⟨[⟨0, 7⟩, ⟨1, 8⟩]⟩) := by
    have hsorted : IsStableSort [⟨1, 8⟩, ⟨0, 7⟩] [⟨0, 7⟩, ⟨1, 8⟩] :=
      LineNumberTable.isStableSort_iff.mpr (by simp [LineNumberTable.ofEntries, List.mergeSort])
    have habsent : ∀ a ∈ ([] : List Attribute), a.name ≠ "LineNumberTable" := by
      intro a hmem
      cases hmem
    exact @Code.HasLines.first [] [] _ _ _ habsent rfl (by decide) rfl hsorted
  have hcode : ∀ code, sample.methods[0].code = some code →
      code.Storable sample.constants := by
    intro code hc
    obtain rfl := Option.some.inj hc
    refine ⟨by decide, by decide, by decide, ?_, ⟨by decide, ?_⟩, hlines, by decide⟩
    · intro h hmem
      obtain rfl := List.mem_singleton.mp hmem
      decide
    · intro a hmem
      obtain rfl := List.mem_singleton.mp hmem
      exact ⟨rfl, by decide⟩
  have hmethod : sample.methods[0].Storable sample.constants ⟨1, 1⟩ := by
    refine ⟨rfl, rfl, ⟨by decide, ?_⟩, ?_, fun code hc => ⟨hcode code hc, rfl, by decide⟩⟩
    · intro a hmem
      obtain rfl := List.mem_singleton.mp hmem
      exact ⟨rfl, by decide⟩
    · intro a hmem
      obtain rfl := List.mem_singleton.mp hmem
      decide
  refine ⟨⟨⟨_, rfl⟩, by decide, ?_⟩, by decide, by decide, ?_, by decide, ?_, ⟨by decide, ?_⟩⟩
  · have hconstants : sample.constants.constants =
        [.utf8 "Code", .utf8 "run", .utf8 "()V", .long 7, .utf8 "LineNumberTable"] := rfl
    have hshort : ∀ text ∈ ["Code", "run", "()V", "LineNumberTable"],
        (Constant.utf8 text).Storable := by
      show ∀ text : String, text ∈ _ → (Text.Modified.encode text.toList).length ≤ 65535
      decide
    intro constant hmem
    rw [hconstants] at hmem
    cases constant with
    | utf8 text => exact hshort text (by simpa using hmem)
    | _ => trivial
  · intro f hmem
    cases hmem
  · intro i m hm
    cases i with
    | zero => exact Option.some.inj hm ▸ hmethod
    | succ i => cases hm
  · intro a hmem
    cases hmem

/-- The theorem at the sample, with the code behind the other attribute and a byte behind the
    class. -/
theorem ofBytes_stored_sample :
    sample.Storable (fun _ => ⟨1, 1⟩) ∧
      ofBytes (sample.stored (fun _ => ⟨1, 1⟩) ++ [0xff]) = .ok sample :=
  ⟨storable_sample, ofBytes_stored storable_sample [0xff]⟩

end ClassFile

end JavaClass
