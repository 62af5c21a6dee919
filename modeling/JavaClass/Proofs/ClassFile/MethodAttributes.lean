/-
  What becomes of the attributes of a method.

  A method declares a list of attributes, in which code and other attributes may stand in any order.
  Reading takes the list apart: the other attributes are kept, all of them and in their order, and
  of the code one item is kept, the last.  So nothing is lost exactly if there is no more than one
  item of code (`attributes_of_ofBytes`).  A method with two is read all the same, and the first of
  them is gone (`first_code_lost`).
-/
import JavaClass.Proofs.ClassFile.RoundTrip

namespace JavaClass

namespace Method.Declaration

/-- The code among the attributes of a method, in order. -/
def codes (d : Declaration) : List Code :=
  d.items.filterMap fun
    | .code _ body => some body
    | .other _ => none

/-- The attributes of a method that are not code, in order. -/
def others (d : Declaration) : List Attribute :=
  d.items.filterMap fun
    | .code _ _ => none
    | .other unparsed => some unparsed

/-- Every attribute is code, or it is not. -/
theorem length_items (d : Declaration) : d.items.length = d.others.length + d.codes.length := by
  unfold others codes
  -- induction on the attributes: each is in one of the two lists
  induction d.items with
  | nil => rfl
  | cons item items ih =>
    cases item with
    | code nameIndex body =>
      rw [List.length_cons, ih]
      rfl
    | other unparsed =>
      rw [List.length_cons, ih]
      exact Nat.add_right_comm ..

/-- The other attributes are kept as they are. -/
theorem attributes_method (d : Declaration) : d.method.attributes = d.others := by
  show attributesOf (d.items.map Item.part) = d.others
  rw [attributesOf, List.filterMap_map, others]
  congr 1
  funext item
  cases item with
  | code nameIndex body => rfl
  | other unparsed => rfl

/-- Of the code, the last item is kept. -/
theorem code_method (d : Declaration) : d.method.code = d.codes.getLast? := by
  show codeOf (d.items.map Item.part) = d.codes.getLast?
  rw [codeOf, ← List.map_reverse, List.findSome?_map, codes, List.getLast?_filterMap]
  congr 1
  funext item
  cases item with
  | code nameIndex body => rfl
  | other unparsed => rfl

/-- All attributes are kept if there is no more than one item of code, and only then. -/
theorem length_items_eq_iff (d : Declaration) :
    d.items.length = d.method.attributes.length + d.method.code.toList.length ↔
      d.codes.length ≤ 1 := by
  rw [d.length_items, d.attributes_method, d.code_method]
  -- whatever is declared, at most one item of code is kept
  cases hcodes : d.codes with
  | nil => simp
  | cons first later =>
    have hlast : ((first :: later).getLast?).toList.length = 1 := by
      rw [List.getLast?_cons]
      rfl
    rw [hlast, List.length_cons]
    omega

end Method.Declaration

namespace ClassFile

/-- **The attributes of methods.**  However the bytes of a class are taken as a declaration, the
    methods that are read of it have the other attributes that are declared and the last item of
    code; so all attributes of a method are kept exactly if it declares code no more than once. -/
theorem attributes_of_ofBytes {data : List UInt8} {c : ClassFile} (h : ofBytes data = .ok c) :
    (∃ d : Declaration, d.Describes data c) ∧ ∀ d : Declaration, d.Describes data c →
      c.methods = d.methods.map Method.Declaration.method ∧
      ∀ m ∈ d.methods, m.method.attributes = m.others ∧ m.method.code = m.codes.getLast? ∧
        (m.items.length = m.method.attributes.length + m.method.code.toList.length ↔
          m.codes.length ≤ 1) := by
  refine ⟨ofBytes_eq_ok_iff.mp h, fun d hd => ⟨?_, fun m _ => ?_⟩⟩
  · rw [← hd.class_eq]
    rfl
  · exact ⟨m.attributes_method, m.code_method, m.length_items_eq_iff⟩

/-- A class with one method, which declares two code attributes: one that returns, and one that
    does nothing before it returns. -/
def twoCodes : Declaration where
  version := { major := 52, minor := 0 }
  constants := [.utf8 "Code", .utf8 "run", .utf8 "()V"]
  spelled := (ConstantPool.ofList [.utf8 "Code", .utf8 "run", .utf8 "()V"]).stored
  accessFlags := 0x21
  thisClass := 0
  superClass := 0
  interfaces := []
  fields := []
  methods := [{
    accessFlags := 9, nameIndex := 2, descriptorIndex := 3, name := "run", descriptor := "()V"
    items := [
      .code 1 { maxStack := 0, maxLocals := 0, array := [0xb1], handlers := [], attributes := [],
                lines := none },
      .code 1 { maxStack := 0, maxLocals := 0, array := [0x00, 0xb1], handlers := [],
                attributes := [], lines := none }] }]
  attributes := []

theorem valid_twoCodes : twoCodes.Valid := by
  have hcode : ∀ array : List UInt8, 0 < array.length → array.length ≤ 2 →
      Code.Storable twoCodes.pool ⟨0, 0, array, [], [], none⟩ := by
    intro array hpos hle
    have hstored : (Code.stored ⟨0, 0, array, [], [], none⟩).length = 12 + array.length := by
      simp only [Code.stored, storedList, List.length_append, BigEndian.length_bytes,
        List.flatMap_nil, List.length_nil]
      omega
    have hmax : array.length ≤ 65535 := by omega
    refine Code.storable_iff.mpr ⟨⟨hpos, hmax, counted_nil _, ?_⟩, ?_, by omega⟩
    · exact Attribute.allStorable_iff.mpr (counted_nil _)
    · exact .none (List.forall_mem_nil _)
  -- the texts are short enough to be stored
  have htexts : ∀ text ∈ ["Code", "run", "()V"], (Constant.utf8 text).Storable := by
    show ∀ text : String, text ∈ _ → (Text.Modified.encode text.toList).length ≤ 65535
    decide
  refine ⟨ConstantPool.encodedAs_stored (by decide) ?_, counted_nil _, counted_nil _,
    ⟨by decide, ?_⟩, Attribute.allStorable_iff.mpr (counted_nil _)⟩
  · intro constant hmem
    obtain ⟨text, htext, rfl⟩ : ∃ text ∈ ["Code", "run", "()V"], .utf8 text = constant :=
      List.mem_map.mp hmem
    exact htexts text htext
  · intro m hmem
    obtain rfl := List.mem_singleton.mp hmem
    refine ⟨rfl, rfl, ⟨by decide, ?_⟩⟩
    intro item hitem
    rcases List.mem_cons.mp hitem with rfl | hitem
    · exact .code rfl (hcode [0xb1] (by decide) (by decide))
    · obtain rfl := List.mem_singleton.mp hitem
      exact .code rfl (hcode [0x00, 0xb1] (by decide) (by decide))

/-- The theorem at a class whose method declares two code attributes and has the second. -/
theorem attributes_of_ofBytes_twoCodes :
    ofBytes twoCodes.written = .ok twoCodes.classFile ∧
      ∀ d : Declaration, d.Describes twoCodes.written twoCodes.classFile →
        ∀ m ∈ d.methods, m.method.code = m.codes.getLast? := by
  have hread : ofBytes twoCodes.written = .ok twoCodes.classFile :=
    ofBytes_eq_ok_iff.mpr ⟨twoCodes, valid_twoCodes, ⟨[], (List.append_nil _).symm⟩, rfl⟩
  refine ⟨hread, fun d hd m hm => ?_⟩
  exact (((attributes_of_ofBytes hread).2 d hd).2 m hm).2.1

/-- It is read although its method declares two attributes, and keeps one. -/
theorem first_code_lost : ∃ (data : List UInt8) (c : ClassFile) (d : Declaration),
    ofBytes data = .ok c ∧ d.Describes data c ∧ ∃ m ∈ d.methods,
      m.items.length ≠ m.method.attributes.length + m.method.code.toList.length := by
  have hdescribes : twoCodes.Describes twoCodes.written twoCodes.classFile :=
    ⟨valid_twoCodes, ⟨[], (List.append_nil _).symm⟩, rfl⟩
  exact ⟨_, _, twoCodes, ofBytes_eq_ok_iff.mpr ⟨twoCodes, hdescribes⟩, hdescribes, _,
    List.mem_singleton.mpr rfl, by decide⟩

end ClassFile

end JavaClass
