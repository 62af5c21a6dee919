/-
  Code attributes of a wrong length.

  The length that a code attribute declares is not looked at before the end of its content, and then
  it has to be the length of that content.  So if any other number is put in its place, the class is
  given up right behind the content of the attribute, whatever follows, and the failure names both
  lengths (`code_length_of_ofBytes`).
-/
import JavaClass.Proofs.ClassFile.Failure
import JavaClass.Proofs.ClassFile.MethodAttributes

namespace JavaClass

open BigEndian (bytes)

/-- What leads up to a place in an item of a valid list leads up to a place in the list. -/
theorem ListFront.of_eq_append {α : Type} {Valid : α → Prop} {written : α → List UInt8}
    {Item : Place → List UInt8 → Prop} {place : Place} {items before after : List α} {a : α}
    {front : List UInt8} (h : Counted Valid items) (hitems : items = before ++ a :: after)
    (inside : Item place front) : ListFront Valid written Item place
      (bytes 2 items.length ++ (before.flatMap written ++ front)) := by
  have hcount : (UInt16.ofNat items.length).toNat = items.length :=
    UInt16.toNat_ofNat_of_lt' h.length_lt
  have hroom : before.length < (UInt16.ofNat items.length).toNat := by
    rw [hcount, hitems, List.length_append, List.length_cons]
    omega
  have heach : ∀ b ∈ before, Valid b := by
    intro b hb
    apply h.each
    rw [hitems]
    exact List.mem_append_left _ hb
  rw [← hcount]
  exact .intro hroom heach inside

namespace ClassFile

/-- In the declaration, a code attribute with this content has its length right behind the bytes. -/
inductive Declaration.CodeBehind (d : Declaration) : List UInt8 → Code → Prop
  | intro {before after : List Method.Declaration} {m : Method.Declaration}
    {earlier later : List Method.Item} {nameIndex : UInt16} {body : Code}
    (methods : d.methods = before ++ m :: after)
    (items : m.items = earlier ++ .code nameIndex body :: later) :
    CodeBehind d (d.upToMethods ++ (bytes 2 d.methods.length ++
      (before.flatMap Method.Declaration.written ++ (m.head ++ (bytes 2 m.items.length ++
        (earlier.flatMap Method.Item.written ++ bytes 2 nameIndex.toNat)))))) body

namespace Declaration.CodeBehind

variable {d : Declaration} {front : List UInt8} {body : Code}

/-- Behind the length there is the content. -/
theorem prefix_written (h : d.CodeBehind front body) :
    front ++ (bytes 4 body.stored.length ++ body.stored) <+: d.written := by
  cases h with
  | @intro before after m earlier later nameIndex _ methods items =>
    -- what follows: the other attributes, the other methods, the attributes of the class
    refine ⟨later.flatMap Method.Item.written ++ (after.flatMap Method.Declaration.written ++
      storedList Attribute.stored d.attributes), ?_⟩
    simp only [Declaration.written, upToAttributes, storedList, methods, List.flatMap_append,
      List.flatMap_cons, Method.Declaration.written, items, Method.Item.written, List.append_assoc]

theorem valid_item {before after : List Method.Declaration} {m : Method.Declaration}
    {earlier later : List Method.Item} {item : Method.Item} (hd : d.Valid)
    (methods : d.methods = before ++ m :: after) (items : m.items = earlier ++ item :: later) :
    m.Valid d.pool ∧ item.Valid d.pool := by
  have hm : m ∈ d.methods := methods ▸ List.mem_append_right _ List.mem_cons_self
  have hitem : item ∈ m.items := items ▸ List.mem_append_right _ List.mem_cons_self
  have hmethod := hd.methods.each m hm
  exact ⟨hmethod, hmethod.items.each item hitem⟩

/-- Code of a valid declaration is valid. -/
theorem storable (h : d.CodeBehind front body) (hd : d.Valid) : body.Storable d.pool := by
  cases h with
  | intro methods items =>
    cases (valid_item hd methods items).2 with
    | code name storable => exact storable

/-- Any length may be declared there, and then content of that length is expected. -/
theorem leads (h : d.CodeBehind front body) (hd : d.Valid) (declared : UInt32) :
    Front d.pool (.code declared.toNat) (front ++ bytes 4 declared.toNat) := by
  cases h with
  | @intro before after m earlier later nameIndex _ methods items =>
    obtain ⟨hmethod, hitem⟩ := valid_item hd methods items
    cases hitem with
    | code name storable =>
      -- from the inside out: the attribute, the method that has it, the class
      have hlength : Method.Item.Front d.pool (.code declared.toNat)
          (bytes 2 nameIndex.toNat ++ bytes 4 declared.toNat) := .code name
      have hitems : ListFront (Method.Item.Valid d.pool) Method.Item.written _ _ _ :=
        .of_eq_append hmethod.items items hlength
      have hmember : MemberFront d.pool _ _ (bytes 2 m.accessFlags.toNat ++ _) :=
        .attributes hmethod.name hmethod.descriptor hitems
      have hmethods :
          ListFront (Method.Declaration.Valid d.pool) Method.Declaration.written _ _ _ :=
        .of_eq_append hd.methods methods hmember
      have hfront := Front.method hd.constants hd.interfaces hd.fields hmethods
      simp only [Method.Declaration.head, List.append_assoc] at hfront ⊢
      exact hfront

end Declaration.CodeBehind

/-- The code that a method is read with is declared. -/
theorem Declaration.exists_codeBehind {d : Declaration} {m : Method} {body : Code}
    (hm : m ∈ d.classFile.methods) (hbody : m.code = some body) :
    ∃ front, d.CodeBehind front body := by
  obtain ⟨declared, hdeclared, rfl⟩ := List.mem_map.mp hm
  rw [declared.code_method] at hbody
  obtain ⟨item, hitem, hcode⟩ := List.mem_filterMap.mp (List.mem_of_getLast? hbody)
  -- only an item that is code gives code
  cases item with
  | other unparsed => nomatch hcode
  | code nameIndex found =>
    cases hcode
    obtain ⟨before, after, hmethods⟩ := List.append_of_mem hdeclared
    obtain ⟨earlier, later, hitems⟩ := List.append_of_mem hitem
    exact ⟨_, .intro hmethods hitems⟩

/-- **A wrong length of a code attribute is found out.**  Each code attribute of a class that is
    read declares the length of its content; and with any other length in that place, the class is
    rejected for it, whatever follows the content. -/
theorem code_length_of_ofBytes {data : List UInt8} {c : ClassFile} (h : ofBytes data = .ok c) :
    (∃ d : Declaration, d.Describes data c) ∧ ∀ d : Declaration, d.Describes data c →
      (∀ m ∈ c.methods, ∀ body, m.code = some body → ∃ front, d.CodeBehind front body) ∧
      ∀ front body, d.CodeBehind front body →
        (∃ tail, data = front ++ (bytes 4 body.stored.length ++ (body.stored ++ tail))) ∧
        ∀ (declared : UInt32) (tail : List UInt8), declared.toNat ≠ body.stored.length →
          ofBytes (front ++ (bytes 4 declared.toNat ++ (body.stored ++ tail))) =
            .error (.malformed (.codeAttributeLength declared.toNat body.stored.length)) := by
  refine ⟨ofBytes_eq_ok_iff.mp h, fun d hd => ⟨?_, fun front body hcode => ⟨?_, ?_⟩⟩⟩
  · intro m hm body hbody
    rw [← hd.class_eq] at hm
    exact Declaration.exists_codeBehind hm hbody
  · obtain ⟨rest, hdata⟩ := hd.begins
    obtain ⟨more, hwritten⟩ := hcode.prefix_written
    refine ⟨more ++ rest, ?_⟩
    rw [hdata, ← hwritten]
    simp only [List.append_assoc]
  · intro declared tail hne
    obtain ⟨hreadable, hlines, -⟩ := Code.storable_iff.mp (hcode.storable hd.valid)
    -- the content is well formed, so the length is all there is to blame
    have hblamed : Blamed d.pool (.code declared.toNat) (body.stored ++ tail)
        (.malformed (.codeAttributeLength declared.toNat body.stored.length)) :=
      .codeAttributeLength hreadable hlines hne.symm
    have hcause := Cause.place (hcode.leads hd.valid declared) hblamed
    rw [List.append_assoc] at hcause
    exact ofBytes_eq_error.mpr (rejects_scan.mpr hcause).2

/-- The theorem at a method with two code attributes: a length of the second that is as large as can
    be is found out. -/
theorem code_length_of_ofBytes_twoCodes :
    ofBytes twoCodes.written = .ok twoCodes.classFile ∧
      ∃ front, twoCodes.CodeBehind front ⟨0, 0, [0x00, 0xb1], [], [], none⟩ ∧
        ofBytes (front ++ ([0xFF, 0xFF, 0xFF, 0xFF] ++
          ([0, 0, 0, 0, 0, 0, 0, 2, 0x00, 0xb1, 0, 0, 0, 0] ++ []))) =
            .error (.malformed (.codeAttributeLength 0xFFFFFFFF 14)) := by
  have hdescribes : twoCodes.Describes twoCodes.written twoCodes.classFile :=
    ⟨valid_twoCodes, ⟨[], (List.append_nil _).symm⟩, rfl⟩
  have hread : ofBytes twoCodes.written = .ok twoCodes.classFile :=
    ofBytes_eq_ok_iff.mpr ⟨twoCodes, hdescribes⟩
  obtain ⟨-, hall⟩ := code_length_of_ofBytes hread
  obtain ⟨hcodes, hlength⟩ := hall twoCodes hdescribes
  obtain ⟨front, hfront⟩ := hcodes _ List.mem_cons_self _ rfl
  exact ⟨hread, front, hfront, (hlength _ _ hfront).2 0xFFFFFFFF [] (by decide)⟩

end ClassFile

end JavaClass
