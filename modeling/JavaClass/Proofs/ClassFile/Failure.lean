/-
  Why a class file cannot be read.

  Apart from a lack of input, a class file is given up for a magic number that is not that of a
  class file, for its constant pool, or for what stands at one place behind it: an index that leads
  to no text, or the content of a code attribute (`Blamed`).  A failure is traced down to its place
  part by part, from the attributes up, and a place that the bytes lead up to is reached; so the
  causes of failure are known exactly (`ClassFile.rejects_scan`).
-/
import JavaClass.Proofs.Bytes.Rejects
import JavaClass.Proofs.ClassFile.Front

namespace JavaClass

open Scan
open BigEndian (bytes)

/-! ## What can be wrong at a place

  There are four things that can be wrong behind the pool: a name that is not one, and three
  defects of code.  Each is stated on the bytes from the place on, in terms of the format only. -/

/-- The first line number table among the attributes is not a count and that many entries. -/
def Code.BrokenLines (attributes : List Attribute) : Prop :=
  ∃ before holder after, attributes = before ++ holder :: after ∧
    (∀ a ∈ before, a.name ≠ "LineNumberTable") ∧ holder.name = "LineNumberTable" ∧
    ∀ declared : List LineEntry, declared.length < 65536 →
      holder.content ≠ storedList LineEntry.stored declared

/-- `Blamed pool place rest e`: because of what the bytes `rest` have at the place, a class file
    with this pool is given up with the failure `e`. -/
inductive Blamed (pool : ConstantPool) : Place → List UInt8 → ReadError → Prop
  | name {index : UInt16} {rest : List UInt8} {r : ReferenceError}
    (fails : pool.utf8 index = .error r) :
    Blamed pool .name (bytes 2 index.toNat ++ rest) (.reference r)
  | codeLength {declared : Nat} {maxStack maxLocals : UInt16} {length : UInt32} {rest : List UInt8}
    (bad : length.toNat = 0 ∨ 65535 < length.toNat) :
    Blamed pool (.code declared) (bytes 2 maxStack.toNat ++ (bytes 2 maxLocals.toNat ++
      (bytes 4 length.toNat ++ rest))) (.malformed (.codeLength length.toNat))
  | lineNumbers {declared : Nat} {body : Code} {rest : List UInt8} (readable : body.Readable pool)
    (broken : Code.BrokenLines body.attributes) :
    Blamed pool (.code declared) (body.stored ++ rest) (.malformed .lineNumberTable)
  | codeAttributeLength {declared : Nat} {body : Code} {rest : List UInt8}
    {lines : Option LineNumberTable} (readable : body.Readable pool)
    (hasLines : Code.HasLines body.attributes lines) (wrong : body.stored.length ≠ declared) :
    Blamed pool (.code declared) (body.stored ++ rest)
      (.malformed (.codeAttributeLength declared body.stored.length))

/-- The failure is to be blamed on a place that the bytes lead up to. -/
def BlamedWithin (pool : ConstantPool) (Front : Place → List UInt8 → Prop) (read : List UInt8)
    (e : ReadError) : Prop :=
  ∃ place front rest, read = front ++ rest ∧ Front place front ∧ Blamed pool place rest e

section
variable {pool : ConstantPool} {p : Nat} {read first : List UInt8} {e : ReadError}
  {Front Front' : Place → List UInt8 → Prop}

/-- A place in a part is a place in the whole, behind what precedes the part. -/
theorem BlamedWithin.behind (h : BlamedWithin pool Front read e)
    (hfront : ∀ place front, Front place front → Front' place (first ++ front)) :
    BlamedWithin pool Front' (first ++ read) e := by
  obtain ⟨place, front, rest, rfl, hf, hb⟩ := h
  exact ⟨place, first ++ front, rest, (List.append_assoc ..).symm, hfront _ _ hf, hb⟩

/-- A list is rejected within one of its items. -/
theorem blamedWithin_of_counted {α β : Type} {scan : Scan ReadError α} {Valid : β → Prop}
    {written : β → List UInt8} {value : β → α} (hreads : scan.Reads Valid written value)
    (hi : Incremental scan)
    (hitem : ∀ p read, scan.Rejects p read e → BlamedWithin pool Front read e)
    (h : (counted (liftM u16) scan).Rejects p read e) :
    BlamedWithin pool (ListFront Valid written Front) read e := by
  simp only [counted, rejects_u16_bind] at h
  obtain ⟨count, _, rfl, h⟩ := h
  -- the items before the one that is rejected have been read
  obtain ⟨_, _, before, rfl, hlt, hall, hrejects⟩ := (rejects_times hi).mp h
  obtain ⟨bs, hbs, rfl, rfl⟩ := hreads.all.mp hall
  rw [List.length_map] at hlt
  obtain ⟨place, front, rest, rfl, hf, hb⟩ := hitem _ _ hrejects
  refine ⟨place, bytes 2 count.toNat ++ (bs.flatMap written ++ front), rest, ?_,
    .intro hlt hbs hf, hb⟩
  simp only [List.append_assoc]

/-! ## Attributes

  Of an attribute that is kept as it is, the name alone is looked up; neither its length nor its
  content can be wrong, only missing. -/

/-- Of the header of an attribute, only the reference to its name can be rejected. -/
theorem Attribute.rejects_scanHeader : (scanHeader pool).Rejects p read e ↔
    ∃ (index : UInt16) (rest : List UInt8) (r : ReferenceError),
      read = bytes 2 index.toNat ++ rest ∧ pool.utf8 index = .error r ∧ e = .reference r := by
  simp only [scanHeader, rejects_u16_bind, rejects_resolve_bind, rejects_u32_bind]
  constructor
  · rintro ⟨index, rest, rfl, ⟨r, hr, rfl⟩ | ⟨name, -, length, _, -, hpure⟩⟩
    · exact ⟨index, rest, r, rfl, hr, rfl⟩
    · exact absurd hpure (unchecked_pure _).not_rejects
  · rintro ⟨index, rest, r, rfl, hr, rfl⟩
    exact ⟨index, rest, rfl, Or.inl ⟨r, hr, rfl⟩⟩

/-- The content of an attribute is not looked at. -/
theorem Attribute.unchecked_scanContent (header : Header) : Unchecked (scanContent header) :=
  (unchecked_bytes _).lift.bind fun _ => unchecked_pure _

/-- A rejected attribute is rejected for its name. -/
theorem Attribute.blamedWithin_of_scan (h : (scan pool).Rejects p read e) :
    BlamedWithin pool (Attribute.Front pool) read e := by
  rcases (rejects_bind (incremental_header pool)).mp h with h | ⟨_, _, header, -, -, h⟩
  · obtain ⟨index, rest, r, rfl, hr, rfl⟩ := rejects_scanHeader.mp h
    exact ⟨.name, [], _, rfl, .name, .name hr⟩
  · exact absurd h (unchecked_scanContent header).not_rejects

/-- A rejected list of attributes is rejected for one of them, behind others that are storable. -/
theorem Attribute.blamedWithin_of_scanAll (h : (scanAll pool).Rejects p read e) :
    BlamedWithin pool (ListFront (Storable pool) stored (Attribute.Front pool)) read e :=
  blamedWithin_of_counted reads_scan (incremental_attribute pool)
    (fun _ _ h => blamedWithin_of_scan h) h

/-! ## Code

  Code can be wrong in itself, which is to blame on the place where its content starts, or one of
  the attributes inside it can be. -/

namespace Code

/-- Lines are rejected if the first table of them cannot be read. -/
theorem linesOf_eq_error {attributes : List Attribute} :
    linesOf attributes = .error e ↔ BrokenLines attributes ∧ e = .malformed .lineNumberTable := by
  constructor
  · intro h
    unfold linesOf at h
    split at h
    · nomatch h
    · rename_i holder hsome
      obtain ⟨hname, before, after, rfl, hbefore⟩ := Attribute.named?_eq_some.mp hsome
      split at h
      · nomatch h
      · rename_i hnone
        cases h
        -- a list of entries that the content is the stored form of would have been read
        refine ⟨⟨before, holder, after, rfl, hbefore, hname, ?_⟩, rfl⟩
        intro declared hlen hcontent
        have htable := LineNumberTable.ofBytes?_eq_some.mpr ⟨declared, hlen, hcontent, rfl⟩
        rw [hnone] at htable
        nomatch htable
  · rintro ⟨⟨before, holder, after, rfl, hbefore, hname, hbroken⟩, rfl⟩
    have hsome := Attribute.named?_eq_some.mpr ⟨hname, before, after, rfl, hbefore⟩
    have hnone : LineNumberTable.ofBytes? holder.content = none := by
      refine Option.eq_none_iff_forall_ne_some.mpr fun table htable => ?_
      obtain ⟨declared, hlen, hcontent, -⟩ := LineNumberTable.ofBytes?_eq_some.mp htable
      exact hbroken declared hlen hcontent
    rw [linesOf, hsome]
    simp only [hnone]

/-- Exception handlers are not looked at. -/
theorem unchecked_handlers :
    Unchecked (counted (liftM u16) (liftM ExceptionHandler.scan) : Scan ReadError ExceptionTable) :=
  unchecked_u16.lift.bind fun n => Unchecked.times (Unchecked.lift
    (unchecked_u16.bind fun _ => unchecked_u16.bind fun _ => unchecked_u16.bind fun _ =>
      unchecked_u16.bind fun _ => unchecked_pure _)) n.toNat

/-- The parts of code are rejected for the length of the code array, or within the attributes. -/
theorem blamed_of_scanBody {declared : Nat} (h : (scanBody pool).Rejects p read e) :
    Blamed pool (.code declared) read e ∨ BlamedWithin pool (Code.Front pool) read e := by
  simp only [scanBody, rejects_u16_bind, rejects_u32_bind] at h
  obtain ⟨maxStack, _, rfl, maxLocals, _, rfl, length, _, rfl, h⟩ := h
  rw [rejects_require_bind (not_isShortage_malformed _)] at h
  -- the length of the code array is the first thing that is checked
  rcases h with ⟨hbad, rfl⟩ | ⟨⟨hpos, hle⟩, h⟩
  · refine Or.inl (.codeLength ?_)
    unfold maxCodeLength at hbad
    omega
  -- behind it, nothing is checked before the attributes are
  rw [(unchecked_bytes _).lift.rejects_bind (incremental_bytes _).lift] at h
  obtain ⟨_, _, array, rfl, harray, h⟩ := h
  obtain ⟨hlength, rfl⟩ := accepts_bytes.mp (accepts_lift.mp harray)
  rw [unchecked_handlers.rejects_bind (incremental_u16.lift.counted incremental_handler.lift)] at h
  obtain ⟨_, _, handlers, rfl, hhandlers, h⟩ := h
  obtain ⟨heach, rfl⟩ := (accepts_counted_iff ExceptionHandler.reads_scan
    incremental_handler.lift).mp hhandlers
  rw [rejects_map (incremental_attributes pool)] at h
  obtain ⟨place, front, rest, rfl, hfront, hb⟩ := Attribute.blamedWithin_of_scanAll h
  rw [← hlength] at hpos hle ⊢
  -- what is taken as it is, is not to be blamed
  have hother : ∀ length, place ≠ .content "LineNumberTable" length := by
    rintro length rfl
    cases hb
  refine Or.inr ⟨place, bytes 2 maxStack.toNat ++ (bytes 2 maxLocals.toNat ++
    (bytes 4 array.length ++ (array ++ (storedList ExceptionHandler.stored handlers ++ front)))),
    rest, ?_, .attributes hpos hle heach hfront hother, hb⟩
  simp only [List.append_assoc]

/-- Code is compared in two respects: its line numbers with its attributes, and its length with the
    one that is declared. -/
theorem rejects_checkBody {start declared : Nat} {body : Code} :
    (checkBody start declared body).Rejects p read e ↔
      (BrokenLines body.attributes ∧ e = .malformed .lineNumberTable) ∨
        (∃ lines, HasLines body.attributes lines) ∧ p - start ≠ declared ∧
          e = .malformed (.codeAttributeLength declared (p - start)) := by
  have hlines : ∀ e, linesOf body.attributes = .error e → ¬ IsShortage e := by
    intro e he
    rw [(linesOf_eq_error.mp he).2]
    exact not_isShortage_malformed _
  rw [checkBody, rejects_ofExcept_bind hlines, linesOf_eq_error]
  simp only [linesOf_eq_ok, rejects_position_bind,
    rejects_require_bind (not_isShortage_malformed _)]
  refine or_congr Iff.rfl ?_
  constructor
  · rintro ⟨lines, hhas, ⟨hne, rfl⟩ | ⟨-, hpure⟩⟩
    · exact ⟨⟨lines, hhas⟩, hne, rfl⟩
    · exact absurd hpure (unchecked_pure _).not_rejects
  · rintro ⟨⟨lines, hhas⟩, hne, rfl⟩
    exact ⟨lines, hhas, Or.inl ⟨hne, rfl⟩⟩

/-- Code is rejected for what its content is, or within it. -/
theorem blamed_of_scan {declared : Nat} (h : (scan pool declared).Rejects p read e) :
    Blamed pool (.code declared) read e ∨ BlamedWithin pool (Code.Front pool) read e := by
  rw [scan_eq, rejects_position_bind, rejects_bind (incremental_scanBody pool)] at h
  rcases h with h | ⟨_, rest, body, rfl, hbody, h⟩
  · exact blamed_of_scanBody h
  obtain ⟨hreadable, -, rfl⟩ := accepts_scanBody.mp hbody
  rw [rejects_checkBody, Nat.add_sub_cancel_left] at h
  rcases h with ⟨hbroken, rfl⟩ | ⟨⟨lines, hlines⟩, hne, rfl⟩
  · exact Or.inl (.lineNumbers hreadable hbroken)
  · exact Or.inl (.codeAttributeLength hreadable hlines hne)

/-- Code is rejected for what its content is. -/
theorem rejects_scan {declared : Nat} (h : Blamed pool (.code declared) read e) :
    (scan pool declared).Rejects p read e := by
  -- a defect that is found by comparison is found behind the body
  have hbehind : ∀ {body : Code} {rest : List UInt8}, body.Readable pool →
      (checkBody p declared { body with lines := none }).Rejects (p + body.stored.length) rest e →
        (scan pool declared).Rejects p (body.stored ++ rest) e := by
    intro body rest hreadable hcheck
    rw [scan_eq, rejects_position_bind, rejects_bind (incremental_scanBody pool)]
    have hbody : Readable pool { body with lines := none } :=
      ⟨hreadable.array_pos, hreadable.array_le, hreadable.handlers, hreadable.attributes⟩
    exact Or.inr ⟨_, _, _, rfl, accepts_scanBody.mpr ⟨hbody, rfl, rfl⟩, hcheck⟩
  cases h with
  | @codeLength _ maxStack maxLocals length rest bad =>
    rw [scan, rejects_position_bind]
    simp only [rejects_u16_bind, rejects_u32_bind]
    refine ⟨maxStack, _, rfl, maxLocals, _, rfl, length, _, rfl,
      (rejects_require_bind (not_isShortage_malformed _)).mpr (Or.inl ⟨?_, rfl⟩)⟩
    unfold maxCodeLength
    omega
  | lineNumbers readable broken =>
    exact hbehind readable (rejects_checkBody.mpr (Or.inl ⟨broken, rfl⟩))
  | codeAttributeLength readable hasLines wrong =>
    refine hbehind readable (rejects_checkBody.mpr (Or.inr ⟨⟨_, hasLines⟩, ?_⟩))
    rw [Nat.add_sub_cancel_left]
    exact ⟨wrong, rfl⟩

end Code

/-! ## Members

  Fields and methods begin alike, with two names, so they share one statement with the reader of
  their attributes as its parameter. -/

/-- A rejected attribute of a method is rejected for its name, or for what is wrong with the code in
    it. -/
theorem Method.blamedWithin_of_scanPart (h : (scanPart pool).Rejects p read e) :
    BlamedWithin pool (Item.Front pool) read e := by
  rcases (rejects_bind (incremental_header pool)).mp h with h | ⟨_, rest, header, rfl, hheader, h⟩
  · obtain ⟨index, rest, r, rfl, hr, rfl⟩ := Attribute.rejects_scanHeader.mp h
    exact ⟨.name, [], _, rfl, .name, .name hr⟩
  obtain ⟨hname, hlen, rfl⟩ := Attribute.accepts_scanHeader.mp hheader
  have hlength : (UInt32.ofNat header.length).toNat = header.length :=
    UInt32.toNat_ofNat_of_lt' hlen
  -- only code has a content that can be wrong
  by_cases hcode : header.name = "Code"
  · rw [if_pos hcode, rejects_map (incremental_code pool _)] at h
    rw [hcode] at hname
    rw [← hlength] at h ⊢
    rcases Code.blamed_of_scan h with hb | hwithin
    · exact ⟨_, _, rest, rfl, .code hname, hb⟩
    · exact hwithin.behind fun _ _ hfront => .inside hname hfront
  · rw [if_neg hcode, rejects_map (incremental_content header)] at h
    exact absurd h (Attribute.unchecked_scanContent header).not_rejects

/-- Fields and methods are rejected for their names, or within their attributes. -/
theorem blamedWithin_of_member {α γ : Type} {list : Scan ReadError γ}
    {make : UInt16 → UInt16 → String → UInt16 → String → γ → α}
    {Attributes : Place → List UInt8 → Prop} (hi : Incremental list)
    (hlist : ∀ p read, list.Rejects p read e → BlamedWithin pool Attributes read e)
    (h : (do
      let accessFlags ← u16
      let nameIndex ← u16
      let name ← resolve (pool.utf8 nameIndex)
      let descriptorIndex ← u16
      let descriptor ← resolve (pool.utf8 descriptorIndex)
      let items ← list
      return make accessFlags nameIndex name descriptorIndex descriptor items :
        Scan ReadError α).Rejects p read e) :
    BlamedWithin pool (MemberFront pool Attributes) read e := by
  simp only [rejects_u16_bind, rejects_resolve_bind, rejects_map hi] at h
  obtain ⟨accessFlags, _, rfl, nameIndex, _, rfl, h⟩ := h
  rcases h with ⟨r, hr, rfl⟩ | ⟨name, hname, descriptorIndex, _, rfl, h⟩
  · exact ⟨_, bytes 2 accessFlags.toNat, _, rfl, .name, .name hr⟩
  rcases h with ⟨r, hr, rfl⟩ | ⟨descriptor, hdescriptor, h⟩
  · exact ⟨_, bytes 2 accessFlags.toNat ++ bytes 2 nameIndex.toNat, _,
      (List.append_assoc ..).symm, .descriptor hname, .name hr⟩
  · obtain ⟨place, front, rest, rfl, hfront, hb⟩ := hlist _ _ h
    refine ⟨place, bytes 2 accessFlags.toNat ++ (bytes 2 nameIndex.toNat ++
      (bytes 2 descriptorIndex.toNat ++ front)), rest, ?_, .attributes hname hdescriptor hfront, hb⟩
    simp only [List.append_assoc]

/-- A rejected field is rejected for a reference in its head, or for an attribute. -/
theorem Field.blamedWithin_of_scan (h : (scan pool).Rejects p read e) :
    BlamedWithin pool (Field.Front pool) read e :=
  blamedWithin_of_member (incremental_attributes pool)
    (fun _ _ h => Attribute.blamedWithin_of_scanAll h) h

/-- A rejected method is rejected for a reference in its head, or for an attribute. -/
theorem Method.blamedWithin_of_scan (h : (scan pool).Rejects p read e) :
    BlamedWithin pool (Method.Front pool) read e :=
  blamedWithin_of_member (incremental_u16.lift.counted (incremental_part pool))
    (fun _ _ h => blamedWithin_of_counted (reads_scanPart pool) (incremental_part pool)
      (fun _ _ h => blamedWithin_of_scanPart h) h) h

end

/-! ## Places are reached

  So far each failure has been traced to a place.  The converse takes no more than that a scan
  that is led to a place runs into what is wrong there. -/

namespace Scan

variable {α : Type} {pool : ConstantPool} {related : α → α → Prop} {place : Place} {p : Nat}
  {front rest : List UInt8} {scan : Scan ReadError α} {e : ReadError}

/-- A scan that reads what stands at a place fails for what is to blame there. -/
theorem Awaits.rejects (h : Awaits pool related place scan) (hb : Blamed pool place rest e) :
    scan.Rejects p rest e := by
  cases h with
  | name =>
    cases hb with
    | name fails =>
      exact rejects_u16_bind.mpr ⟨_, _, rfl, rejects_resolve_bind.mpr (Or.inl ⟨_, fails, rfl⟩)⟩
  | index alike => nomatch hb
  | content alike => nomatch hb
  | code => exact (rejects_bind (incremental_code pool _)).mpr (Or.inl (Code.rejects_scan hb))

/-- A place that a scan gets to is blamed on behalf of the whole scan. -/
theorem Leads.rejects (h : scan.Leads pool related place p front)
    (hb : Blamed pool place rest e) : scan.Rejects p (front ++ rest) e := by
  obtain ⟨left, hresumes, hawaits⟩ := h
  obtain ⟨hshort, d, hd⟩ : left.Rejects (p + front.length) rest e := hawaits.rejects hb
  exact ⟨hshort, d, (hresumes rest).trans hd⟩

end Scan

/-! ## The whole file -/

namespace ClassFile

variable {p : Nat} {data : List UInt8} {e : ReadError}

/-- `Cause data e`: the bytes have something because of which they are given up with the failure
    `e`, other than that there are too few of them. -/
inductive Cause : List UInt8 → ReadError → Prop
  | magic {found : UInt32} {rest : List UInt8} (other : found ≠ magic) :
    Cause (bytes 4 found.toNat ++ rest) (.notAClassFile found)
  | constants {minor major : UInt16} {rest : List UInt8} {e : ReadError}
    (rejects : ConstantPool.scan.Rejects 8 rest e) :
    Cause (bytes 4 magic.toNat ++ (bytes 2 minor.toNat ++ (bytes 2 major.toNat ++ rest))) e
  | place {pool : ConstantPool} {place : Place} {front rest : List UInt8} {e : ReadError}
    (leads : Front pool place front) (blamed : Blamed pool place rest e) : Cause (front ++ rest) e

/-- What is blamed behind the pool is a cause for the whole file. -/
theorem Cause.behind {pool : ConstantPool} {place : Place} {first front rest : List UInt8}
    (leads : Front pool place (first ++ front)) (blamed : Blamed pool place rest e) :
    Cause (first ++ (front ++ rest)) e := by
  rw [← List.append_assoc]
  exact .place leads blamed

/-- Interfaces are not looked at. -/
theorem unchecked_interfaces :
    Unchecked (counted (liftM u16) (liftM u16) : Scan ReadError (List UInt16)) :=
  unchecked_u16.lift.bind fun n => unchecked_u16.lift.times n.toNat

/-- What is rejected has a cause. -/
theorem cause_of_rejects (h : scan.Rejects 0 data e) : Cause data e := by
  simp only [scan, rejects_u32_bind] at h
  obtain ⟨found, _, rfl, h⟩ := h
  rw [rejects_require_bind (not_isShortage_notAClassFile _)] at h
  -- the magic number
  rcases h with ⟨hother, rfl⟩ | ⟨rfl, h⟩
  · exact .magic hother
  simp only [rejects_u16_bind] at h
  obtain ⟨minor, _, rfl, major, _, rfl, h⟩ := h
  -- the constant pool
  rw [rejects_bind incremental_pool] at h
  rcases h with h | ⟨spelled, _, _, rfl, hpool, h⟩
  · exact .constants h
  obtain ⟨constants, hconstants, rfl⟩ := ConstantPool.accepts_scan.mp hpool
  simp only [rejects_u16_bind] at h
  obtain ⟨accessFlags, _, rfl, thisClass, _, rfl, superClass, _, rfl, h⟩ := h
  -- flags, classes and interfaces, with which nothing can be wrong
  rw [unchecked_interfaces.rejects_bind (incremental_u16.lift.counted incremental_u16.lift)] at h
  obtain ⟨_, _, interfaces, rfl, hread, h⟩ := h
  obtain ⟨hinterfaces, rfl⟩ := (accepts_counted_iff reads_u16 incremental_u16.lift).mp hread
  -- a list that is not reached is put down as empty
  let upTo (fields : List Field) (methods : List Method.Declaration) : Declaration :=
    ⟨⟨major, minor⟩, constants, spelled, accessFlags, thisClass, superClass, interfaces, fields,
      methods, []⟩
  -- fields, methods, attributes: each behind all that comes before it
  rw [rejects_bind (incremental_u16.lift.counted (incremental_field _))] at h
  rcases h with h | ⟨_, _, fields, rfl, hread, h⟩
  · obtain ⟨place, front, rest, rfl, hfront, hb⟩ := blamedWithin_of_counted (Field.reads_scan _)
      (incremental_field _) (fun _ _ h => Field.blamedWithin_of_scan h) h
    have h := Cause.behind (@Front.field (upTo [] []) _ _ hconstants hinterfaces hfront) hb
    simp only [Declaration.upToFields, Declaration.upToInterfaces, Declaration.head,
      List.append_assoc] at h
    exact h
  obtain ⟨hfields, rfl⟩ :=
    (accepts_counted_iff (Field.reads_scan _) (incremental_field _)).mp hread
  rw [rejects_bind (incremental_u16.lift.counted (incremental_method _))] at h
  rcases h with h | ⟨_, _, _, rfl, hread, h⟩
  · obtain ⟨place, front, rest, rfl, hfront, hb⟩ := blamedWithin_of_counted (Method.reads_scan _)
      (incremental_method _) (fun _ _ h => Method.blamedWithin_of_scan h) h
    have h := Cause.behind (@Front.method (upTo fields []) _ _ hconstants hinterfaces hfields
      hfront) hb
    simp only [Declaration.upToMethods, Declaration.upToFields, Declaration.upToInterfaces,
      Declaration.head, List.append_assoc] at h
    exact h
  obtain ⟨methods, hmethods, rfl, rfl⟩ :=
    ((Method.reads_scan _).counted (incremental_method _) _ _ _).mp hread
  rw [rejects_map (incremental_attributes _)] at h
  obtain ⟨place, front, rest, rfl, hfront, hb⟩ := Attribute.blamedWithin_of_scanAll h
  have h := Cause.behind (@Front.attributes (upTo fields methods) _ _ hconstants hinterfaces
    hfields hmethods hfront) hb
  simp only [Declaration.upToAttributes, Declaration.upToMethods, Declaration.upToFields,
    Declaration.upToInterfaces, Declaration.head, List.append_assoc] at h
  exact h

/-- **What is rejected, and why.**  Bytes are given up for a reason other than that there are too
    few of them exactly if something in them is the cause. -/
theorem rejects_scan : scan.Rejects 0 data e ↔ Cause data e := by
  refine ⟨cause_of_rejects, fun h => ?_⟩
  cases h with
  | @magic found rest other =>
    simp only [scan, rejects_u32_bind]
    refine ⟨found, rest, rfl, ?_⟩
    exact (rejects_require_bind (not_isShortage_notAClassFile _)).mpr (Or.inl ⟨other, rfl⟩)
  | @constants minor major rest e rejects =>
    simp only [scan, rejects_u32_bind]
    refine ⟨ClassFile.magic, _, rfl, ?_⟩
    refine (rejects_require_bind (not_isShortage_notAClassFile _)).mpr (Or.inr ⟨rfl, ?_⟩)
    simp only [rejects_u16_bind]
    exact ⟨minor, _, rfl, major, _, rfl, (rejects_bind incremental_pool).mpr (Or.inl rejects)⟩
  | place leads blamed => exact (leads_scan leads).rejects blamed

end ClassFile

end JavaClass
