/-
  Places in a class file, and what leads up to them.

  Reading a class file can fail over what it finds only at a few kinds of places: where an index is
  looked up as a name, and where the content of a code attribute begins.  At two other kinds of
  places whatever stands there is taken as it is.  `Place` names these kinds, and `Front place
  front` says that the bytes `front`, all of them well formed, lead up to a place: the lists that
  it is in are counted high enough, and the names in front of it are texts of the pool.

  Having passed such bytes, the scan of a class file is about to read what stands at the place
  (`Scan.Leads`).  So it fails if what stands there is rejected; and if it is taken as it is, then
  putting something else there changes no failure (`ClassFile.leads_scan`).
-/
import JavaClass.Proofs.Bytes.Resumes
import JavaClass.Proofs.ClassFile.Accepts

namespace JavaClass

open Scan
open BigEndian (bytes)

/-- A kind of place in a class file. -/
inductive Place where
  /-- The index of a text: the name or the descriptor of a member, or the name of an attribute. -/
  | name
  /-- An index that is taken as it is: of the class, of the class that it extends, of an interface,
      or of a class that a handler catches. -/
  | index
  /-- The content of an attribute that is taken as it is. -/
  | content (name : String) (length : Nat)
  /-- The content of a code attribute that declares this length. -/
  | code (declared : Nat)

/-! ## What leads up to a place

  One case for each part of a class file in which there is a place, and in each case the parts in
  front of it.  The lists that are still to be finished are counted, so that the place lies within
  them. -/

/-- A place within a list, in the item behind those in `before`. -/
inductive ListFront {α : Type} (Valid : α → Prop) (written : α → List UInt8)
    (Item : Place → List UInt8 → Prop) : Place → List UInt8 → Prop
  | intro {place : Place} {count : UInt16} {before : List α} {front : List UInt8}
    (room : before.length < count.toNat) (each : ∀ a ∈ before, Valid a)
    (inside : Item place front) :
    ListFront Valid written Item place (bytes 2 count.toNat ++ (before.flatMap written ++ front))

/-- An index by itself. -/
inductive IndexFront : Place → List UInt8 → Prop
  | here : IndexFront .index []

/-- The bytes lead up to a place in an attribute. -/
inductive Attribute.Front (pool : ConstantPool) : Place → List UInt8 → Prop
  | name : Front pool .name []
  | content {nameIndex : UInt16} {name : String} {length : UInt32}
    (named : pool.utf8 nameIndex = .ok name) :
    Front pool (.content name length.toNat) (bytes 2 nameIndex.toNat ++ bytes 4 length.toNat)

/-- The bytes lead up to a place in an exception handler. -/
inductive ExceptionHandler.Front : Place → List UInt8 → Prop
  | catchType {start stop handler : UInt16} :
    Front .index (bytes 2 start.toNat ++ (bytes 2 stop.toNat ++ bytes 2 handler.toNat))

/-- The bytes lead up to a place in the content of a code attribute.  Line numbers are not taken as
    they are. -/
inductive Code.Front (pool : ConstantPool) : Place → List UInt8 → Prop
  | handler {maxStack maxLocals : UInt16} {array front : List UInt8} {place : Place}
    (array_pos : 0 < array.length) (array_le : array.length ≤ 65535)
    (inside : ListFront (·.catchType ≠ some 0) ExceptionHandler.stored ExceptionHandler.Front place
      front) :
    Front pool place (bytes 2 maxStack.toNat ++ (bytes 2 maxLocals.toNat ++
      (bytes 4 array.length ++ (array ++ front))))
  | attributes {maxStack maxLocals : UInt16} {array front : List UInt8} {place : Place}
    {handlers : ExceptionTable} (array_pos : 0 < array.length) (array_le : array.length ≤ 65535)
    (each : Counted (·.catchType ≠ some 0) handlers)
    (inside : ListFront (Attribute.Storable pool) Attribute.stored (Attribute.Front pool) place
      front)
    (other : ∀ length, place ≠ .content "LineNumberTable" length) :
    Front pool place (bytes 2 maxStack.toNat ++ (bytes 2 maxLocals.toNat ++
      (bytes 4 array.length ++ (array ++ (storedList ExceptionHandler.stored handlers ++ front)))))

/-- The bytes lead up to a place in a member: to one of its two names, or to a place in the list of
    its attributes. -/
inductive MemberFront (pool : ConstantPool) (Attributes : Place → List UInt8 → Prop) :
    Place → List UInt8 → Prop
  | name {accessFlags : UInt16} : MemberFront pool Attributes .name (bytes 2 accessFlags.toNat)
  | descriptor {accessFlags nameIndex : UInt16} {name : String}
    (named : pool.utf8 nameIndex = .ok name) :
    MemberFront pool Attributes .name (bytes 2 accessFlags.toNat ++ bytes 2 nameIndex.toNat)
  | attributes {accessFlags nameIndex descriptorIndex : UInt16} {name descriptor : String}
    {front : List UInt8} {place : Place} (named : pool.utf8 nameIndex = .ok name)
    (described : pool.utf8 descriptorIndex = .ok descriptor) (inside : Attributes place front) :
    MemberFront pool Attributes place (bytes 2 accessFlags.toNat ++ (bytes 2 nameIndex.toNat ++
      (bytes 2 descriptorIndex.toNat ++ front)))

/-- The bytes lead up to a place in a field. -/
abbrev Field.Front (pool : ConstantPool) : Place → List UInt8 → Prop :=
  MemberFront pool (ListFront (Attribute.Storable pool) Attribute.stored (Attribute.Front pool))

/-- The bytes lead up to a place in an attribute of a method. -/
inductive Method.Item.Front (pool : ConstantPool) : Place → List UInt8 → Prop
  | name : Front pool .name []
  | content {nameIndex : UInt16} {name : String} {length : UInt32}
    (named : pool.utf8 nameIndex = .ok name) (other : name ≠ "Code") :
    Front pool (.content name length.toNat) (bytes 2 nameIndex.toNat ++ bytes 4 length.toNat)
  | code {nameIndex : UInt16} {length : UInt32} (named : pool.utf8 nameIndex = .ok "Code") :
    Front pool (.code length.toNat) (bytes 2 nameIndex.toNat ++ bytes 4 length.toNat)
  | inside {nameIndex : UInt16} {length : UInt32} {front : List UInt8} {place : Place}
    (named : pool.utf8 nameIndex = .ok "Code") (inside : Code.Front pool place front) :
    Front pool place (bytes 2 nameIndex.toNat ++ bytes 4 length.toNat ++ front)

/-- The bytes lead up to a place in a method. -/
abbrev Method.Front (pool : ConstantPool) : Place → List UInt8 → Prop :=
  MemberFront pool (ListFront (Method.Item.Valid pool) Method.Item.written
    (Method.Item.Front pool))

/-- The bytes lead up to a place in a class file with this pool. -/
inductive ClassFile.Front : ConstantPool → Place → List UInt8 → Prop
  | thisClass {d : Declaration} (constants : ConstantPool.EncodedAs d.constants d.spelled) :
    Front d.pool .index (d.head ++ bytes 2 d.accessFlags.toNat)
  | superClass {d : Declaration} (constants : ConstantPool.EncodedAs d.constants d.spelled) :
    Front d.pool .index (d.head ++ bytes 2 d.accessFlags.toNat ++ bytes 2 d.thisClass.toNat)
  | interface {d : Declaration} {front : List UInt8} {place : Place}
    (constants : ConstantPool.EncodedAs d.constants d.spelled)
    (inside : ListFront (fun _ : UInt16 => True) (bytes 2 ·.toNat) IndexFront place front) :
    Front d.pool place (d.upToInterfaces ++ front)
  | field {d : Declaration} {front : List UInt8} {place : Place}
    (constants : ConstantPool.EncodedAs d.constants d.spelled)
    (interfaces : Counted (fun _ => True) d.interfaces)
    (inside : ListFront (Field.Storable d.pool) Field.stored (Field.Front d.pool) place front) :
    Front d.pool place (d.upToFields ++ front)
  | method {d : Declaration} {front : List UInt8} {place : Place}
    (constants : ConstantPool.EncodedAs d.constants d.spelled)
    (interfaces : Counted (fun _ => True) d.interfaces)
    (fields : Counted (Field.Storable d.pool) d.fields)
    (inside : ListFront (Method.Declaration.Valid d.pool) Method.Declaration.written
      (Method.Front d.pool) place front) :
    Front d.pool place (d.upToMethods ++ front)
  | attributes {d : Declaration} {front : List UInt8} {place : Place}
    (constants : ConstantPool.EncodedAs d.constants d.spelled)
    (interfaces : Counted (fun _ => True) d.interfaces)
    (fields : Counted (Field.Storable d.pool) d.fields)
    (methods : Counted (Method.Declaration.Valid d.pool) d.methods)
    (inside : ListFront (Attribute.Storable d.pool) Attribute.stored (Attribute.Front d.pool) place
      front) :
    Front d.pool place (d.upToAttributes ++ front)

/-! ## What a scan is about to do at a place

  A scan that has come to a place awaits what stands there.  If that is taken as it is, whether
  the rest of the scan fails does not depend on it, but the value does; the values that come of it
  are related. -/

namespace Scan

variable {α β : Type} {pool : ConstantPool} {related : α → α → Prop} {related' : β → β → Prop}
  {place : Place} {p : Nat} {front first : List UInt8} {scan : Scan ReadError α}
  {next : α → Scan ReadError β}

/-- The scan reads what stands at a place; and if that is taken as it is, then whatever it was, what
    comes of it is related. -/
inductive Awaits (pool : ConstantPool) (related : α → α → Prop) : Place → Scan ReadError α → Prop
  | name {next : UInt16 → String → Scan ReadError α} :
    Awaits pool related .name
      (liftM u16 >>= fun index => resolve (pool.utf8 index) >>= fun text => next index text)
  | index {next : UInt16 → Scan ReadError α} (alike : ∀ i j, Alike related (next i) (next j)) :
    Awaits pool related .index (liftM u16 >>= next)
  | content {name : String} {length : Nat} {next : List UInt8 → Scan ReadError α}
    (alike : ∀ x y, Alike related (next x) (next y)) :
    Awaits pool related (.content name length) (liftM (Scan.bytes length) >>= next)
  | code {declared : Nat} {next : Code → Scan ReadError α} :
    Awaits pool related (.code declared) (Code.scan pool declared >>= next)

/-- Behind what is awaited, scans that cannot tell related values apart end alike. -/
theorem Awaits.bind (h : Awaits pool related place scan)
    (hnext : ∀ a b, related a b → Alike related' (next a) (next b)) :
    Awaits pool related' place (scan >>= next) := by
  cases h with
  | name =>
    simp only [bind_assoc]
    exact .name
  | index alike =>
    rw [bind_assoc]
    exact .index fun i j => (alike i j).bind hnext
  | content alike =>
    rw [bind_assoc]
    exact .content fun x y => (alike x y).bind hnext
  | code =>
    rw [bind_assoc]
    exact .code

/-- Two lists that differ in one item. -/
def DifferAt (related : α → α → Prop) (as bs : List α) : Prop :=
  ∃ before a b after, related a b ∧ as = before ++ a :: after ∧ bs = before ++ b :: after

/-- Behind the bytes `front` the scan has come to a place. -/
def Leads (scan : Scan ReadError α) (pool : ConstantPool) (related : α → α → Prop) (place : Place)
    (p : Nat) (front : List UInt8) : Prop :=
  ∃ left, scan.Resumes p front left ∧ Awaits pool related place left

namespace Leads

/-- A scan gets to a place at once if that is where it starts. -/
theorem here (h : Awaits pool related place scan) (p : Nat) :
    scan.Leads pool related place p [] := ⟨scan, .refl scan p, h⟩

/-- What follows a place does not look at what stands there. -/
theorem bind (h : scan.Leads pool related place p front)
    (hnext : ∀ a b, related a b → Alike related' (next a) (next b)) :
    (scan >>= next).Leads pool related' place p front := by
  obtain ⟨left, hr, ha⟩ := h
  exact ⟨left >>= next, hr.bind, ha.bind hnext⟩

/-- A place is led up to by what is accepted in front of it. -/
theorem behind {a : α} (h : scan.Accepts p first a)
    (hnext : (next a).Leads pool related' place (p + first.length) front) :
    (scan >>= next).Leads pool related' place p (first ++ front) := by
  obtain ⟨left, hr, ha⟩ := hnext
  exact ⟨left, h.resumes.trans hr, ha⟩

/-- A place may be right behind what is accepted. -/
theorem last {a : α} (h : scan.Accepts p first a)
    (hnext : (next a).Leads pool related' place (p + first.length) []) :
    (scan >>= next).Leads pool related' place p first := by
  have hleads := behind h hnext
  rwa [List.append_nil] at hleads

theorem u16 {next : UInt16 → Scan ReadError β} {v : UInt16}
    (h : (next v).Leads pool related' place (p + 2) front) :
    (liftM u16 >>= next).Leads pool related' place p (BigEndian.bytes 2 v.toNat ++ front) := by
  refine behind (accepts_lift_u16 v p) ?_
  rwa [BigEndian.length_bytes]

theorem u32 {next : UInt32 → Scan ReadError β} {n : Nat} (hn : n < 0x100000000)
    (h : (next (UInt32.ofNat n)).Leads pool related' place (p + 4) front) :
    (liftM u32 >>= next).Leads pool related' place p (BigEndian.bytes 4 n ++ front) := by
  have hvalue : (UInt32.ofNat n).toNat = n := UInt32.toNat_ofNat_of_lt' hn
  refine behind (accepts_lift.mpr (accepts_u32.mpr (by rw [hvalue]))) ?_
  rwa [BigEndian.length_bytes]

/-- On the way to a place, a check holds. -/
theorem require {condition : Prop} [Decidable condition] {failure : ReadError}
    {next : Unit → Scan ReadError β} (hc : condition)
    (h : (next ()).Leads pool related' place p front) :
    (require condition failure >>= next).Leads pool related' place p front := by
  rw [Scan.require, if_pos hc]
  exact h

/-- On the way to a place, a reference leads somewhere. -/
theorem resolve {result : Except ReferenceError α} {a : α} (hr : result = .ok a)
    (h : (next a).Leads pool related' place p front) :
    (resolve result >>= next).Leads pool related' place p front := by
  subst hr
  exact h

/-- A list leads up to the places of its items. -/
theorem counted {Valid : β → Prop} {written : β → List UInt8} {value : β → α}
    {Item : Place → List UInt8 → Prop} (hreads : scan.Reads Valid written value)
    (hitem : ∀ p front, Item place front → scan.Leads pool related place p front)
    (h : ListFront Valid written Item place front) :
    (counted (liftM Scan.u16) scan).Leads pool (DifferAt related) place p front := by
  cases h with
  | @intro count before front room each inside =>
    -- the items in front of the one with the place are passed
    refine u16 ?_
    have hall : scan.AcceptsAll (p + 2) (before.flatMap written) (before.map value) :=
      hreads.all.mpr ⟨before, each, rfl, rfl⟩
    have hroom : (before.map value).length < count.toNat := by rwa [List.length_map]
    -- what is read behind it cannot tell the related values apart
    have hafter : ∀ n a b, related a b → Alike (DifferAt related)
        (timesAfter scan (a :: ((before.map value).reverse ++ [])) n)
        (timesAfter scan (b :: ((before.map value).reverse ++ [])) n) := by
      intro n a b hab
      refine (Alike.timesAfter scan _ _ n).mono ?_
      rintro as bs ⟨new, rfl, rfl⟩
      refine ⟨before.map value, a, b, new, hab, ?_, ?_⟩
      · simp
      · simp
    obtain ⟨left, hr, ha⟩ := (hitem _ _ inside).bind (hafter _)
    exact ⟨left, (hall.resumes hroom []).trans hr, ha⟩

end Leads

end Scan

/-! ## From the attributes up

  For each part of a class file its scan is followed up to a place: past what is accepted in
  front, and into the part that the place is in. -/

variable {pool : ConstantPool} {place : Place} {front : List UInt8}

/-- Two attributes that have the name that is given with the place of a content. -/
def Place.Names (place : Place) (a b : Attribute) : Prop :=
  ∃ name length, place = .content name length ∧ a.name = name ∧ b.name = name

/-- A scan of an attribute gets to each place in front of its end. -/
theorem Attribute.leads_scan (h : Front pool place front) (p : Nat) :
    (scan pool).Leads pool place.Names place p front := by
  cases h with
  | name =>
    have hname : Awaits pool (fun _ _ => False) .name (scanHeader pool) := .name
    exact .here (hname.bind fun _ _ hfalse => hfalse.elim) p
  | @content nameIndex name length named =>
    have hheader : (scanHeader pool).Accepts p _ ⟨nameIndex, name, length.toNat⟩ :=
      accepts_scanHeader.mpr ⟨named, length.toNat_lt, rfl⟩
    exact .last hheader (.here (.content fun x y => .pure ⟨name, length.toNat, rfl, rfl, rfl⟩) _)

/-- So does one of an exception handler. -/
theorem ExceptionHandler.leads_scan (h : Front place front) (p : Nat) :
    (liftM ExceptionHandler.scan : Scan ReadError _).Leads pool (fun _ _ => True) place p
      front := by
  cases h with
  | catchType =>
    simp only [ExceptionHandler.scan, lift_bind, lift_pure]
    refine .u16 (.u16 (.last (accepts_lift_u16 _ _) ?_))
    exact .here (.index fun i j => .pure trivial) _

namespace Code

/-- Line numbers are not changed by another content of an attribute that is not called so. -/
theorem linesOf_eq_of_differAt {as bs : List Attribute}
    (h : DifferAt (fun a b => a.name ≠ "LineNumberTable" ∧ b.name ≠ "LineNumberTable") as bs) :
    linesOf as = linesOf bs := by
  obtain ⟨before, a, b, after, ⟨ha, hb⟩, rfl, rfl⟩ := h
  have hfind : ∀ c : Attribute, c.name ≠ "LineNumberTable" →
      Attribute.named? (before ++ c :: after) "LineNumberTable" =
        Attribute.named? (before ++ after) "LineNumberTable" := by
    intro c hc
    unfold Attribute.named?
    rw [List.find?_append, List.find?_append, List.find?_cons_of_neg (by simpa using hc)]
  unfold linesOf
  rw [hfind a ha, hfind b hb]

/-- Code with the same line numbers is compared alike. -/
theorem alike_checkBody (start declared : Nat) {a b : Code}
    (h : linesOf a.attributes = linesOf b.attributes) :
    Alike (fun _ _ => True) (checkBody start declared a) (checkBody start declared b) := by
  unfold checkBody
  rw [h]
  exact .behind _ fun lines => .behind _ fun stop => .behind _ fun _ => .pure trivial

/-- Having passed the code array, the scan has come to the lists behind it. -/
theorem leads_lists {maxStack maxLocals : UInt16} {array : List UInt8}
    (array_pos : 0 < array.length) (array_le : array.length ≤ 65535) {related : Code → Code → Prop}
    {p : Nat}
    (h : ∀ p, (counted (liftM u16) (liftM ExceptionHandler.scan) >>= fun handlers =>
      Attribute.scanAll pool >>= fun attributes =>
        (pure ⟨maxStack, maxLocals, array, handlers, attributes, none⟩ : Scan ReadError Code)).Leads
          pool related place p front) :
    (scanBody pool).Leads pool related place p (bytes 2 maxStack.toNat ++
      (bytes 2 maxLocals.toNat ++ (bytes 4 array.length ++ (array ++ front)))) := by
  have hlength : (UInt32.ofNat array.length).toNat = array.length :=
    UInt32.toNat_ofNat_of_lt' (show _ < 0x100000000 by omega)
  refine .u16 (.u16 (.u32 (by omega) ?_))
  rw [hlength]
  refine .require ⟨array_pos, array_le⟩ ?_
  exact .behind (accepts_lift.mpr (accepts_bytes.mpr ⟨rfl, rfl⟩)) (h _)

/-- So does one of a code, up to its lines. -/
theorem leads_scanBody (h : Front pool place front) (p : Nat) :
    (scanBody pool).Leads pool (fun a b => linesOf a.attributes = linesOf b.attributes) place p
      front := by
  cases h with
  -- the lists behind the handlers are read as before, and the attributes are the same
  | handler array_pos array_le inside =>
    refine leads_lists array_pos array_le fun p => ?_
    exact (Leads.counted ExceptionHandler.reads_scan
      (fun p _ hfront => ExceptionHandler.leads_scan hfront p) inside).bind
        fun _ _ _ => .behind _ fun _ => .pure rfl
  | attributes array_pos array_le each inside other =>
    refine leads_lists array_pos array_le fun p => ?_
    refine .behind ((accepts_counted_iff ExceptionHandler.reads_scan
      incremental_handler.lift).mpr ⟨each, rfl⟩) ?_
    refine (Leads.counted Attribute.reads_scan
      (fun p _ hfront => Attribute.leads_scan hfront p) inside).bind ?_
    -- an attribute that differs is no line number table, so it has no lines
    rintro _ _ ⟨before, a, b, after, ⟨name, length, hplace, ha, hb⟩, rfl, rfl⟩
    -- only its content can differ, and the place is no content of a table of that name
    have hother : name ≠ "LineNumberTable" := by
      rintro rfl
      exact other length hplace
    exact .pure (linesOf_eq_of_differAt
      ⟨before, a, b, after, ⟨ha ▸ hother, hb ▸ hother⟩, rfl, rfl⟩)

theorem leads_scan (h : Front pool place front) (declared p : Nat) :
    (scan pool declared).Leads pool (fun _ _ => True) place p front := by
  rw [scan_eq]
  exact (leads_scanBody h p).bind fun a b hab => alike_checkBody p declared hab

end Code

/-- An attribute of a method is code or not as its name says, and the scan gets to places in
    either. -/
theorem Method.leads_scanPart (h : Item.Front pool place front) (p : Nat) :
    (scanPart pool).Leads pool (fun _ _ => True) place p front := by
  have hheader : ∀ {nameIndex : UInt16} {name : String} (length : UInt32),
      pool.utf8 nameIndex = .ok name → (Attribute.scanHeader pool).Accepts p
        (bytes 2 nameIndex.toNat ++ bytes 4 length.toNat) ⟨nameIndex, name, length.toNat⟩ :=
    fun length named => Attribute.accepts_scanHeader.mpr ⟨named, length.toNat_lt, rfl⟩
  cases h with
  -- at the name itself, nothing related is read
  | name =>
    have hname : Awaits pool (fun _ _ => False) .name (Attribute.scanHeader pool) := .name
    exact .here (hname.bind fun _ _ hfalse => hfalse.elim) p
  | @content nameIndex name length named other =>
    refine .last (hheader length named) ?_
    rw [if_neg other]
    have hcontent : Awaits pool (fun _ _ => True) (.content name length.toNat)
        (Attribute.scanContent ⟨nameIndex, name, length.toNat⟩) := .content fun _ _ => .pure trivial
    exact .here (hcontent.bind fun _ _ _ => .pure trivial) _
  | @code nameIndex length named =>
    refine .last (hheader length named) ?_
    rw [if_pos rfl]
    exact .here .code _
  | @inside nameIndex length _ _ named inside =>
    refine .behind (hheader length named) ?_
    rw [if_pos rfl]
    exact (Code.leads_scan inside _ _).bind fun _ _ _ => .pure trivial

/-- Fields and methods are read alike, up to what their attributes are read as. -/
theorem leads_member {α γ : Type} {list : Scan ReadError γ} {related : γ → γ → Prop}
    {make : UInt16 → UInt16 → String → UInt16 → String → γ → α}
    {Attributes : Place → List UInt8 → Prop}
    (hlist : ∀ p front, Attributes place front → list.Leads pool related place p front)
    (h : MemberFront pool Attributes place front) (p : Nat) :
    (do
      let accessFlags ← u16
      let nameIndex ← u16
      let name ← resolve (pool.utf8 nameIndex)
      let descriptorIndex ← u16
      let descriptor ← resolve (pool.utf8 descriptorIndex)
      let items ← list
      return make accessFlags nameIndex name descriptorIndex descriptor items :
        Scan ReadError α).Leads pool (fun _ _ => True) place p front := by
  cases h with
  | name => exact .last (accepts_lift_u16 _ p) (.here .name _)
  | descriptor named => exact .u16 (.last (accepts_lift_u16 _ _) (.resolve named (.here .name _)))
  | attributes named described inside =>
    exact .u16 (.u16 (.resolve named (.u16 (.resolve described
      ((hlist _ _ inside).bind fun _ _ _ => .pure trivial)))))

theorem Field.leads_scan (h : Front pool place front) (p : Nat) :
    (scan pool).Leads pool (fun _ _ => True) place p front :=
  leads_member (fun _ _ => .counted Attribute.reads_scan
    fun p _ hfront => Attribute.leads_scan hfront p) h p

theorem Method.leads_scan (h : Front pool place front) (p : Nat) :
    (scan pool).Leads pool (fun _ _ => True) place p front :=
  leads_member (fun _ _ => .counted (reads_scanPart pool)
    fun p _ hfront => leads_scanPart hfront p) h p

namespace ClassFile

/-- Behind its constants a class file leads on to its flags. -/
theorem leads_head {d : Declaration} (constants : ConstantPool.EncodedAs d.constants d.spelled)
    {next : UInt16 → UInt16 → ConstantPool → Scan ReadError ClassFile}
    (h : ∀ p, (next d.version.minor d.version.major d.pool).Leads d.pool (fun _ _ => True) place p
      front) :
    (do
      let found ← u32
      require (found = magic) (.notAClassFile found)
      let minor ← u16
      let major ← u16
      let constants ← ConstantPool.scan
      next minor major constants : Scan ReadError ClassFile).Leads d.pool (fun _ _ => True) place 0
        (d.head ++ front) := by
  simp only [Declaration.head, List.append_assoc]
  refine .u32 (by decide) (.require rfl (.u16 (.u16 ?_)))
  exact .behind (ConstantPool.accepts_scan.mpr ⟨d.constants, constants, rfl⟩) (h _)

theorem leads_index (h : IndexFront place front) (p : Nat) :
    (liftM u16 : Scan ReadError UInt16).Leads pool (fun _ _ => True) place p front := by
  cases h with
  | here =>
    rw [← bind_pure (liftM u16 : Scan ReadError UInt16)]
    exact .here (.index fun _ _ => .pure trivial) p

/-- Behind bytes that lead up to a place, reading a class file has come to that place. -/
theorem leads_scan (h : Front pool place front) :
    scan.Leads pool (fun _ _ => True) place 0 front := by
  have hinterfaces : ∀ {is : List UInt16} (p : Nat), Counted (fun _ => True) is →
      (counted (liftM u16) (liftM u16) : Scan ReadError _).Accepts p
        (storedList (bytes 2 ·.toNat) is) is :=
    fun p h => (accepts_counted_iff reads_u16 incremental_u16.lift).mpr ⟨h, rfl⟩
  have hfields : ∀ {pool : ConstantPool} {fs : List Field} (p : Nat),
      Counted (Field.Storable pool) fs →
      (counted (liftM u16) (Field.scan pool)).Accepts p (storedList Field.stored fs) fs :=
    fun p h => (accepts_counted_iff (Field.reads_scan _) (incremental_field _)).mpr ⟨h, rfl⟩
  have hmethods : ∀ {pool : ConstantPool} {ds : List Method.Declaration} (p : Nat),
      Counted (Method.Declaration.Valid pool) ds →
      (counted (liftM u16) (Method.scan pool)).Accepts p
        (storedList Method.Declaration.written ds) (ds.map Method.Declaration.method) :=
    fun p h => ((Method.reads_scan _).counted (incremental_method _) _ _ _).mpr ⟨_, h, rfl, rfl⟩
  cases h with
  -- of what follows the class itself, nothing looks at its index
  | thisClass constants =>
    refine leads_head constants fun p => .last (accepts_lift_u16 _ p) ?_
    exact .here (.index fun _ _ => .behind _ fun _ => .behind _ fun _ => .behind _ fun _ =>
      .behind _ fun _ => .behind _ fun _ => .pure trivial) _
  | superClass constants =>
    rw [List.append_assoc]
    refine leads_head constants fun p =>
      .u16 (.last (accepts_lift_u16 _ _) ?_)
    exact .here (.index fun _ _ => .behind _ fun _ => .behind _ fun _ =>
      .behind _ fun _ => .behind _ fun _ => .pure trivial) _
  | interface constants inside =>
    simp only [Declaration.upToInterfaces, List.append_assoc]
    refine leads_head constants fun p => .u16 (.u16 (.u16 ?_))
    exact (Leads.counted reads_u16 (fun p _ hfront => leads_index hfront p) inside).bind
      fun _ _ _ => .behind _ fun _ => .behind _ fun _ => .behind _ fun _ => .pure trivial
  -- interfaces are passed in front of the field
  | field constants interfaces inside =>
    simp only [Declaration.upToFields, Declaration.upToInterfaces, List.append_assoc]
    refine leads_head constants fun p => .u16 (.u16 (.u16 (.behind (hinterfaces _ interfaces) ?_)))
    exact (Leads.counted (Field.reads_scan _) (fun p _ hfront => Field.leads_scan hfront p)
      inside).bind fun _ _ _ => .behind _ fun _ => .behind _ fun _ => .pure trivial
  -- interfaces and fields are passed in front of the method
  | method constants interfaces fields inside =>
    simp only [Declaration.upToMethods, Declaration.upToFields, Declaration.upToInterfaces,
      List.append_assoc]
    refine leads_head constants fun p => .u16 (.u16 (.u16 (.behind (hinterfaces _ interfaces)
      (.behind (hfields _ fields) ?_))))
    exact (Leads.counted (Method.reads_scan _) (fun p _ hfront => Method.leads_scan hfront p)
      inside).bind fun _ _ _ => .behind _ fun _ => .pure trivial
  -- all lists of members are passed in front of the attributes
  | attributes constants interfaces fields methods inside =>
    simp only [Declaration.upToAttributes, Declaration.upToMethods, Declaration.upToFields,
      Declaration.upToInterfaces, List.append_assoc]
    refine leads_head constants fun p => .u16 (.u16 (.u16 (.behind (hinterfaces _ interfaces)
      (.behind (hfields _ fields) (.behind (hmethods _ methods) ?_)))))
    exact (Leads.counted Attribute.reads_scan (fun p _ hfront => Attribute.leads_scan hfront p)
      inside).bind fun _ _ _ => .pure trivial

end ClassFile

end JavaClass
