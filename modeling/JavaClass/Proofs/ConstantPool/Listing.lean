/-
  Constants as text, and what the listing of a pool shows.

  The text of a constant and the projections follow references independently of each other.  They
  fail alike: in either, the first of the references of a constant that fails decides
  (`failure?_constantText`), so a constant has a text exactly if everything that can be reached from
  it is of the kind that is wanted (`exists_text_iff`), and then the text is that of what the
  projections yield (`text_eq_reading`).

  The listing has an item for each index that leads to a constant, in order, and no item is missing
  for a reference that cannot be followed: the item says so instead (`Shows`).
-/
import JavaClass.ConstantPool.Listing
import JavaClass.Proofs.ConstantPool.Projection
import JavaClass.Proofs.Text.Lines
import JavaClass.Proofs.Text.Tokens
import Mathlib.Logic.Relation

namespace JavaClass.ConstantPool

open Relation (ReflTransGen)

/-! ## References that are in order -/

/-- The constant at the first index refers to the second. -/
def RefersTo (pool : ConstantPool) (index index' : UInt16) : Prop :=
  ∃ c r, pool.get index = .ok c ∧ (r, index') ∈ references c

/-- The references of the constant at an index lead to constants of the kinds that are wanted. -/
def RefersWell (pool : ConstantPool) (index : UInt16) : Prop :=
  ∀ c, pool.get index = .ok c → ∀ p ∈ references c,
    ∃ c', pool.get p.2 = .ok c' ∧ p.1.accepts c'.tag = true

/-- And so do those of all constants that can be reached from it. -/
def WellReferenced (pool : ConstantPool) (index : UInt16) : Prop :=
  ∀ index', ReflTransGen pool.RefersTo index index' → pool.RefersWell index'

section
variable {pool : ConstantPool} {index : UInt16} {c : Constant}

theorem wellReferenced_iff (found : pool.get index = .ok c) :
    pool.WellReferenced index ↔ ∀ p ∈ references c,
      (∃ c', pool.get p.2 = .ok c' ∧ p.1.accepts c'.tag = true) ∧ pool.WellReferenced p.2 := by
  constructor
  · intro h p hp
    refine ⟨h index .refl c found p hp, fun index' hreach => h index' ?_⟩
    exact .head ⟨c, p.1, found, hp⟩ hreach
  · intro h index' hreach
    rcases ReflTransGen.cases_head_iff.mp hreach with rfl | ⟨next, ⟨c', r, hget, hr⟩, hrest⟩
    · intro c' hget p hp
      obtain rfl := Except.ok.inj (found.symm.trans hget)
      exact (h p hp).1
    · obtain rfl := Except.ok.inj (found.symm.trans hget)
      exact (h _ hr).2 index' hrest

theorem failureOf?_eq_none : pool.failureOf? c = none ↔
    ∀ p ∈ references c, ∃ v, pool.project p.1 p.2 = .ok v := by
  simp only [failureOf?, List.findSome?_eq_none_iff, failure?_eq_none]

/-- A projection yields a value exactly if the constant will do and all that can be reached from it
    is in order. -/
theorem exists_project_iff (pool : ConstantPool) (r : Projection) (index : UInt16) :
    (∃ v, pool.project r index = .ok v) ↔
      (∃ c, pool.get index = .ok c ∧ r.accepts c.tag = true) ∧ pool.WellReferenced index := by
  rcases pool.get_cases index with ⟨c, found⟩ | absent
  · cases kind : r.accepts c.tag with
    | false =>
      refine iff_of_false ?_ ?_
      · rintro ⟨v, hv⟩
        exact nomatch hv.symm.trans (project_of_other found kind)
      · rintro ⟨⟨c', hget, hkind⟩, -⟩
        obtain rfl := Except.ok.inj (found.symm.trans hget)
        exact nomatch kind.symm.trans hkind
    | true =>
      -- what it refers to is projected less deeply, so the statement is there for that
      have hreferences : ∀ p ∈ references c, (∃ v, pool.project p.1 p.2 = .ok v) ↔
          (∃ c', pool.get p.2 = .ok c' ∧ p.1.accepts c'.tag = true) ∧
            pool.WellReferenced p.2 := by
        intro p hp
        have hdepth : Projection.depth p.1.expected < Projection.depth r.expected := by
          rw [← Projection.depth_of_accepts kind]
          exact depth_lt_of_mem_references hp
        exact exists_project_iff pool p.1 p.2
      rw [← failure?_eq_none, failure?_project_of_found found kind, failureOf?_eq_none,
        forall₂_congr hreferences, ← wellReferenced_iff found, and_iff_right ⟨c, found, kind⟩]
  · refine iff_of_false ?_ ?_
    · rintro ⟨v, hv⟩
      exact nomatch hv.symm.trans (project_of_absent absent)
    · rintro ⟨⟨c, hget, -⟩, -⟩
      exact nomatch hget.symm.trans absent
termination_by Projection.depth r.expected

/-! ## Texts

  The text of a constant is made of what its references lead to.  It fails as the first of these
  does, and says the same as the projections, each of which is made of the same look-ups. -/

/-- A text fails as its references do. -/
theorem failure?_constantText (pool : ConstantPool) (c : Constant) :
    failure? (pool.constantText c) = pool.failureOf? c := by
  cases c with
  | utf8 | integer | float | long | double => rfl
  | classRef name => exact (failureOf?_one (c := .classRef name) rfl).symm
  | string value => exact (failureOf?_one (c := .string value) rfl).symm
  | methodType descriptor => exact (failureOf?_one (c := .methodType descriptor) rfl).symm
  | moduleRef name => exact (failureOf?_one (c := .moduleRef name) rfl).symm
  | packageRef name => exact (failureOf?_one (c := .packageRef name) rfl).symm
  | fieldRef | methodRef | interfaceMethodRef =>
    exact (failure?_map _ _).trans (failure?_member rfl)
  | nameAndType name descriptor => exact failure?_pair _ name descriptor
  | methodHandle kind member =>
    exact (failure?_map _ _).trans (failureOf?_one (c := .methodHandle kind member) rfl).symm
  | dynamic bootstrap nameAndType =>
    exact (failure?_map _ _).trans (failureOf?_one (c := .dynamic bootstrap nameAndType) rfl).symm
  | invokeDynamic bootstrap nameAndType =>
    exact (failure?_map _ _).trans
      (failureOf?_one (c := .invokeDynamic bootstrap nameAndType) rfl).symm

theorem text_of_found (found : pool.get index = .ok c) :
    pool.text index = pool.constantText c := by
  rw [text, found]
  rfl

theorem text_of_absent {e : ReferenceError} (absent : pool.get index = .error e) :
    pool.text index = .error e := by
  rw [text, absent]
  rfl

/-- There is a text exactly if there is a constant, and all that can be reached from it is in
    order. -/
theorem exists_text_iff : (∃ text, pool.text index = .ok text) ↔
    (∃ c, pool.get index = .ok c) ∧ pool.WellReferenced index := by
  -- there is a constant, or the index is out of range and there is nothing to be read
  rcases pool.get_cases index with ⟨c, found⟩ | absent
  · rw [text_of_found found, ← failure?_eq_none, failure?_constantText, failureOf?_eq_none,
      wellReferenced_iff found, and_iff_right ⟨c, found⟩]
    exact forall₂_congr fun p _ => exists_project_iff pool p.1 p.2
  · refine iff_of_false ?_ ?_
    · rintro ⟨text, htext⟩
      exact nomatch htext.symm.trans (text_of_absent absent)
    · rintro ⟨⟨c, hget⟩, -⟩
      exact nomatch hget.symm.trans absent

/-- The text of a constant at an index, in terms of what the projections yield. -/
def reading (pool : ConstantPool) (index : UInt16) : Constant → Except ReferenceError String
  | .utf8 _ => pool.utf8 index
  | .integer value => .ok (toString value.toInt)
  | .float bits => .ok (Decimal.singleText bits)
  | .long value => .ok (toString value.toInt)
  | .double bits => .ok (Decimal.doubleText bits)
  | .classRef _ => pool.className index
  | .string _ => pool.string index
  | .fieldRef _ _ => (pool.fieldReference index).map MemberReference.text
  | .methodRef _ _ => (pool.methodReference index).map MemberReference.text
  | .interfaceMethodRef _ _ => (pool.interfaceMethodReference index).map MemberReference.text
  | .nameAndType _ _ => (pool.nameAndType index).map NameAndType.text
  | .methodHandle kind member =>
    (pool.anyMember member).map fun m => toString kind ++ ":" ++ m.text
  | .methodType name | .moduleRef name | .packageRef name => pool.utf8 name
  | .dynamic bootstrap nameAndType | .invokeDynamic bootstrap nameAndType =>
    (pool.nameAndType nameAndType).map fun n => "#" ++ toString bootstrap ++ ":" ++ n.text

theorem text_eq_reading (found : pool.get index = .ok c) :
    pool.text index = pool.reading index c := by
  rw [text_of_found found]
  cases c with
  | integer | float | long | double | methodType | moduleRef | packageRef => rfl
  | utf8 => exact (utf8_of_get found).symm
  | classRef => exact (className_of_get found).symm
  | string => exact (string_of_get found).symm
  | fieldRef =>
    exact (bind_pure_comp _ _).trans (congrArg _ (fieldReference_of_get found).symm)
  | methodRef =>
    exact (bind_pure_comp _ _).trans (congrArg _ (methodReference_of_get found).symm)
  | interfaceMethodRef =>
    exact (bind_pure_comp _ _).trans (congrArg _ (interfaceMethodReference_of_get found).symm)
  | nameAndType name descriptor =>
    rw [reading, nameAndType_of_get found, constantText]
    cases pool.utf8 name with
    | error e => rfl
    | ok nameText => cases pool.utf8 descriptor <;> rfl
  | methodHandle | dynamic | invokeDynamic => exact bind_pure_comp _ _

/-! ## The listing

  A line of the listing has a constant that refers to others by its indexes, which are there even
  if they lead nowhere; only the text behind them may be missing. -/

/-- What the listing puts behind a value to tell its type. -/
def typeMark : Constant → String
  | .float _ => "f"
  | .long _ => "l"
  | .double _ => "d"
  | _ => ""

/-- What the listing shows of the constant at an index: a value as it is, and a constant that refers
    to others by its indexes, with its text behind them or a mark that there is none. -/
inductive Shows (pool : ConstantPool) (index : UInt16) (c : Constant) : String → Prop
  | value {text : String} (literal : isLiteral c = true) (reads : pool.text index = .ok text) :
    Shows pool index c (text ++ typeMark c)
  | resolved {text : String} (refers : isLiteral c = false) (reads : pool.text index = .ok text) :
    Shows pool index c (operandsText c ++ " // " ++ text)
  | invalid {e : ReferenceError} (refers : isLiteral c = false)
    (fails : pool.text index = .error e) :
    Shows pool index c (operandsText c ++ " // " ++ "<invalid>")

theorem shows_itemText (found : pool.get index = .ok c) :
    pool.Shows index c (pool.itemText c) := by
  have htext := text_of_found found
  unfold itemText
  -- a value is its own text; any other constant is shown by its operands
  cases hliteral : isLiteral c with
  | true =>
    rw [if_pos rfl]
    cases c with
    | utf8 | integer =>
      rw [← String.append_empty (s := operandsText _)]
      exact .value hliteral htext
    | float | long | double => exact .value hliteral htext
    | _ => nomatch hliteral
  | false =>
    rw [if_neg Bool.false_ne_true]
    cases hmeaning : pool.constantText c with
    | ok text => exact .resolved hliteral (htext.trans hmeaning)
    | error e => exact .invalid hliteral (htext.trans hmeaning)

end

/-- The line of an item. -/
def lineText (index : UInt16) (c : Constant) (item : String) : String :=
  "  " ++ alignRight 5 ("#" ++ toString index) ++ " = " ++ alignLeft 18 c.tag.name ++ " " ++ item

/-- The listing is a heading and a line for each entry. -/
theorem listing_eq (pool : ConstantPool) : pool.listing =
    ofLines (("Constant pool: (size: " ++ toString pool.size ++ ")") ::
      pool.entries.map fun entry => lineText entry.1 entry.2 (pool.itemText entry.2)) := by
  have hheading : "Constant pool: (size: " ++ toString pool.size ++ ")\n" =
      "Constant pool: (size: " ++ toString pool.size ++ ")" ++ "\n" :=
    (@String.append_assoc _ ")" "\n").symm
  have hlines : pool.listing = "Constant pool: (size: " ++ toString pool.size ++ ")\n" ++
      ofLines (pool.entries.map fun entry => lineText entry.1 entry.2 (pool.itemText entry.2)) :=
    foldl_ofLines (fun _ _ => rfl) _ _
  rw [hlines, hheading, ofLines]

/-! ## Operands

  The operands of a constant are shown as numbers with marks in between, and a mark is not a
  digit.  So they can be read back. -/

theorem index_inj {m n : UInt16} (h : "#" ++ toString m = "#" ++ toString n) : m = n :=
  UInt16.toNat_inj.mp (Text.nat_inj ((String.append_right_inj "#").mp h))

/-- Two numbers are told from their texts if what stands between them begins with no digit. -/
theorem numbers_inj (mid : String) {sep : Char} (hdigit : sep.isDigit = false)
    (hmid : mid.toList.head? = some sep) {m n m' n' : Nat}
    (h : toString m ++ (mid ++ toString n) = toString m' ++ (mid ++ toString n')) :
    m = m' ∧ n = n' := by
  obtain ⟨hm, hn⟩ := Text.token_inj (Text.lacks_nat hdigit m) (Text.lacks_nat hdigit m')
    (Text.parted_append hmid) (Text.parted_append hmid) h
  exact ⟨Text.nat_inj hm, Text.nat_inj ((String.append_right_inj mid).mp hn)⟩

theorem indexes_inj (mid : String) {sep : Char} (hdigit : sep.isDigit = false)
    (hmid : mid.toList.head? = some sep) {m n m' n' : UInt16}
    (h : "#" ++ toString m ++ mid ++ toString n = "#" ++ toString m' ++ mid ++ toString n') :
    m = m' ∧ n = n' := by
  rw [String.append_assoc, String.append_assoc, String.append_assoc, String.append_assoc,
    String.append_right_inj] at h
  obtain ⟨hm, hn⟩ := numbers_inj mid hdigit hmid h
  exact ⟨UInt16.toNat_inj.mp hm, UInt16.toNat_inj.mp hn⟩

/-- The operands that are shown tell a constant from the others of its kind. -/
theorem operandsText_inj {c c' : Constant} (hliteral : isLiteral c = false) (htag : c.tag = c'.tag)
    (h : operandsText c = operandsText c') : c = c' := by
  -- the kinds are the same, so one constructor is compared with itself
  cases c with
  | utf8 | integer | float | long | double => nomatch hliteral
  | classRef | string | methodType | moduleRef | packageRef =>
    cases c' <;> cases htag
    rw [index_inj h]
  | fieldRef | methodRef | interfaceMethodRef =>
    cases c' <;> cases htag
    obtain ⟨rfl, rfl⟩ := indexes_inj ".#" rfl rfl h
    rfl
  | nameAndType | dynamic | invokeDynamic =>
    cases c' <;> cases htag
    obtain ⟨rfl, rfl⟩ := indexes_inj ":#" rfl rfl h
    rfl
  | methodHandle kind member =>
    cases c' <;> cases htag
    have hnumbers := String.append_assoc.symm.trans (h.trans String.append_assoc)
    obtain ⟨hkind, hmember⟩ := numbers_inj ":#" rfl rfl hnumbers
    rw [UInt8.toNat_inj.mp hkind, UInt16.toNat_inj.mp hmember]

/-! ## Texts, projections and the listing -/

/-- The text of a constant and the listing of a pool agree with what the projections yield. -/
structure ReadsAsProjected (pool : ConstantPool) : Prop where
  /-- There is a text exactly if there is a constant and everything that can be reached from it is
      of the kind that is wanted. -/
  succeeds : ∀ index, (∃ text, pool.text index = .ok text) ↔
    (∃ c, pool.get index = .ok c) ∧ pool.WellReferenced index
  /-- The text is that of what the projections yield, and fails as they do. -/
  projected : ∀ index c, pool.get index = .ok c → pool.text index = pool.reading index c
  /-- What a method handle refers to is what the projection of its kind yields, and that of a method
      if it is of no such kind. -/
  member : ∀ index, pool.anyMember index = match pool.get index with
    | .ok (.fieldRef _ _) => pool.fieldReference index
    | .ok (.interfaceMethodRef _ _) => pool.interfaceMethodReference index
    | _ => pool.methodReference index
  /-- Where there is no constant, there is no text. -/
  absent : ∀ index e, pool.get index = .error e → pool.text index = .error e
  /-- The listing is made of a heading and an item for each entry. -/
  listed : pool.listing = ofLines (("Constant pool: (size: " ++ toString pool.size ++ ")") ::
    pool.entries.map fun entry => lineText entry.1 entry.2 (pool.itemText entry.2))
  /-- The entries of a pool that can be numbered in 16 bits are what the indexes lead to, in
      order. -/
  entries : pool.size ≤ 65535 →
    (∀ index c, (index, c) ∈ pool.entries ↔ pool.get index = .ok c) ∧
      pool.entries.Pairwise fun a b => a.1.toNat < b.1.toNat
  /-- The item shows the value of a constant, or its operands and its text. -/
  shows : ∀ index c, pool.get index = .ok c → pool.Shows index c (pool.itemText c)
  /-- The operands are shown in full. -/
  operands : ∀ c c', isLiteral c = false → c.tag = c'.tag → operandsText c = operandsText c' →
    c = c'

/-- **Texts and the listing say what the projections yield.** -/
theorem readsAsProjected_text (pool : ConstantPool) : pool.ReadsAsProjected where
  succeeds _ := exists_text_iff
  projected _ _ found := text_eq_reading found
  member := anyMember_eq pool
  absent _ _ absent := text_of_absent absent
  listed := listing_eq pool
  entries hsize := ⟨fun _ _ => mem_entries_iff hsize, entries_increasing hsize⟩
  shows _ _ found := shows_itemText found
  operands _ _ := operandsText_inj

/-- A pool with a handle of a field, and, behind the two slots of a long constant, a dynamic constant
    that has a class for its name and type. -/
def mixed : ConstantPool :=
  ofList [.utf8 "A", .classRef 1, .nameAndType 1 1, .fieldRef 2 3, .methodHandle 1 4, .long 5,
    .dynamic 7 2]

/-- The theorem at this pool: the handle reads as its field, and the dynamic constant keeps its place
    in the listing but is marked. -/
theorem readsAsProjected_text_mixed :
    mixed.text 5 = .ok "1:A.A:A" ∧ mixed.RefersWell 5 ∧
    mixed.text 8 = .error (.unexpectedTag 2 .nameAndType .classRef) ∧ ¬ mixed.WellReferenced 8 ∧
    (8, .dynamic 7 2) ∈ mixed.entries ∧
    mixed.Shows 8 (.dynamic 7 2) "#7:#2 // <invalid>" := by
  have h := readsAsProjected_text mixed
  have hhandle : mixed.text 5 = .ok "1:A.A:A" := (h.projected 5 (.methodHandle 1 4) rfl).trans rfl
  have hdynamic : mixed.text 8 = .error (.unexpectedTag 2 .nameAndType .classRef) :=
    (h.projected 8 (.dynamic 7 2) rfl).trans rfl
  obtain ⟨hentries, -⟩ := h.entries (show mixed.size ≤ 65535 by decide)
  refine ⟨hhandle, ((h.succeeds 5).mp ⟨_, hhandle⟩).2 5 .refl, hdynamic, ?_,
    (hentries 8 _).mpr rfl, h.shows 8 _ rfl⟩
  intro hwell
  obtain ⟨text, htext⟩ := (h.succeeds 8).mpr ⟨⟨_, rfl⟩, hwell⟩
  exact nomatch htext.symm.trans hdynamic

end JavaClass.ConstantPool
