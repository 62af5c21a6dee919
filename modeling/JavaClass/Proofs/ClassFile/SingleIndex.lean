/-
  Attributes that are a single index.

  The value of a constant field and the source file of a class are kept as attributes, and what
  they mean is looked up only when it is asked for.  Both are asked for in the same three steps
  (`Attribute.lookUp`): the first attribute of a name is found, its content is read as an index, and
  the index is followed.  They differ in the name, in what is said of a content that is no index,
  and in the last step.

  Each step can go wrong in its own way: there may be no attribute, its content may not be two
  bytes, and the index may lead to nothing, or to something else than what is wanted.  `ConstantAt`
  and `TextAt` say what an index leads to, one rule for each outcome, and `DecidedByFirst` says
  which outcome of which step is the outcome of all three.  The attributes behind the first have no
  part in it.
-/
import JavaClass.Proofs.ClassFile.Accepts
import JavaClass.Proofs.ConstantPool.Listing

namespace JavaClass

open BigEndian (bytes)

/-! ## The first attribute of a name

  The search by name stops at the first attribute of that name.  Being the first is said here by
  what stands in front, so that nothing has to be said of what stands behind. -/

/-- An attribute of a name that stands in front of all others of this name. -/
structure Attribute.IsFirst (attributes : List Attribute) (name : String) (holder : Attribute) :
    Prop where
  name_eq : holder.name = name
  /-- There may be others of the name behind it, but none before it. -/
  place : ∃ front back, attributes = front ++ holder :: back ∧ ∀ a ∈ front, a.name ≠ name

namespace Attribute

variable {attributes : List Attribute} {name : String} {holder : Attribute}

/-- What is found under a name is the first attribute of that name. -/
theorem named?_eq_some_iff :
    named? attributes name = some holder ↔ IsFirst attributes name holder := by
  rw [named?_eq_some]
  exact ⟨fun ⟨hname, hplace⟩ => ⟨hname, hplace⟩, fun h => ⟨h.name_eq, h.place⟩⟩

/-- A list without an attribute of a name has no first one, and every other list has. -/
theorem absent_or_isFirst (attributes : List Attribute) (name : String) :
    (∀ a ∈ attributes, a.name ≠ name) ∨ ∃ holder, IsFirst attributes name holder := by
  cases h : named? attributes name with
  | none => exact Or.inl (named?_eq_none.mp h)
  | some holder => exact Or.inr ⟨holder, named?_eq_some_iff.mp h⟩

/-- A single attribute is the first of its name. -/
theorem isFirst_singleton (h : holder.name = name) : IsFirst [holder] name holder :=
  ⟨h, [], [], rfl, List.forall_mem_nil _⟩

/-! ## Content as an index

  An index is two bytes, the higher first.  Any other number of bytes is no index, also if it is
  more. -/

/-- The content is an index exactly if it is the word of one, in two bytes. -/
theorem index?_eq_some {index : UInt16} :
    holder.index? = some index ↔ holder.content = bytes 2 index.toNat := by
  unfold index?
  -- two bytes are the word that they make; no other content is a word
  split
  · rename_i high low hcontent
    have hlt : BigEndian.value [high, low] < BigEndian.range 2 := BigEndian.value_lt [high, low]
    have hword : bytes 2 (BigEndian.value [high, low]) = [high, low] :=
      BigEndian.bytes_value [high, low]
    rw [hcontent, Option.some_inj]
    constructor
    · rintro rfl
      rw [UInt16.toNat_ofNat_of_lt' hlt, hword]
    · intro h
      have hvalue : BigEndian.value [high, low] = index.toNat :=
        (BigEndian.value_eq_iff.mpr ⟨index.toNat_lt, h⟩).2
      rw [hvalue, UInt16.ofNat_toNat]
  · rename_i hother
    constructor
    · intro h
      nomatch h
    · intro h
      exact absurd h (hother _ _)

/-- There is no index unless the content has two bytes. -/
theorem index?_eq_none : holder.index? = none ↔ holder.content.length ≠ 2 := by
  rw [ne_eq, List.length_eq_two]
  unfold index?
  -- the pattern of two bytes is all that an index can be
  split
  · rename_i high low hcontent
    constructor
    · intro h
      nomatch h
    · intro h
      exact absurd ⟨high, low, hcontent⟩ h
  · rename_i hother
    refine iff_of_true rfl ?_
    rintro ⟨high, low, hcontent⟩
    exact hother high low hcontent

/-! ## Looking up what an attribute refers to -/

section
variable {α : Type} {malformed : ReadError} {valueAt : UInt16 → Except ReadError α}

/-- What the index leads to that is the content of an attribute. -/
def follow (malformed : ReadError) (valueAt : UInt16 → Except ReadError α) (holder : Attribute) :
    Except ReadError α :=
  match holder.index? with
  | none => .error malformed
  | some index => valueAt index

/-- What the first attribute of a name refers to, if there is one. -/
def lookUp (name : String) (malformed : ReadError) (valueAt : UInt16 → Except ReadError α)
    (attributes : List Attribute) : Except ReadError (Option α) :=
  match named? attributes name with
  | none => return none
  | some holder => return some (← follow malformed valueAt holder)

/-- Either the content is no index, or what the index leads to decides. -/
theorem follow_eq_iff {result : Except ReadError α} : follow malformed valueAt holder = result ↔
    (holder.content.length ≠ 2 ∧ .error malformed = result) ∨
      ∃ index : UInt16, holder.content = bytes 2 index.toNat ∧ valueAt index = result := by
  simp only [← index?_eq_none, ← index?_eq_some]
  unfold follow
  cases holder.index? with
  | none => simp
  | some index => simp

/-- Without an attribute of the name there is nothing, which is no failure. -/
theorem lookUp_of_absent (h : ∀ a ∈ attributes, a.name ≠ name) :
    lookUp name malformed valueAt attributes = .ok none := by
  rw [lookUp, named?_eq_none.mpr h]
  rfl

/-- The first attribute of the name decides, and those behind it have no say. -/
theorem lookUp_of_isFirst (h : IsFirst attributes name holder) :
    lookUp name malformed valueAt attributes = (follow malformed valueAt holder).map some := by
  rw [lookUp, named?_eq_some_iff.mpr h]
  exact bind_pure_comp _ _

end

end Attribute

/-- The value of a field is looked up as a constant. -/
theorem Field.constantValue_eq (f : Field) (pool : ConstantPool) : f.constantValue pool =
    Attribute.lookUp "ConstantValue" (.malformed (.constantValue f.name)) (constantAt pool)
      f.attributes := by
  unfold constantValue Attribute.lookUp Attribute.follow
  cases Attribute.named? f.attributes "ConstantValue" with
  | none => rfl
  | some holder =>
    dsimp only
    cases holder.index? <;> rfl

/-- The source file of a class is looked up as a text. -/
theorem ClassFile.sourceFile_eq (c : ClassFile) : c.sourceFile =
    Attribute.lookUp "SourceFile" (.malformed .sourceFile)
      (fun index => (c.constants.utf8 index).mapError .reference) c.attributes := by
  unfold sourceFile Attribute.lookUp Attribute.follow
  cases Attribute.named? c.attributes "SourceFile" with
  | none => rfl
  | some holder =>
    dsimp only
    cases holder.index? <;> rfl

/-! ## What an index leads to

  `ConstantAt` has a rule for each kind of constant that can be a value, one for all the other
  kinds, and one for each way not to get to a constant.  There is a rule for every index, and a
  rule determines what is found; so the rules exclude each other without this being proved case by
  case. -/

/-- The kinds of constant that can give a field its value. -/
def Field.constantKinds : List Constant.Tag := [.integer, .float, .long, .double, .string]

namespace ConstantPool

/-- An index leads to the value of a field, or to why there is none. -/
inductive ConstantAt (pool : ConstantPool) (index : UInt16) : Except ReadError FieldConstant → Prop
  | int {value : Int32} (found : pool.get index = .ok (.integer value)) :
    ConstantAt pool index (.ok (.int value))
  | float {bits : UInt32} (found : pool.get index = .ok (.float bits)) :
    ConstantAt pool index (.ok (.float bits))
  | long {value : Int64} (found : pool.get index = .ok (.long value)) :
    ConstantAt pool index (.ok (.long value))
  | double {bits : UInt64} (found : pool.get index = .ok (.double bits)) :
    ConstantAt pool index (.ok (.double bits))
  | string {text : String} (resolves : pool.Resolves .string index text) :
    ConstantAt pool index (.ok (.string text))
  /-- There is a constant, but no field can have it for a value. -/
  | otherKind {c : Constant} (found : pool.get index = .ok c) (kind : c.tag ∉ Field.constantKinds) :
    ConstantAt pool index (.error (.malformed (.constantValueTag c.tag)))
  /-- There is a string, but its own reference leads to no text. -/
  | noText {value : UInt16} {e : ReferenceError} (found : pool.get index = .ok (.string value))
    (fails : pool.Fails .string index e) : ConstantAt pool index (.error (.reference e))
  | outOfRange (absent : pool.get index = .error (.outOfRange index)) :
    ConstantAt pool index (.error (.reference (.outOfRange index)))

/-- An index leads to a text, or to why there is none. -/
inductive TextAt (pool : ConstantPool) (index : UInt16) : Except ReadError String → Prop
  | text {text : String} (resolves : pool.Resolves .utf8 index text) :
    TextAt pool index (.ok text)
  | noText {e : ReferenceError} (fails : pool.Fails .utf8 index e) :
    TextAt pool index (.error (.reference e))

section
variable {pool : ConstantPool} {index : UInt16}

/-- The value of a constant is found as the rules say. -/
theorem constantAt_of_rule {result : Except ReadError FieldConstant}
    (h : pool.ConstantAt index result) : Field.constantAt pool index = result := by
  rw [Field.constantAt]
  cases h with
  | int found | float found | long found | double found =>
    rw [found]
    rfl
  -- the text is resolved through the same constant that was found to be a string
  | @string text resolves =>
    have htext : pool.string index = .ok text := project_of_resolves resolves
    cases resolves with
    | string found =>
      rw [found, htext]
      rfl
  | @otherKind c found kind =>
    rw [found]
    cases c with
    | integer | float | long | double | string => simp [Constant.tag, Field.constantKinds] at kind
    | _ => rfl
  | @noText value e found fails =>
    have hfails : pool.string index = .error e := project_of_fails fails
    rw [found, hfails]
    rfl
  | outOfRange absent =>
    rw [absent]
    rfl

/-- Every index leads somewhere. -/
theorem exists_constantAt (pool : ConstantPool) (index : UInt16) :
    ∃ result, pool.ConstantAt index result := by
  rcases pool.get_cases index with ⟨c, found⟩ | absent
  · cases c with
    | integer value => exact ⟨_, .int found⟩
    | float bits => exact ⟨_, .float found⟩
    | long value => exact ⟨_, .long found⟩
    | double bits => exact ⟨_, .double found⟩
    | string value =>
      rcases pool.resolves_or_fails .string index with ⟨text, resolves⟩ | ⟨e, fails⟩
      · exact ⟨_, .string resolves⟩
      · exact ⟨_, .noText found fails⟩
    | _ => exact ⟨_, .otherKind found (by simp [Constant.tag, Field.constantKinds])⟩
  · exact ⟨_, .outOfRange absent⟩

/-- The rules for the values of fields say what is looked up, so they exclude each other. -/
theorem constantAt_eq_iff (pool : ConstantPool) (index : UInt16)
    (result : Except ReadError FieldConstant) :
    Field.constantAt pool index = result ↔ pool.ConstantAt index result := by
  constructor
  · rintro rfl
    obtain ⟨result, h⟩ := pool.exists_constantAt index
    rwa [constantAt_of_rule h]
  · exact constantAt_of_rule

/-- A text is looked up as the rule says, and in no other way. -/
theorem textAt_eq_iff (pool : ConstantPool) (index : UInt16) (result : Except ReadError String) :
    (pool.utf8 index).mapError .reference = result ↔ pool.TextAt index result := by
  have hrule : ∀ {result}, pool.TextAt index result →
      (pool.utf8 index).mapError .reference = result := by
    intro result h
    cases h with
    | @text text resolves =>
      have htext : pool.utf8 index = .ok text := project_of_resolves resolves
      rw [htext]
      rfl
    | @noText e fails =>
      have hfails : pool.utf8 index = .error e := project_of_fails fails
      rw [hfails]
      rfl
  -- one of the two rules applies, and it gives the result that was found
  constructor
  · rintro rfl
    rcases pool.resolves_or_fails .utf8 index with ⟨text, resolves⟩ | ⟨e, fails⟩
    · rw [hrule (.text resolves)]
      exact .text resolves
    · rw [hrule (.noText fails)]
      exact .noText fails
  · exact hrule

/-- A field has a text for its value if its index leads to a string, and then it is the text of that
    string. -/
theorem constantAt_string_iff {text : String} : pool.ConstantAt index (.ok (.string text)) ↔
    (∃ value, pool.get index = .ok (.string value)) ∧ pool.text index = .ok text := by
  constructor
  -- the rule for strings is the only one that gives a text
  · rintro (_ | _ | _ | _ | resolves)
    have htext : pool.string index = .ok text := project_of_resolves resolves
    cases resolves with
    | string found => exact ⟨⟨_, found⟩, (text_eq_reading found).trans htext⟩
  · rintro ⟨⟨value, found⟩, htext⟩
    have hstring : pool.project .string index = .ok text := (text_eq_reading found).symm.trans htext
    exact .string (project_eq_ok_iff.mp hstring)

end

end ConstantPool

/-! ## The first attribute decides

  Both questions are instances of one look-up, so what holds of the look-up is proved once, for
  any relation that describes what an index leads to. -/

/-- A question that is answered by the first attribute of a name, whose content is an index, and by
    what that index leads to. -/
structure DecidedByFirst {α : Type} (name : String) (malformed : ReadError)
    (At : UInt16 → Except ReadError α → Prop)
    (ask : List Attribute → Except ReadError (Option α)) : Prop where
  /-- There is nothing to be found exactly if no attribute has the name. -/
  absent : ∀ attributes, ask attributes = .ok none ↔ ∀ a ∈ attributes, a.name ≠ name
  /-- Of several attributes, the first might as well be the only one. -/
  first : ∀ attributes holder, Attribute.IsFirst attributes name holder →
    ask attributes = ask [holder]
  /-- There is a value exactly if the content is an index that leads to it. -/
  value : ∀ attributes holder, Attribute.IsFirst attributes name holder → ∀ v,
    (ask attributes = .ok (some v) ↔
      ∃ index : UInt16, holder.content = bytes 2 index.toNat ∧ At index (.ok v))
  /-- It fails exactly if the content is no index, or if it is one and following it fails. -/
  error : ∀ attributes holder, Attribute.IsFirst attributes name holder → ∀ e,
    (ask attributes = .error e ↔ (holder.content.length ≠ 2 ∧ malformed = e) ∨
      ∃ index : UInt16, holder.content = bytes 2 index.toNat ∧ At index (.error e))

section
variable {α : Type} {name : String} {malformed : ReadError}

theorem map_some_eq_ok {result : Except ReadError α} {v : α} :
    result.map some = .ok (some v) ↔ result = .ok v := by
  cases result <;> simp [Except.map]

theorem map_some_eq_error {result : Except ReadError α} {e : ReadError} :
    result.map some = .error e ↔ result = .error e := by
  cases result <;> simp [Except.map]

/-- Looking up is decided by the first attribute, whatever it is that an index leads to. -/
theorem decidedByFirst_lookUp {valueAt : UInt16 → Except ReadError α}
    {At : UInt16 → Except ReadError α → Prop}
    (hAt : ∀ index result, valueAt index = result ↔ At index result) :
    DecidedByFirst name malformed At (Attribute.lookUp name malformed valueAt) where
  absent attributes := by
    constructor
    · intro h
      -- where there is a first attribute, something is found or it fails
      rcases Attribute.absent_or_isFirst attributes name with habsent | ⟨holder, hfirst⟩
      · exact habsent
      · rw [Attribute.lookUp_of_isFirst hfirst] at h
        cases hresult : Attribute.follow malformed valueAt holder with
        | error e => nomatch hresult ▸ h
        | ok v => nomatch hresult ▸ h
    · exact Attribute.lookUp_of_absent
  first attributes holder hfirst := by
    rw [Attribute.lookUp_of_isFirst hfirst,
      Attribute.lookUp_of_isFirst (Attribute.isFirst_singleton hfirst.name_eq)]
  value attributes holder hfirst v := by
    rw [Attribute.lookUp_of_isFirst hfirst, map_some_eq_ok, Attribute.follow_eq_iff]
    simp [hAt]
  error attributes holder hfirst e := by
    rw [Attribute.lookUp_of_isFirst hfirst, map_some_eq_error, Attribute.follow_eq_iff]
    simp [hAt]

end

/-- **The first attribute of its name decides.**  A field has no value, and a class no source file,
    exactly if there is no attribute of that name.  Otherwise the first of them has to be an index
    that leads to what is wanted, and each way in which it does not is told from the others.  If the
    value of a field is a string, it is the text that this string has everywhere else. -/
theorem decidedByFirst_singleIndex :
    (∀ (f : Field) (pool : ConstantPool),
      DecidedByFirst "ConstantValue" (.malformed (.constantValue f.name)) pool.ConstantAt
        fun attributes => Field.constantValue { f with attributes } pool) ∧
    (∀ (pool : ConstantPool) (index : UInt16) (text : String),
      pool.ConstantAt index (.ok (.string text)) ↔
        (∃ value, pool.get index = .ok (.string value)) ∧ pool.text index = .ok text) ∧
    ∀ c : ClassFile,
      DecidedByFirst "SourceFile" (.malformed .sourceFile) c.constants.TextAt
        fun attributes => ClassFile.sourceFile { c with attributes } := by
  refine ⟨?_, fun _ _ _ => ConstantPool.constantAt_string_iff, ?_⟩
  · intro f pool
    simp only [Field.constantValue_eq]
    exact decidedByFirst_lookUp pool.constantAt_eq_iff
  · intro c
    simp only [ClassFile.sourceFile_eq]
    exact decidedByFirst_lookUp c.constants.textAt_eq_iff

/-- A pool in which index 4 leads to a string, and index 2 is the unusable half of a long. -/
def greetingPool : ConstantPool := .ofList [.long 42, .utf8 "hello", .string 3]

/-- A field with three attributes: one of another name, the one that counts, and one behind it. -/
def greeting (content : List UInt8) : Field where
  accessFlags := 0
  nameIndex := 0
  descriptorIndex := 0
  name := "GREETING"
  descriptor := "Ljava/lang/String;"
  attributes :=
    [⟨0, "Deprecated", []⟩, ⟨0, "ConstantValue", content⟩, ⟨0, "ConstantValue", [0, 1]⟩]

theorem isFirst_greeting (content : List UInt8) :
    Attribute.IsFirst (greeting content).attributes "ConstantValue" ⟨0, "ConstantValue", content⟩ :=
  ⟨rfl, [⟨0, "Deprecated", []⟩], [⟨0, "ConstantValue", [0, 1]⟩], rfl, by simp⟩

/-- The theorem at this field, with a string, a text, an unusable index and no index at all.  The
    attribute behind would have led to a number. -/
theorem decidedByFirst_singleIndex_greeting :
    (greeting [0, 4]).constantValue greetingPool = .ok (some (.string "hello")) ∧
    greetingPool.text 4 = .ok "hello" ∧
    (greeting [0, 3]).constantValue greetingPool = .error (.malformed (.constantValueTag .utf8)) ∧
    (greeting [0, 2]).constantValue greetingPool = .error (.reference (.outOfRange 2)) ∧
    (greeting [4]).constantValue greetingPool = .error (.malformed (.constantValue "GREETING")) := by
  obtain ⟨hvalue, hstringText, -⟩ := decidedByFirst_singleIndex
  have h := fun content => hvalue (greeting content) greetingPool
  have hstring : greetingPool.ConstantAt 4 (.ok (.string "hello")) :=
    .string (.string rfl (.utf8 rfl))
  have hother : greetingPool.ConstantAt 3 (.error (.malformed (.constantValueTag .utf8))) :=
    .otherKind (c := .utf8 "hello") rfl (by decide)
  refine ⟨?_, ?_, ?_, ?_, ?_⟩
  · exact ((h [0, 4]).value _ _ (isFirst_greeting _) _).mpr ⟨4, rfl, hstring⟩
  · exact ((hstringText _ _ _).mp hstring).2
  · exact ((h [0, 3]).error _ _ (isFirst_greeting _) _).mpr (Or.inr ⟨3, rfl, hother⟩)
  · exact ((h [0, 2]).error _ _ (isFirst_greeting _) _).mpr (Or.inr ⟨2, rfl, .outOfRange rfl⟩)
  · exact ((h [4]).error _ _ (isFirst_greeting _) _).mpr (Or.inl ⟨by decide, rfl⟩)

end JavaClass
