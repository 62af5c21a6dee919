/-
  What is said about a byte string that is no class file.

  A failure is told as its cause, and the cause is there (`tellsTruth_ofBytes`).  A wrong magic
  number is the number in the first four bytes.  A lack of input is one of the bytes themselves, for
  a line number table that ends too early is malformed.  An index that leads to no text is met where
  a name or a descriptor is looked up, in the pool that was read before.  What is taken as it is has
  no part in any failure: the indexes of classes, and the contents of attributes.
-/
import JavaClass.Proofs.ClassFile.Failure
import JavaClass.Proofs.ConstantPool.Projection

namespace JavaClass

open Scan
open BigEndian (bytes)

/-! ## Failures of the constant pool

  Reading a pool follows no reference.  Apart from a lack of input it fails for the bytes of a
  single constant, or for the number of slots. -/

namespace ConstantPool

/-- What is said of an index that leads to no text: nothing is there, or something else. -/
inductive NoText (pool : ConstantPool) (index : UInt16) : ReferenceError → Prop
  | outOfRange (absent : pool.get index = .error (.outOfRange index)) :
    NoText pool index (.outOfRange index)
  | unexpectedTag {constant : Constant} (found : pool.get index = .ok constant)
    (other : constant.tag ≠ .utf8) : NoText pool index (.unexpectedTag index .utf8 constant.tag)

/-- A text is not found exactly for the reason that is given. -/
theorem utf8_eq_error {pool : ConstantPool} {index : UInt16} {r : ReferenceError} :
    pool.utf8 index = .error r ↔ pool.NoText index r := by
  constructor
  · intro h
    rcases pool.get_cases index with ⟨constant, hget⟩ | hget
    -- a text would have been found
    · have hother : constant.tag ≠ .utf8 := by
        intro htag
        cases constant <;> cases htag
        exact nomatch h.symm.trans (utf8_of_get hget)
      have hfails := project_of_other (r := .utf8) hget (beq_false_of_ne hother)
      obtain rfl := Except.error.inj (h.symm.trans hfails)
      exact .unexpectedTag hget hother
    · obtain rfl := Except.error.inj (h.symm.trans (project_of_absent (r := .utf8) hget))
      exact .outOfRange hget
  · intro h
    cases h with
    | outOfRange absent => exact project_of_absent (r := .utf8) absent
    | unexpectedTag found other =>
      exact project_of_other (r := .utf8) found (beq_false_of_ne other)

/-- A pool is rejected for a constant that has no kind, for a text that cannot be read, or because
    the slots do not suffice. -/
inductive Failure : ReadError → Prop
  | unsupportedTag {byte : UInt8} {index : UInt16} : Failure (.unsupportedTag byte index)
  | text {position : Nat} : Failure (.malformed (.text position))
  | poolSlots {declared taken : Nat} : Failure (.malformed (.poolSlots declared taken))

/-- What rejects a file is one of the failures there are. -/
theorem failure_of_rejects {p : Nat} {read : List UInt8} {e : ReadError}
    (h : scan.Rejects p read e) : Failure e := by
  obtain ⟨hshort, d, hd⟩ := h
  rcases scan_eq_error.mp hd with hcount | ⟨count, c, -, hloop | ⟨pool, stop, -, -, rfl⟩⟩
  · exact absurd (unchecked_u16.lift _ _ _ hcount) hshort
  · obtain ⟨constants, before, c', -, -, -, hconstant⟩ := scanFrom_eq_error.mp hloop
    rcases Constant.scan_eq_error hconstant with ⟨byte, rfl, -, -⟩ | ⟨cause, rfl⟩
    · exact .unsupportedTag
    · cases cause with
      | endOfData position requested available => exact absurd ⟨_, _, _, rfl⟩ hshort
      | invalidText position => exact .text
  · exact .poolSlots

end ConstantPool

/-! ## What has no part in any failure

  Where something is taken as it is, the failure of a file stays the same with anything else of
  the same length in its place. -/

/-- What can be taken as it is at a place: an index, or a content of the length that is declared. -/
inductive Place.Takes : Place → List UInt8 → Prop
  | index (value : UInt16) : Takes .index (bytes 2 value.toNat)
  | content {name : String} (taken : List UInt8) : Takes (.content name taken.length) taken

namespace Scan

variable {α : Type} {pool : ConstantPool} {related : α → α → Prop} {place : Place} {p : Nat}
  {front first second rest : List UInt8} {scan : Scan ReadError α} {e : ReadError}

/-- At a place, two spellings of what is awaited there fail together. -/
theorem Awaits.error_iff (h : Awaits pool related place scan) (hfirst : place.Takes first)
    (hsecond : place.Takes second) :
    (∃ d, scan ⟨first ++ rest, p⟩ = .error e d) ↔ ∃ d, scan ⟨second ++ rest, p⟩ = .error e d := by
  cases h with
  -- names and code are never taken as they are
  | name => nomatch hfirst
  | code => nomatch hfirst
  | index alike =>
    cases hfirst with
    | index i =>
      cases hsecond with
      | index j =>
        -- any two indexes are read the same way
        refine (alike i j).error_iff_of_accepts (accepts_lift_u16 i p) (accepts_lift_u16 j p) ?_
        rw [BigEndian.length_bytes, BigEndian.length_bytes]
  | @content name length next alike =>
    -- a content is taken for its length only
    have hread : ∀ taken : List UInt8, Place.Takes (.content name length) taken →
        taken.length = length ∧
          (liftM (Scan.bytes length) : Scan ReadError _).Accepts p taken taken := by
      intro taken h
      cases h
      exact ⟨rfl, accepts_lift.mpr (accepts_bytes.mpr ⟨rfl, rfl⟩)⟩
    obtain ⟨hlen₁, hread₁⟩ := hread first hfirst
    obtain ⟨hlen₂, hread₂⟩ := hread second hsecond
    exact (alike first second).error_iff_of_accepts hread₁ hread₂ (hlen₁.trans hlen₂.symm)

/-- What is taken as it is may be replaced where it stands, and a failure stays what it was. -/
theorem Leads.error_iff (h : scan.Leads pool related place p front) (hfirst : place.Takes first)
    (hsecond : place.Takes second) :
    (∃ d, scan ⟨front ++ (first ++ rest), p⟩ = .error e d) ↔
      ∃ d, scan ⟨front ++ (second ++ rest), p⟩ = .error e d := by
  obtain ⟨left, hresumes, hawaits⟩ := h
  rw [hresumes, hresumes]
  exact hawaits.error_iff hfirst hsecond

end Scan

/-! ## The whole file

  Apart from a lack of input, each failure is one of the causes, and each cause comes with what is
  to be seen in the bytes. -/

namespace ClassFile

variable {data : List UInt8} {e : ReadError}

/-- A failure other than a lack of input has a cause in the bytes. -/
theorem ofBytes_eq_error_iff_cause (hshort : ¬ IsShortage e) :
    ofBytes data = .error e ↔ Cause data e := by
  rw [ofBytes_eq_error, ← rejects_scan]
  constructor
  · intro h
    exact ⟨hshort, h⟩
  · intro h
    exact h.2

/-- A file is none if it starts with another number. -/
theorem cause_notAClassFile {found : UInt32} : Cause data (.notAClassFile found) ↔
    found ≠ magic ∧ ∃ rest, data = bytes 4 found.toNat ++ rest := by
  constructor
  · intro h
    cases h with
    | magic other => exact ⟨other, _, rfl⟩
    | constants rejects => nomatch ConstantPool.failure_of_rejects rejects
    | place leads blamed => nomatch blamed
  · rintro ⟨hother, rest, rfl⟩
    exact .magic hother

/-- A reference leads nowhere if the pool has no text at an index that is to be a name. -/
theorem cause_reference {r : ReferenceError} : Cause data (.reference r) ↔
    ∃ (pool : ConstantPool) (front : List UInt8) (index : UInt16) (rest : List UInt8),
      data = front ++ (bytes 2 index.toNat ++ rest) ∧ Front pool .name front ∧
        pool.NoText index r := by
  constructor
  · intro h
    cases h with
    | constants rejects => nomatch ConstantPool.failure_of_rejects rejects
    | place leads blamed =>
      cases blamed with
      | name fails => exact ⟨_, _, _, _, rfl, leads, ConstantPool.utf8_eq_error.mp fails⟩
  · rintro ⟨pool, front, index, rest, rfl, hfront, hno⟩
    exact .place hfront (.name (ConstantPool.utf8_eq_error.mpr hno))

/-- A line number table is wrong if the code around it is right but for the table. -/
theorem cause_lineNumberTable : Cause data (.malformed .lineNumberTable) ↔
    ∃ (pool : ConstantPool) (declared : Nat) (front : List UInt8) (body : Code)
      (rest : List UInt8), data = front ++ (body.stored ++ rest) ∧
        Front pool (.code declared) front ∧ body.Readable pool ∧
          Code.BrokenLines body.attributes := by
  constructor
  · intro h
    cases h with
    | constants rejects => nomatch ConstantPool.failure_of_rejects rejects
    | place leads blamed =>
      cases blamed with
      | lineNumbers readable broken => exact ⟨_, _, _, _, _, rfl, leads, readable, broken⟩
  · rintro ⟨pool, declared, front, body, rest, rfl, hfront, hreadable, hbroken⟩
    exact .place hfront (.lineNumbers hreadable hbroken)

/-- Everything in a class file is behind its constants. -/
theorem Declaration.head_prefix_upToInterfaces (d : Declaration) : d.head <+: d.upToInterfaces :=
  ((List.prefix_append _ _).trans (List.prefix_append _ _)).trans (List.prefix_append _ _)

theorem Declaration.head_prefix_upToFields (d : Declaration) : d.head <+: d.upToFields :=
  d.head_prefix_upToInterfaces.trans (List.prefix_append _ _)

theorem Declaration.head_prefix_upToMethods (d : Declaration) : d.head <+: d.upToMethods :=
  d.head_prefix_upToFields.trans (List.prefix_append _ _)

theorem Declaration.head_prefix_upToAttributes (d : Declaration) : d.head <+: d.upToAttributes :=
  d.head_prefix_upToMethods.trans (List.prefix_append _ _)

/-- What leads up to a place has the constants of the pool behind its first eight bytes. -/
theorem Front.scan_pool {pool : ConstantPool} {place : Place} {front : List UInt8}
    (h : Front pool place front) (rest : List UInt8) :
    ∃ c, ConstantPool.scan ⟨(front ++ rest).drop 8, 8⟩ = .ok pool c := by
  -- the pool precedes every place, behind the number and the version
  have hhead : ∃ d : Declaration, d.pool = pool ∧
      ConstantPool.EncodedAs d.constants d.spelled ∧ d.head <+: front := by
    cases h with
    | thisClass constants => exact ⟨_, rfl, constants, List.prefix_append _ _⟩
    | superClass constants =>
      exact ⟨_, rfl, constants, (List.prefix_append _ _).trans (List.prefix_append _ _)⟩
    | interface constants =>
      exact ⟨_, rfl, constants,
        (Declaration.head_prefix_upToInterfaces _).trans (List.prefix_append _ _)⟩
    | field constants =>
      exact ⟨_, rfl, constants,
        (Declaration.head_prefix_upToFields _).trans (List.prefix_append _ _)⟩
    | method constants =>
      exact ⟨_, rfl, constants,
        (Declaration.head_prefix_upToMethods _).trans (List.prefix_append _ _)⟩
    | attributes constants =>
      exact ⟨_, rfl, constants,
        (Declaration.head_prefix_upToAttributes _).trans (List.prefix_append _ _)⟩
  obtain ⟨d, rfl, hconstants, more, rfl⟩ := hhead
  -- these take eight bytes
  have hdrop : (d.head ++ more ++ rest).drop 8 = d.spelled ++ (more ++ rest) := by
    simp only [Declaration.head, List.append_assoc]
    rfl
  rw [hdrop]
  exact ⟨_, ConstantPool.accepts_scan.mpr ⟨d.constants, hconstants, rfl⟩ _⟩

/-- What can be said of a byte string that is not read as a class file.  What goes wrong later, when
    the class is asked for something, is not among it. -/
inductive Failure : ReadError → Prop
  | endOfInput {position requested available : Nat} :
    Failure (.endOfInput position requested available)
  | notAClassFile {found : UInt32} : Failure (.notAClassFile found)
  | constants {e : ReadError} (failure : ConstantPool.Failure e) : Failure e
  | reference {r : ReferenceError} : Failure (.reference r)
  | codeLength {length : Nat} : Failure (.malformed (.codeLength length))
  | codeAttributeLength {declared actual : Nat} :
    Failure (.malformed (.codeAttributeLength declared actual))
  | lineNumberTable : Failure (.malformed .lineNumberTable)

/-- Every cause comes with a failure of its kind. -/
theorem Cause.failure (h : Cause data e) : Failure e := by
  cases h with
  | magic other => exact .notAClassFile
  | constants rejects => exact .constants (ConstantPool.failure_of_rejects rejects)
  | place leads blamed =>
    cases blamed with
    | name fails => exact .reference
    | codeLength bad => exact .codeLength
    | lineNumbers readable broken => exact .lineNumberTable
    | codeAttributeLength readable hasLines wrong => exact .codeAttributeLength

/-- So does every failure of a file. -/
theorem failure_of_ofBytes (h : ofBytes data = .error e) : Failure e := by
  by_cases hshort : IsShortage e
  · obtain ⟨position, requested, available, rfl⟩ := hshort
    exact .endOfInput
  · exact ((ofBytes_eq_error_iff_cause hshort).mp h).failure

/-- What is said about a byte string that is not read is so. -/
structure TellsTruth (read : List UInt8 → Except ReadError ClassFile) : Prop where
  /-- A wrong magic number is the number in the first four bytes. -/
  notAClassFile : ∀ {data : List UInt8} {found : UInt32},
    read data = .error (.notAClassFile found) ↔
      4 ≤ data.length ∧ BigEndian.value (data.take 4) = found.toNat ∧ found.toNat ≠ 0xCAFEBABE
  /-- A lack of input is about the end of the bytes themselves. -/
  endOfInput : ∀ {data : List UInt8} {position requested available : Nat},
    read data = .error (.endOfInput position requested available) →
      position + available = data.length ∧ available < requested
  /-- An index that leads to no text stands for a name or a descriptor, and in the pool of the class
      it leads where it is said to. -/
  reference : ∀ {data : List UInt8} {r : ReferenceError}, read data = .error (.reference r) ↔
    ∃ (pool : ConstantPool) (front : List UInt8) (index : UInt16) (rest : List UInt8),
      data = front ++ (bytes 2 index.toNat ++ rest) ∧ Front pool .name front ∧
        (∃ c, ConstantPool.scan ⟨data.drop 8, 8⟩ = .ok pool c) ∧ pool.NoText index r
  /-- A line number table is malformed in the code of a method, whatever is wrong with it. -/
  lineNumberTable : ∀ {data : List UInt8}, read data = .error (.malformed .lineNumberTable) ↔
    ∃ (pool : ConstantPool) (declared : Nat) (front : List UInt8) (body : Code)
      (rest : List UInt8), data = front ++ (body.stored ++ rest) ∧
        Front pool (.code declared) front ∧ body.Readable pool ∧ Code.BrokenLines body.attributes
  /-- Nothing else goes wrong than what can go wrong with a class file. -/
  failure : ∀ {data : List UInt8} {e : ReadError}, read data = .error e → Failure e
  /-- What is taken as it is has no part in a failure: with other bytes in its place, the failure is
      the same. -/
  taken : ∀ {pool : ConstantPool} {place : Place} {front first second : List UInt8},
    Front pool place front → place.Takes first → place.Takes second → ∀ rest e,
      read (front ++ (first ++ rest)) = .error e ↔ read (front ++ (second ++ rest)) = .error e

/-- **Failures tell the truth.** -/
theorem tellsTruth_ofBytes : TellsTruth ofBytes := by
  constructor
  case notAClassFile =>
    intro data found
    rw [ofBytes_eq_error_iff_cause (not_isShortage_notAClassFile _), cause_notAClassFile]
    constructor
    -- the four bytes of another number are its word
    · rintro ⟨hother, rest, rfl⟩
      have hne : found.toNat ≠ 0xCAFEBABE := fun h => hother (UInt32.toNat_inj.mp h)
      have hlen : (bytes 4 found.toNat).length = 4 := BigEndian.length_bytes _ _
      have htake : (bytes 4 found.toNat ++ rest).take 4 = bytes 4 found.toNat :=
        List.take_left' hlen
      have hlt : found.toNat < BigEndian.range 4 := found.toNat_lt
      obtain ⟨-, hvalue⟩ := BigEndian.value_eq_iff.mpr ⟨hlt, rfl⟩
      rw [List.length_append, htake]
      exact ⟨by omega, hvalue, hne⟩
    · rintro ⟨hlen, hvalue, hne⟩
      have hother : found ≠ magic := by
        rintro rfl
        exact hne rfl
      have htake : (data.take 4).length = 4 := by
        rw [List.length_take]
        omega
      -- what the first four bytes are the word of is that number
      obtain ⟨-, hbytes⟩ := BigEndian.value_eq_iff.mp ⟨htake, hvalue⟩
      refine ⟨hother, data.drop 4, ?_⟩
      rw [← hbytes, List.take_append_drop]
  case endOfInput =>
    intro data position requested available h
    obtain ⟨d, hd⟩ := ofBytes_eq_error.mp h
    obtain ⟨-, hend, hlt, -⟩ := incremental_classFile.starves hd
    rw [hend]
    exact ⟨Nat.zero_add _, hlt⟩
  case reference =>
    intro data r
    rw [ofBytes_eq_error_iff_cause (not_isShortage_reference _), cause_reference]
    constructor
    -- the pool that the place belongs to is the one that is read
    · rintro ⟨pool, front, index, rest, rfl, hfront, hno⟩
      exact ⟨pool, front, index, rest, rfl, hfront, hfront.scan_pool _, hno⟩
    · rintro ⟨pool, front, index, rest, rfl, hfront, -, hno⟩
      exact ⟨pool, front, index, rest, rfl, hfront, hno⟩
  case lineNumberTable =>
    intro data
    rw [ofBytes_eq_error_iff_cause (not_isShortage_malformed _)]
    exact cause_lineNumberTable
  case failure =>
    intro data e h
    exact failure_of_ofBytes h
  case taken =>
    intro pool place front first second hfront hfirst hsecond rest e
    rw [ofBytes_eq_error, ofBytes_eq_error]
    exact (leads_scan hfront).error_iff hfirst hsecond

/-- A class without constants and members. -/
def bare : Declaration where
  version := { major := 52, minor := 0 }
  constants := []
  spelled := [0, 1]
  accessFlags := 0x21
  thisClass := 1
  superClass := 0
  interfaces := []
  fields := []
  methods := []
  attributes := []

/-- The theorem at bytes that start no class file, at a field whose name has no constant, and at a
    class that is cut off, with two indexes of its own name. -/
theorem tellsTruth_ofBytes_bare :
    ofBytes [0x50, 0x4B, 0x03, 0x04] = .error (.notAClassFile 0x504B0304) ∧
    ofBytes (bare.upToFields ++ [0, 1, 0, 0x19, 0, 7]) = .error (.reference (.outOfRange 7)) ∧
    (ofBytes (bare.head ++ bytes 2 0x21 ++ ([0, 1] ++ [0, 0])) = .error (.endOfInput 16 2 0) ↔
      ofBytes (bare.head ++ bytes 2 0x21 ++ ([0xFF, 0xFF] ++ [0, 0])) =
        .error (.endOfInput 16 2 0)) := by
  have hconstants : ConstantPool.EncodedAs bare.constants bare.spelled :=
    ⟨1, [], rfl, .nil, Or.inl rfl⟩
  refine ⟨?_, ?_, ?_⟩
  · apply tellsTruth_ofBytes.notAClassFile.mpr
    decide
  · have hname : MemberFront bare.pool
        (ListFront (Attribute.Storable bare.pool) Attribute.stored (Attribute.Front bare.pool))
          .name (bytes 2 (0x19 : UInt16).toNat) := .name
    have hfields : ListFront (Field.Storable bare.pool) Field.stored (Field.Front bare.pool) .name
        (bytes 2 (1 : UInt16).toNat ++ (([] : List Field).flatMap Field.stored ++
          bytes 2 (0x19 : UInt16).toNat)) :=
      .intro (by decide) (List.forall_mem_nil _) hname
    have hfront := Front.field hconstants (counted_nil _) hfields
    apply tellsTruth_ofBytes.reference.mpr
    exact ⟨bare.pool, _, 7, [], rfl, hfront, hfront.scan_pool [0, 7], .outOfRange rfl⟩
  · exact tellsTruth_ofBytes.taken (.thisClass hconstants) (.index 1) (.index 0xFFFF) [0, 0] _

end ClassFile

end JavaClass
