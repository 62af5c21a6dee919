/-
  Projections of a constant pool.

  A projection wants a constant of a certain kind at an index and follows the references of that
  constant, each of them by a projection of its own.  `references` says which references a constant
  makes, in the order in which they are followed, and what is wanted of each.

  `Resolves` is the reading of a chain of references that succeeds, one rule for each projection,
  and `Fails` is that of one that does not, in which the first broken reference counts.  Both are
  said without the functions that follow references, and these come to exactly that
  (`project_eq_ok_iff`, `project_eq_error_iff`).  A chain does not come back to where it was: what is
  wanted of a reference is always less than what was wanted of the constant that makes it (`depth`),
  so a pool may refer to itself in any way.
-/
import JavaClass.ConstantPool.Reference
import JavaClass.Proofs.ConstantPool.Lookup
import JavaClass.Proofs.Failures

namespace JavaClass

open Constant (Tag)

/-- What can be wanted of an index. -/
inductive Projection where
  | utf8 | className | string | nameAndType | field | method | interfaceMethod
  /-- A field or a method of any kind, as a method handle refers to it. -/
  | member
deriving DecidableEq, Repr

namespace Projection

/-- What a projection yields. -/
@[reducible] def Value : Projection → Type
  | .utf8 | .className | .string => String
  | .nameAndType => NameAndType
  | .field | .method | .interfaceMethod | .member => MemberReference

/-- The kind that is named if the constant is of another. -/
def expected : Projection → Tag
  | .utf8 => .utf8
  | .className => .classRef
  | .string => .string
  | .nameAndType => .nameAndType
  | .field => .fieldRef
  | .method | .member => .methodRef
  | .interfaceMethod => .interfaceMethodRef

/-- The kinds that will do: the one that is expected, and for a member those of all members. -/
def accepts : Projection → Tag → Bool
  | .member, kind => kind == .fieldRef || kind == .methodRef || kind == .interfaceMethodRef
  | r, kind => kind == r.expected

/-- A reference accepts the tag that it asks for. -/
theorem accepts_expected (r : Projection) : r.accepts r.expected = true := by cases r <;> rfl

/-- How many references can lead on from a constant of a kind, one behind the other. -/
def depth : Tag → Nat
  | .utf8 | .integer | .float | .long | .double => 0
  | .classRef | .string | .nameAndType | .methodType | .moduleRef | .packageRef => 1
  | .fieldRef | .methodRef | .interfaceMethodRef | .dynamic | .invokeDynamic => 2
  | .methodHandle => 3

/-- All tags that a reference accepts are equally far from a text. -/
theorem depth_of_accepts {r : Projection} {kind : Tag} (h : r.accepts kind = true) :
    depth kind = depth r.expected := by
  cases r
  case member =>
    simp only [accepts, Bool.or_eq_true, beq_iff_eq] at h
    rcases h with (rfl | rfl) | rfl <;> rfl
  all_goals
    obtain rfl := eq_of_beq h
    rfl

end Projection

namespace ConstantPool

/-- The references of a constant, in the order in which they are followed, and what the class file
    format wants of each. -/
def references : Constant → List (Projection × UInt16)
  | .utf8 _ | .integer _ | .float _ | .long _ | .double _ => []
  | .classRef name | .methodType name | .moduleRef name | .packageRef name => [(.utf8, name)]
  | .string value => [(.utf8, value)]
  | .fieldRef owner nameAndType
  | .methodRef owner nameAndType
  | .interfaceMethodRef owner nameAndType => [(.nameAndType, nameAndType), (.className, owner)]
  | .nameAndType name descriptor => [(.utf8, name), (.utf8, descriptor)]
  | .methodHandle _ member => [(.member, member)]
  | .dynamic _ nameAndType | .invokeDynamic _ nameAndType => [(.nameAndType, nameAndType)]

/-- What a projection of the pool yields at an index. -/
def project (pool : ConstantPool) : (r : Projection) → UInt16 → Except ReferenceError r.Value
  | .utf8 => pool.utf8
  | .className => pool.className
  | .string => pool.string
  | .nameAndType => pool.nameAndType
  | .field => pool.fieldReference
  | .method => pool.methodReference
  | .interfaceMethod => pool.interfaceMethodReference
  | .member => pool.anyMember

/-! ## Chains of references that resolve

  A projection is answered by a chain of constants, each of the kind that is wanted of it.  The
  rules give one case for each kind of value, and leave the order of the references open, since
  all of them have to be there. -/

/-- An index leads to a value: the constant at the index is of the kind that is wanted, and its
    references lead to the parts of the value. -/
inductive Resolves (pool : ConstantPool) : (r : Projection) → UInt16 → r.Value → Prop
  | utf8 {index : UInt16} {text : String} (found : pool.get index = .ok (.utf8 text)) :
    Resolves pool .utf8 index text
  | className {index name : UInt16} {text : String}
    (found : pool.get index = .ok (.classRef name)) (nameText : Resolves pool .utf8 name text) :
    Resolves pool .className index text
  | string {index value : UInt16} {text : String}
    (found : pool.get index = .ok (.string value)) (valueText : Resolves pool .utf8 value text) :
    Resolves pool .string index text
  | nameAndType {index name descriptor : UInt16} {n : NameAndType}
    (found : pool.get index = .ok (.nameAndType name descriptor))
    (nameText : Resolves pool .utf8 name n.name)
    (descriptorText : Resolves pool .utf8 descriptor n.descriptor) :
    Resolves pool .nameAndType index n
  | field {index owner nameAndType : UInt16} {m : MemberReference}
    (found : pool.get index = .ok (.fieldRef owner nameAndType))
    (named : Resolves pool .nameAndType nameAndType ⟨m.name, m.descriptor⟩)
    (owned : Resolves pool .className owner m.className) : Resolves pool .field index m
  | method {index owner nameAndType : UInt16} {m : MemberReference}
    (found : pool.get index = .ok (.methodRef owner nameAndType))
    (named : Resolves pool .nameAndType nameAndType ⟨m.name, m.descriptor⟩)
    (owned : Resolves pool .className owner m.className) : Resolves pool .method index m
  | interfaceMethod {index owner nameAndType : UInt16} {m : MemberReference}
    (found : pool.get index = .ok (.interfaceMethodRef owner nameAndType))
    (named : Resolves pool .nameAndType nameAndType ⟨m.name, m.descriptor⟩)
    (owned : Resolves pool .className owner m.className) : Resolves pool .interfaceMethod index m
  | ofField {index : UInt16} {m : MemberReference} (resolves : Resolves pool .field index m) :
    Resolves pool .member index m
  | ofMethod {index : UInt16} {m : MemberReference} (resolves : Resolves pool .method index m) :
    Resolves pool .member index m
  | ofInterfaceMethod {index : UInt16} {m : MemberReference}
    (resolves : Resolves pool .interfaceMethod index m) : Resolves pool .member index m

/-! ## Chains of references that do not

  Of several broken references only one is reported.  The order in which they are followed matters
  here: a reference is blamed only if those in front of it lead to values. -/

/-- An index does not lead to a value: there is no constant, or one of another kind, or a reference
    does not lead to a value, and those in front of it do. -/
inductive Fails (pool : ConstantPool) : Projection → UInt16 → ReferenceError → Prop
  | outOfRange {r : Projection} {index : UInt16}
    (absent : pool.get index = .error (.outOfRange index)) :
    Fails pool r index (.outOfRange index)
  | unexpectedTag {r : Projection} {index : UInt16} {c : Constant}
    (found : pool.get index = .ok c) (kind : r.accepts c.tag = false) :
    Fails pool r index (.unexpectedTag index r.expected c.tag)
  | reference {r r' : Projection} {index index' : UInt16} {c : Constant} {e : ReferenceError}
    {front back : List (Projection × UInt16)} (found : pool.get index = .ok c)
    (kind : r.accepts c.tag = true) (order : references c = front ++ (r', index') :: back)
    (before : ∀ p ∈ front, ∃ v, Resolves pool p.1 p.2 v) (fails : Fails pool r' index' e) :
    Fails pool r index e

section
variable {pool : ConstantPool} {r : Projection} {index owner nameAndType : UInt16} {c : Constant}

/-! ## One step

  What a projection does with the constant that it finds, before any reference of it is followed. -/

/-- A reference to no slot fails as the lookup does. -/
theorem project_of_absent {e : ReferenceError} (absent : pool.get index = .error e) :
    pool.project r index = .error e := by
  cases r
  all_goals
    show pool.get index >>= _ = _
    rw [absent]
    rfl

/-- A reference to a constant of another kind fails with both tags. -/
theorem project_of_other (found : pool.get index = .ok c) (kind : r.accepts c.tag = false) :
    pool.project r index = .error (.unexpectedTag index r.expected c.tag) := by
  cases r
  all_goals
    show pool.get index >>= _ = _
    rw [found]
  case utf8 => cases c with | utf8 => nomatch kind | _ => rfl
  case className => cases c with | classRef => nomatch kind | _ => rfl
  case string => cases c with | string => nomatch kind | _ => rfl
  case nameAndType => cases c with | nameAndType => nomatch kind | _ => rfl
  case field => cases c with | fieldRef => nomatch kind | _ => rfl
  case method => cases c with | methodRef => nomatch kind | _ => rfl
  case interfaceMethod => cases c with | interfaceMethodRef => nomatch kind | _ => rfl
  case member =>
    cases c with
    | fieldRef | methodRef | interfaceMethodRef => nomatch kind
    | _ => rfl

/-- Why a constant cannot be followed: the first of its references that fails decides. -/
def failureOf? (pool : ConstantPool) (c : Constant) : Option ReferenceError :=
  (references c).findSome? fun p => failure? (pool.project p.1 p.2)

/-- A constant with one reference fails as that one does. -/
theorem failureOf?_one {r' : Projection} {index' : UInt16} (h : references c = [(r', index')]) :
    pool.failureOf? c = failure? (pool.project r' index') := by
  rw [failureOf?, h, List.findSome?_cons, List.findSome?_nil]
  cases failure? (pool.project r' index') <;> rfl

/-- A constant with two references fails as the first that does. -/
theorem failureOf?_two {r₁ r₂ : Projection} {index₁ index₂ : UInt16}
    (h : references c = [(r₁, index₁), (r₂, index₂)]) : pool.failureOf? c =
      (failure? (pool.project r₁ index₁)).or (failure? (pool.project r₂ index₂)) := by
  rw [failureOf?, h, List.findSome?_cons, List.findSome?_cons, List.findSome?_nil]
  cases failure? (pool.project r₁ index₁) <;> cases failure? (pool.project r₂ index₂) <;> rfl

/-- A name and type fails as its name does, or else as its descriptor. -/
theorem failure?_pair {α : Type} (make : String → String → α) (name descriptor : UInt16) :
    failure? (do
      let name ← pool.utf8 name
      let descriptor ← pool.utf8 descriptor
      return make name descriptor) =
      pool.failureOf? (.nameAndType name descriptor) := by
  rw [failureOf?_two rfl, ← Option.or_none (o := failure? (pool.project _ descriptor))]
  exact failure?_bind fun _ => failure?_bind fun _ => rfl

/-- A member fails as its name and type does, or else as its class. -/
theorem failure?_member (h : references c = [(.nameAndType, nameAndType), (.className, owner)]) :
    failure? (pool.member owner nameAndType) = pool.failureOf? c := by
  rw [failureOf?_two h, ← Option.or_none (o := failure? (pool.project _ owner))]
  exact failure?_bind fun _ => failure?_bind fun _ => rfl

/-- A constant that will do is as good as its references. -/
theorem failure?_project_of_found (found : pool.get index = .ok c)
    (kind : r.accepts c.tag = true) : failure? (pool.project r index) = pool.failureOf? c := by
  cases r
  all_goals
    show failure? (pool.get index >>= _) = _
    rw [found]
  -- a reference accepts few tags, and fails behind the right constant as its references do
  case utf8 =>
    cases c with
    | utf8 => rfl
    | _ => nomatch kind
  case className =>
    cases c with
    | classRef name => exact (failureOf?_one (c := .classRef name) rfl).symm
    | _ => nomatch kind
  case string =>
    cases c with
    | string value => exact (failureOf?_one (c := .string value) rfl).symm
    | _ => nomatch kind
  case nameAndType =>
    cases c with
    | nameAndType name descriptor => exact failure?_pair _ name descriptor
    | _ => nomatch kind
  case field =>
    cases c with
    | fieldRef => exact failure?_member rfl
    | _ => nomatch kind
  case method =>
    cases c with
    | methodRef => exact failure?_member rfl
    | _ => nomatch kind
  case interfaceMethod =>
    cases c with
    | interfaceMethodRef => exact failure?_member rfl
    | _ => nomatch kind
  case member =>
    cases c with
    | fieldRef | methodRef | interfaceMethodRef => exact failure?_member rfl
    | _ => nomatch kind

/-- What is wanted of a reference leads less far than the constant that makes it. -/
theorem depth_lt_of_mem_references {p : Projection × UInt16} (hp : p ∈ references c) :
    Projection.depth p.1.expected < Projection.depth c.tag := by
  have hdepth : ∀ q ∈ references c, Projection.depth q.1.expected < Projection.depth c.tag := by
    cases c <;> simp [references, Constant.tag, Projection.depth, Projection.expected]
  exact hdepth p hp

/-- A member is a field, or a method of an interface, or else it is looked for as a method. -/
theorem anyMember_eq (pool : ConstantPool) (index : UInt16) :
    pool.anyMember index = match pool.get index with
      | .ok (.fieldRef _ _) => pool.fieldReference index
      | .ok (.interfaceMethodRef _ _) => pool.interfaceMethodReference index
      | _ => pool.methodReference index := by
  rw [anyMember, fieldReference, methodReference, interfaceMethodReference]
  cases pool.get index with
  | error e => rfl
  | ok c => cases c <;> rfl

section
variable {name descriptor : UInt16}

/-- A text is there as it is. -/
theorem utf8_of_get {text : String} (found : pool.get index = .ok (.utf8 text)) :
    pool.utf8 index = .ok text := by
  rw [utf8, found]
  rfl

/-- A class leads on to its name. -/
theorem className_of_get (found : pool.get index = .ok (.classRef name)) :
    pool.className index = pool.utf8 name := by
  rw [className, found]
  rfl

/-- A string leads on to its text. -/
theorem string_of_get (found : pool.get index = .ok (.string name)) :
    pool.string index = pool.utf8 name := by
  rw [string, found]
  rfl

/-- A name and type leads on to a name, and then to a descriptor. -/
theorem nameAndType_of_get (found : pool.get index = .ok (.nameAndType name descriptor)) :
    pool.nameAndType index = do
      let name ← pool.utf8 name
      let descriptor ← pool.utf8 descriptor
      return { name, descriptor } := by
  rw [ConstantPool.nameAndType, found]
  rfl

theorem fieldReference_of_get (found : pool.get index = .ok (.fieldRef owner nameAndType)) :
    pool.fieldReference index = pool.member owner nameAndType := by
  rw [fieldReference, found]
  rfl

theorem methodReference_of_get (found : pool.get index = .ok (.methodRef owner nameAndType)) :
    pool.methodReference index = pool.member owner nameAndType := by
  rw [methodReference, found]
  rfl

theorem interfaceMethodReference_of_get
    (found : pool.get index = .ok (.interfaceMethodRef owner nameAndType)) :
    pool.interfaceMethodReference index = pool.member owner nameAndType := by
  rw [interfaceMethodReference, found]
  rfl

end

/-! ## Projections are what the rules say

  Both relations are sound for the projections, and together they leave nothing out
  (`resolves_or_fails`), so each of them is met exactly.  A pool may refer to itself, but no chain
  goes on without end: what is wanted of a reference is nearer to a text than what is wanted of
  the constant that makes it. -/

/-- If both are there, so is the pair. -/
theorem nameAndType_of_parts {name descriptor : UInt16} {n : NameAndType}
    (found : pool.get index = .ok (.nameAndType name descriptor))
    (named : pool.utf8 name = .ok n.name) (described : pool.utf8 descriptor = .ok n.descriptor) :
    pool.nameAndType index = .ok n := by
  rw [nameAndType_of_get found, named]
  show pool.utf8 descriptor >>= _ = _
  rw [described]
  rfl

/-- If the name and type and the class are there, so is the member. -/
theorem member_of_parts {m : MemberReference}
    (named : pool.nameAndType nameAndType = .ok ⟨m.name, m.descriptor⟩)
    (owned : pool.className owner = .ok m.className) : pool.member owner nameAndType = .ok m := by
  rw [member, named]
  show pool.className owner >>= _ = _
  rw [owned]
  rfl

/-- What resolves is found. -/
theorem project_of_resolves {v : r.Value} (h : pool.Resolves r index v) :
    pool.project r index = .ok v := by
  induction h with
  | utf8 found => exact utf8_of_get found
  | className found _ ih => exact (className_of_get found).trans ih
  | string found _ ih => exact (string_of_get found).trans ih
  | nameAndType found _ _ ihName ihDescriptor =>
    exact nameAndType_of_parts found ihName ihDescriptor
  | field found _ _ ihNamed ihOwned =>
    exact (fieldReference_of_get found).trans (member_of_parts ihNamed ihOwned)
  | method found _ _ ihNamed ihOwned =>
    exact (methodReference_of_get found).trans (member_of_parts ihNamed ihOwned)
  | interfaceMethod found _ _ ihNamed ihOwned =>
    exact (interfaceMethodReference_of_get found).trans (member_of_parts ihNamed ihOwned)
  -- a member of any kind is looked up as one of its own kind
  | @ofField index m resolves ih | @ofMethod index m resolves ih
  | @ofInterfaceMethod index m resolves ih =>
    have hmember := anyMember_eq pool index
    cases resolves
    rw [‹pool.get index = _›] at hmember
    exact hmember.trans ih

/-- If the references of a constant resolve, so does every projection that it will do for. -/
theorem exists_resolves (found : pool.get index = .ok c) (kind : r.accepts c.tag = true)
    (hreferences : ∀ p ∈ references c, ∃ v, pool.Resolves p.1 p.2 v) :
    ∃ v, pool.Resolves r index v := by
  -- a member has a name and type, and a class
  have hmember : ∀ {owner nameAndType : UInt16},
      references c = [(.nameAndType, nameAndType), (.className, owner)] →
      ∃ m : MemberReference, pool.Resolves .nameAndType nameAndType ⟨m.name, m.descriptor⟩ ∧
        pool.Resolves .className owner m.className := by
    intro owner nameAndType hc
    rw [hc] at hreferences
    obtain ⟨⟨n, hnamed⟩, ⟨className, howned⟩, -⟩ := by
      simpa only [List.forall_mem_cons] using hreferences
    exact ⟨⟨className, n.name, n.descriptor⟩, hnamed, howned⟩
  cases r
  case utf8 =>
    cases c with
    | utf8 text => exact ⟨text, .utf8 found⟩
    | _ => nomatch kind
  case className =>
    cases c with
    | classRef name =>
      obtain ⟨text, htext⟩ := hreferences _ (List.mem_singleton_self _)
      exact ⟨text, .className found htext⟩
    | _ => nomatch kind
  case string =>
    cases c with
    | string value =>
      obtain ⟨text, htext⟩ := hreferences _ (List.mem_singleton_self _)
      exact ⟨text, .string found htext⟩
    | _ => nomatch kind
  case nameAndType =>
    cases c with
    | nameAndType name descriptor =>
      obtain ⟨nameText, hname⟩ := hreferences _ List.mem_cons_self
      obtain ⟨descriptorText, hdescriptor⟩ :=
        hreferences _ (List.mem_cons_of_mem _ (List.mem_singleton_self _))
      exact ⟨⟨nameText, descriptorText⟩, .nameAndType found hname hdescriptor⟩
    | _ => nomatch kind
  case field =>
    cases c with
    | fieldRef =>
      obtain ⟨m, hnamed, howned⟩ := hmember rfl
      exact ⟨m, .field found hnamed howned⟩
    | _ => nomatch kind
  case method =>
    cases c with
    | methodRef =>
      obtain ⟨m, hnamed, howned⟩ := hmember rfl
      exact ⟨m, .method found hnamed howned⟩
    | _ => nomatch kind
  case interfaceMethod =>
    cases c with
    | interfaceMethodRef =>
      obtain ⟨m, hnamed, howned⟩ := hmember rfl
      exact ⟨m, .interfaceMethod found hnamed howned⟩
    | _ => nomatch kind
  case member =>
    cases c with
    | fieldRef =>
      obtain ⟨m, hnamed, howned⟩ := hmember rfl
      exact ⟨m, .ofField (.field found hnamed howned)⟩
    | methodRef =>
      obtain ⟨m, hnamed, howned⟩ := hmember rfl
      exact ⟨m, .ofMethod (.method found hnamed howned)⟩
    | interfaceMethodRef =>
      obtain ⟨m, hnamed, howned⟩ := hmember rfl
      exact ⟨m, .ofInterfaceMethod (.interfaceMethod found hnamed howned)⟩
    | _ => nomatch kind

end

section
variable {pool : ConstantPool} {r : Projection} {index : UInt16}

/-- What fails is reported as the relation says. -/
theorem project_of_fails {e : ReferenceError} (h : pool.Fails r index e) :
    pool.project r index = .error e := by
  induction h with
  | outOfRange absent => exact project_of_absent absent
  | unexpectedTag found kind => exact project_of_other found kind
  | @reference r r' index index' c e front back found kind order before _ ih =>
    have hfirst : pool.failureOf? c = some e := by
      rw [failureOf?, order, List.findSome?_append, List.findSome?_eq_none_iff.mpr, Option.none_or,
        List.findSome?_cons, failure?_eq_some.mpr ih]
      intro p hp
      obtain ⟨v, hv⟩ := before p hp
      exact failure?_eq_none.mpr ⟨v, project_of_resolves hv⟩
    rw [← failure?_eq_some, failure?_project_of_found found kind, hfirst]

/-- Of things that are good or bad, all are good, or there is a first that is bad. -/
theorem forall_or_first {α : Type} {Good Bad : α → Prop} {as : List α}
    (h : ∀ a ∈ as, Good a ∨ Bad a) : (∀ a ∈ as, Good a) ∨
      ∃ front a back, as = front ++ a :: back ∧ (∀ b ∈ front, Good b) ∧ Bad a := by
  induction as with
  | nil => exact Or.inl fun _ hmem => nomatch hmem
  | cons a as ih =>
    obtain ⟨ha, has⟩ := List.forall_mem_cons.mp h
    rcases ha with hgood | hbad
    · rcases ih has with hall | ⟨front, b, back, rfl, hfront, hb⟩
      · exact Or.inl (List.forall_mem_cons.mpr ⟨hgood, hall⟩)
      · exact Or.inr ⟨a :: front, b, back, rfl, List.forall_mem_cons.mpr ⟨hgood, hfront⟩, hb⟩
    · refine Or.inr ⟨[], a, as, rfl, ?_, hbad⟩
      intro b hmem
      nomatch hmem

/-- An index leads to a value, or it fails to.  The induction is on how far references can lead, not
    on the pool, which may be cyclic. -/
theorem resolves_or_fails (pool : ConstantPool) (r : Projection) (index : UInt16) :
    (∃ v, pool.Resolves r index v) ∨ ∃ e, pool.Fails r index e := by
  rcases pool.get_cases index with ⟨c, found⟩ | absent
  · cases kind : r.accepts c.tag with
    | false => exact Or.inr ⟨_, .unexpectedTag found kind⟩
    | true =>
      have hreferences : ∀ p ∈ references c,
          (∃ v, pool.Resolves p.1 p.2 v) ∨ ∃ e, pool.Fails p.1 p.2 e := by
        intro p hp
        have hdepth : Projection.depth p.1.expected < Projection.depth r.expected := by
          rw [← Projection.depth_of_accepts kind]
          exact depth_lt_of_mem_references hp
        exact resolves_or_fails pool p.1 p.2
      rcases forall_or_first hreferences with hall | ⟨front, p, back, order, before, e, fails⟩
      · exact Or.inl (exists_resolves found kind hall)
      · exact Or.inr ⟨e, .reference found kind order before fails⟩
  · exact Or.inr ⟨_, .outOfRange absent⟩
termination_by Projection.depth r.expected

/-- A projection yields what the references lead to. -/
theorem project_eq_ok_iff {v : r.Value} :
    pool.project r index = .ok v ↔ pool.Resolves r index v := by
  constructor
  · intro h
    rcases resolves_or_fails pool r index with ⟨v', hv⟩ | ⟨e, he⟩
    · rw [project_of_resolves hv] at h
      rwa [← Except.ok.inj h]
    · rw [project_of_fails he] at h
      nomatch h
  · exact project_of_resolves

/-- A projection fails as the first broken reference says. -/
theorem project_eq_error_iff {e : ReferenceError} :
    pool.project r index = .error e ↔ pool.Fails r index e := by
  constructor
  · intro h
    rcases resolves_or_fails pool r index with ⟨v, hv⟩ | ⟨e', he⟩
    · rw [project_of_resolves hv] at h
      nomatch h
    · rw [project_of_fails he] at h
      rwa [← Except.error.inj h]
  · exact project_of_fails

/-! ## The culprit

  The failure of a chain is that of its last link, whatever was asked for at the first. -/

/-- Following references leads from one index to another, each of them with what is wanted of it. -/
inductive Reaches (pool : ConstantPool) : Projection → UInt16 → Projection → UInt16 → Prop
  | refl {r : Projection} {index : UInt16} : Reaches pool r index r index
  | step {r r' r'' : Projection} {index index' index'' : UInt16} {c : Constant}
    (found : pool.get index = .ok c) (kind : r.accepts c.tag = true)
    (reference : (r', index') ∈ references c) (rest : Reaches pool r' index' r'' index'') :
    Reaches pool r index r'' index''

/-- What a failure says of an index is true: there is no constant, or there is one of the kind that
    is named as found, and another kind is expected. -/
inductive Blames (pool : ConstantPool) (r : Projection) (index : UInt16) : ReferenceError → Prop
  | outOfRange (absent : pool.get index = .error (.outOfRange index)) :
    Blames pool r index (.outOfRange index)
  | unexpectedTag {c : Constant} (found : pool.get index = .ok c) (other : c.tag ≠ r.expected) :
    Blames pool r index (.unexpectedTag index r.expected c.tag)

/-- Behind every failure stands a reference that is reached and is to blame. -/
theorem Fails.culprit {e : ReferenceError} (h : pool.Fails r index e) :
    ∃ r' index', pool.Reaches r index r' index' ∧ pool.Blames r' index' e := by
  induction h with
  | outOfRange absent => exact ⟨_, _, .refl, .outOfRange absent⟩
  | @unexpectedTag r index c found kind =>
    have hother : c.tag ≠ r.expected := by
      intro heq
      rw [heq, r.accepts_expected] at kind
      nomatch kind
    exact ⟨_, _, .refl, .unexpectedTag found hother⟩
  | @reference r r' index index' c e front back found kind order _ _ ih =>
    obtain ⟨r'', index'', hreaches, hblames⟩ := ih
    have hmem : (r', index') ∈ references c := by
      rw [order]
      exact List.mem_append_right _ List.mem_cons_self
    exact ⟨r'', index'', .step found kind hmem hreaches, hblames⟩

end

/-- The projections of a pool follow references exactly as the rules say. -/
structure ProjectsExactly (pool : ConstantPool) : Prop where
  /-- They yield what the references lead to. -/
  resolves : ∀ r index v, pool.project r index = .ok v ↔ pool.Resolves r index v
  /-- Otherwise they fail as the first broken reference says. -/
  fails : ∀ r index e, pool.project r index = .error e ↔ pool.Fails r index e
  /-- The index that is blamed is on the way, and what is said of it is true. -/
  culprit : ∀ r index e, pool.project r index = .error e →
    ∃ r' index', pool.Reaches r index r' index' ∧ pool.Blames r' index' e

/-- **Projections follow references, and blame the first that is broken.** -/
theorem projectsExactly_project (pool : ConstantPool) : pool.ProjectsExactly where
  resolves _ _ _ := project_eq_ok_iff
  fails _ _ _ := project_eq_error_iff
  culprit _ _ _ h := (project_eq_error_iff.mp h).culprit

/-- A pool that refers to itself: a method of a class whose name is the class itself, with a name
    and type in which the descriptor is missing. -/
def cyclic : ConstantPool :=
  ofList [.classRef 1, .utf8 "run", .nameAndType 2 9, .nameAndType 2 2, .methodRef 1 3,
    .methodRef 1 4]

/-- The theorem at this pool: the name and type is found broken before the class is, and the class
    is found to be no text. -/
theorem projectsExactly_project_cyclic :
    cyclic.nameAndType 4 = .ok ⟨"run", "run"⟩ ∧
    cyclic.methodReference 5 = .error (.outOfRange 9) ∧
    cyclic.methodReference 6 = .error (.unexpectedTag 1 .utf8 .classRef) := by
  have h := projectsExactly_project cyclic
  -- name and type 4 has both its texts, and number 3 lacks its descriptor
  have htext : cyclic.Resolves .utf8 2 "run" := .utf8 rfl
  have hnamed : cyclic.Resolves .nameAndType 4 ⟨"run", "run"⟩ := .nameAndType rfl htext htext
  have hmissing : cyclic.Fails .nameAndType 3 (.outOfRange 9) := by
    have horder : references (.nameAndType 2 9) = [(.utf8, 2)] ++ [(.utf8, 9)] := rfl
    refine .reference rfl rfl horder ?_ (.outOfRange rfl)
    exact List.forall_mem_singleton.mpr ⟨_, htext⟩
  -- class 1 is named by itself, which is no text
  have hself : cyclic.Fails .className 1 (.unexpectedTag 1 .utf8 .classRef) := by
    have horder : references (.classRef 1) = [] ++ [(.utf8, 1)] := rfl
    have hkind : cyclic.Fails .utf8 1 (.unexpectedTag 1 .utf8 .classRef) :=
      .unexpectedTag (c := .classRef 1) rfl rfl
    exact .reference rfl rfl horder (fun _ hmem => nomatch hmem) hkind
  refine ⟨(h.resolves .nameAndType 4 _).mpr hnamed, (h.fails .method 5 _).mpr ?_,
    (h.fails .method 6 _).mpr ?_⟩
  -- of a member, the name and type is looked up before the class
  · have horder : references (.methodRef 1 3) = [] ++ [(.nameAndType, 3), (.className, 1)] := rfl
    exact .reference rfl rfl horder (fun _ hmem => nomatch hmem) hmissing
  · have horder : references (.methodRef 1 4) = [(.nameAndType, 4)] ++ [(.className, 1)] := rfl
    exact .reference rfl rfl horder (List.forall_mem_singleton.mpr ⟨_, hnamed⟩) hself

end ConstantPool

end JavaClass
