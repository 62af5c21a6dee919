/-
  Constant pools that grow.

  A constant that is added comes behind the slots that are there, so an index that has a slot leads
  to what it led to before (`get_of_growsTo`).  A query of a pool is made of such look-ups, and the
  first that fails decides.  It goes the same way in a larger pool unless it comes to an index behind
  the last slot, and in that case the failure says so.  Every other answer is `Settled`, and an answer
  is `Kept` by the larger pool if it is the same there or not settled.  Look-ups are kept, and so is
  what is made of them (`Kept.bind`).
-/
import JavaClass.ConstantPool.Listing
import JavaClass.Proofs.ConstantPool.Projection

namespace JavaClass.ConstantPool

/-! ## Slots that stay

  A pool grows at its end.  An index that has a slot is therefore looked up in the same slot of
  the larger pool. -/

/-- The slots of the first pool are the first slots of the second. -/
def GrowsTo (pool pool' : ConstantPool) : Prop := pool.slots.toList <+: pool'.slots.toList

/-- Adding a constant grows a pool at its end. -/
theorem growsTo_add (pool : ConstantPool) (constant : Constant) :
    pool.GrowsTo (pool.add constant) :=
  ⟨slotsWith constant, (slots_add pool constant).symm⟩

/-- The slots there were hold what they held. -/
theorem get_of_growsTo {pool pool' : ConstantPool} (hgrows : pool.GrowsTo pool') {index : UInt16}
    (hindex : index.toNat ≤ pool.size) : pool'.get index = pool.get index := by
  unfold get
  by_cases h₀ : index = 0
  · rw [if_pos h₀, if_pos h₀]
  · have hpos := index_pos h₀
    have hlt : index.toNat - 1 < pool.slots.toList.length := by
      rw [Array.length_toList]
      exact show index.toNat - 1 < pool.size by omega
    obtain ⟨added, hslots⟩ := hgrows
    rw [if_neg h₀, if_neg h₀, ← Array.getElem?_toList, ← Array.getElem?_toList, ← hslots,
      List.getElem?_append_left hlt]

/-! ## Answers that stay

  An answer that is not settled has come to an index that the larger pool may have a slot for.
  All other answers are made of slots that are there, and they are the same. -/

section
variable {pool : ConstantPool} {α β : Type}

/-- The answer is not a failure at an index behind the last slot. -/
def Settled (pool : ConstantPool) : Except ReferenceError α → Prop
  | .error (.outOfRange index) => index.toNat ≤ pool.size
  | .error (.unexpectedTag _ _ _) | .ok _ => True

/-- The one answer that a larger pool may revise is that an index is out of range. -/
theorem not_settled_iff {answer : Except ReferenceError α} : ¬ pool.Settled answer ↔
    ∃ index, answer = .error (.outOfRange index) ∧ pool.size < index.toNat := by
  constructor
  · intro h
    match answer with
    | .ok a => exact absurd trivial h
    | .error (.unexpectedTag _ _ _) => exact absurd trivial h
    | .error (.outOfRange index) => exact ⟨index, rfl, Nat.lt_of_not_le h⟩
  · rintro ⟨index, rfl, hlt⟩
    exact Nat.not_le_of_lt hlt

/-- An answer of the pool, if it is settled, is also the other answer. -/
def Kept (pool : ConstantPool) (answer answer' : Except ReferenceError α) : Prop :=
  pool.Settled answer → answer' = answer

/-- An answer that does not ask the pool is kept. -/
theorem Kept.refl (answer : Except ReferenceError α) : pool.Kept answer answer := fun _ => rfl

/-- A settled answer stays the answer. -/
theorem Kept.eq {answer answer' known : Except ReferenceError α} (hkept : pool.Kept answer answer')
    (h : answer = known) (hsettled : pool.Settled known) : answer' = known := by
  rw [← h] at hsettled ⊢
  exact hkept hsettled

/-- What goes on from an answer is kept if the answer is, and what follows it. -/
theorem Kept.bind {first first' : Except ReferenceError α}
    {next next' : α → Except ReferenceError β}
    (hfirst : pool.Kept first first') (hnext : ∀ a, pool.Kept (next a) (next' a)) :
    pool.Kept (first >>= next) (first' >>= next') := by
  intro hsettled
  -- a failure of the first is the failure of both, and it is settled if theirs is
  cases first with
  | error e =>
    have hsame : first' = .error e := by
      apply hfirst
      cases e <;> exact hsettled
    rw [hsame]
    rfl
  | ok a =>
    have hsame : first' = .ok a := hfirst trivial
    rw [hsame]
    exact hnext a hsettled

end

/-! ## Queries

  Each query is a look-up followed by others, on which it depends only through the constant that
  was found.  So each is kept by the rule for a step and what follows it. -/

section
variable {pool pool' : ConstantPool} (hgrows : pool.GrowsTo pool')
include hgrows

/-- A slot that is there is looked up with the same result. -/
theorem kept_get (index : UInt16) : pool.Kept (pool.get index) (pool'.get index) := by
  intro hsettled
  -- an index behind the last slot is not settled
  rcases Nat.lt_or_ge pool.size index.toNat with hlt | hle
  · have habsent := get_eq_error_iff.mpr (Or.inr (Or.inl hlt))
    exact absurd hsettled (not_settled_iff.mpr ⟨index, habsent, hlt⟩)
  · exact get_of_growsTo hgrows hle

/-- A text is looked up in one slot. -/
theorem kept_utf8 (index : UInt16) : pool.Kept (pool.utf8 index) (pool'.utf8 index) := by
  refine Kept.bind (kept_get hgrows index) fun c => ?_
  cases c <;> exact .refl _

/-- The name of a class is looked up behind one reference. -/
theorem kept_className (index : UInt16) :
    pool.Kept (pool.className index) (pool'.className index) := by
  refine Kept.bind (kept_get hgrows index) fun c => ?_
  cases c with
  | classRef name => exact kept_utf8 hgrows name
  | _ => exact .refl _

/-- So is the text of a string. -/
theorem kept_string (index : UInt16) : pool.Kept (pool.string index) (pool'.string index) := by
  refine Kept.bind (kept_get hgrows index) fun c => ?_
  cases c with
  | string value => exact kept_utf8 hgrows value
  | _ => exact .refl _

/-- A name and a descriptor are looked up behind one reference each. -/
theorem kept_nameAndType (index : UInt16) :
    pool.Kept (pool.nameAndType index) (pool'.nameAndType index) := by
  refine Kept.bind (kept_get hgrows index) fun c => ?_
  cases c with
  | nameAndType name descriptor =>
    refine Kept.bind (kept_utf8 hgrows name) fun nameText => ?_
    exact Kept.bind (kept_utf8 hgrows descriptor) fun descriptorText => .refl _
  | _ => exact .refl _

/-- A member is looked up behind two references, the first of which goes further. -/
theorem kept_member (owner nameAndType : UInt16) :
    pool.Kept (pool.member owner nameAndType) (pool'.member owner nameAndType) := by
  refine Kept.bind (kept_nameAndType hgrows nameAndType) fun n => ?_
  exact Kept.bind (kept_className hgrows owner) fun className => .refl _

/-- Each kind of reference is followed through lookups of these kinds. -/
theorem kept_project (r : Projection) (index : UInt16) :
    pool.Kept (pool.project r index) (pool'.project r index) := by
  cases r with
  | utf8 => exact kept_utf8 hgrows index
  | className => exact kept_className hgrows index
  | string => exact kept_string hgrows index
  | nameAndType => exact kept_nameAndType hgrows index
  | field =>
    refine Kept.bind (kept_get hgrows index) fun c => ?_
    cases c with
    | fieldRef owner nameAndType => exact kept_member hgrows owner nameAndType
    | _ => exact .refl _
  | method =>
    refine Kept.bind (kept_get hgrows index) fun c => ?_
    cases c with
    | methodRef owner nameAndType => exact kept_member hgrows owner nameAndType
    | _ => exact .refl _
  | interfaceMethod =>
    refine Kept.bind (kept_get hgrows index) fun c => ?_
    cases c with
    | interfaceMethodRef owner nameAndType => exact kept_member hgrows owner nameAndType
    | _ => exact .refl _
  | member =>
    refine Kept.bind (kept_get hgrows index) fun c => ?_
    cases c with
    | fieldRef owner nameAndType
    | methodRef owner nameAndType
    | interfaceMethodRef owner nameAndType => exact kept_member hgrows owner nameAndType
    | _ => exact .refl _

/-- The text of a constant is made of what its references lead to. -/
theorem kept_constantText (c : Constant) :
    pool.Kept (pool.constantText c) (pool'.constantText c) := by
  cases c with
  | utf8 | integer | float | long | double => exact .refl _
  | classRef index | string index | methodType index | moduleRef index | packageRef index =>
    exact kept_utf8 hgrows index
  | fieldRef owner nameAndType
  | methodRef owner nameAndType
  | interfaceMethodRef owner nameAndType =>
    exact Kept.bind (kept_member hgrows owner nameAndType) fun m => .refl _
  | nameAndType name descriptor =>
    refine Kept.bind (kept_utf8 hgrows name) fun nameText => ?_
    exact Kept.bind (kept_utf8 hgrows descriptor) fun descriptorText => .refl _
  | methodHandle kind member =>
    exact Kept.bind (kept_project hgrows .member member) fun m => .refl _
  | dynamic bootstrap nameAndType | invokeDynamic bootstrap nameAndType =>
    exact Kept.bind (kept_nameAndType hgrows nameAndType) fun n => .refl _

end

/-- What a pool can be asked about an index. -/
inductive Query where
  | get | text
  | projection (r : Projection)
deriving DecidableEq, Repr

/-- What the answer to a query is made of. -/
@[reducible] def Query.Answer : Query → Type
  | .get => Constant
  | .text => String
  | .projection r => r.Value

/-- The answer of the pool to a query. -/
def answer (pool : ConstantPool) : (q : Query) → UInt16 → Except ReferenceError q.Answer
  | .get => pool.get
  | .text => pool.text
  | .projection r => pool.project r

/-- Each of the queries is one of these lookups. -/
theorem kept_answer {pool pool' : ConstantPool} (hgrows : pool.GrowsTo pool') (q : Query)
    (index : UInt16) : pool.Kept (pool.answer q index) (pool'.answer q index) := by
  cases q with
  | get => exact kept_get hgrows index
  | text => exact Kept.bind (kept_get hgrows index) fun c => kept_constantText hgrows c
  | projection r => exact kept_project hgrows r index

/-! ## Adding constants -/

/-- The second pool answers every query as the first does, up to failures of the first at an index
    behind its last slot. -/
structure KeepsAnswers (pool pool' : ConstantPool) : Prop where
  /-- Values stay. -/
  value : ∀ q index a, pool.answer q index = .ok a → pool'.answer q index = .ok a
  /-- A constant of another kind than the one wanted stays one. -/
  unexpectedTag : ∀ q index culprit expected found,
    pool.answer q index = .error (.unexpectedTag culprit expected found) →
    pool'.answer q index = .error (.unexpectedTag culprit expected found)
  /-- An index that leads nowhere for another reason than that the pool ends before it still leads
      nowhere. -/
  outOfRange : ∀ q index (culprit : UInt16), culprit.toNat ≤ pool.size →
    pool.answer q index = .error (.outOfRange culprit) →
    pool'.answer q index = .error (.outOfRange culprit)
  /-- What changes has been a failure at an index behind the last slot. -/
  changed : ∀ q index, pool'.answer q index ≠ pool.answer q index →
    ∃ culprit, pool.answer q index = .error (.outOfRange culprit) ∧ pool.size < culprit.toNat

/-- A pool that grows keeps its answers. -/
theorem GrowsTo.keepsAnswers {pool pool' : ConstantPool} (hgrows : pool.GrowsTo pool') :
    pool.KeepsAnswers pool' where
  value q index _ h := (kept_answer hgrows q index).eq h trivial
  unexpectedTag q index _ _ _ h := (kept_answer hgrows q index).eq h trivial
  outOfRange q index _ hculprit h := (kept_answer hgrows q index).eq h hculprit
  changed q index hchanged := not_settled_iff.mp (mt (kept_answer hgrows q index) hchanged)

/-- **A constant that is added changes no answer but that an index is behind the last slot.** -/
theorem keepsAnswers_add (pool : ConstantPool) (constant : Constant) :
    pool.KeepsAnswers (pool.add constant) :=
  (growsTo_add pool constant).keepsAnswers

/-- A pool in which the name of a class is in place, that of another is the second slot of a long
    constant, a string is a class, and a descriptor is still to come. -/
def unfinished : ConstantPool :=
  ofList [.classRef 2, .utf8 "A", .string 1, .long 7, .classRef 5, .nameAndType 2 8]

/-- The theorem at this pool: only the name and type changes as the descriptor is added. -/
theorem keepsAnswers_add_descriptor :
    (unfinished.add (.utf8 "I")).className 1 = .ok "A" ∧
    (unfinished.add (.utf8 "I")).string 3 = .error (.unexpectedTag 1 .utf8 .classRef) ∧
    (unfinished.add (.utf8 "I")).className 6 = .error (.outOfRange 5) ∧
    unfinished.text 7 = .error (.outOfRange 8) ∧
    (unfinished.add (.utf8 "I")).text 7 = .ok "A:I" ∧
    ∃ culprit, unfinished.text 7 = .error (.outOfRange culprit) ∧
      unfinished.size < culprit.toNat := by
  have h := keepsAnswers_add unfinished (.utf8 "I")
  have hbefore : unfinished.text 7 = .error (.outOfRange 8) := rfl
  have hafter : (unfinished.add (.utf8 "I")).text 7 = .ok "A:I" := rfl
  refine ⟨h.value (.projection .className) 1 _ rfl,
    h.unexpectedTag (.projection .string) 3 _ _ _ rfl,
    h.outOfRange (.projection .className) 6 5 (by decide) rfl, hbefore, hafter,
    h.changed .text 7 ?_⟩
  intro hsame
  exact nomatch hafter.symm.trans (hsame.trans hbefore)

end JavaClass.ConstantPool
