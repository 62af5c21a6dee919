/-
  The slots of a constant pool.

  A pool is made by adding constants (`ConstantPool.ofList`), and a long or double constant takes
  two slots.  `layout` writes the slots of a list of constants down, and a pool has the slots of the
  constants that it was made of (`slots_ofList`).  So what there is to know about a pool is read
  off the list: its size (`size_ofList`), its constants (`constants_ofList`), and what stands in
  which slot (`getElem?_layout`).
-/
import JavaClass.Proofs.ClassFile.Stored

namespace JavaClass

/-- Long and double constants take up two slots, and no others. -/
theorem Constant.slots_eq_two {constant : Constant} :
    constant.slots = 2 ↔ constant.tag = .long ∨ constant.tag = .double := by
  cases constant <;> simp [Constant.slots, Constant.tag]

namespace ConstantPool

/-! ## Counting slots

  A constant takes one slot or two, so the sum over constants is what their indexes are counted
  by. -/

/-- How many slots constants take together. -/
def slotsOf (constants : List Constant) : Nat := constants.foldr (fun c n => c.slots + n) 0

@[simp] theorem slotsOf_nil : slotsOf [] = 0 := rfl

theorem slotsOf_cons (constant : Constant) (constants : List Constant) :
    slotsOf (constant :: constants) = constant.slots + slotsOf constants := rfl

/-- The slots of two lists in a row add up. -/
theorem slotsOf_append (first second : List Constant) :
    slotsOf (first ++ second) = slotsOf first + slotsOf second := by
  induction first with
  | nil => simp
  | cons constant first ih => rw [List.cons_append, slotsOf_cons, slotsOf_cons, ih, Nat.add_assoc]

theorem slotsOf_concat (front : List Constant) (last : Constant) :
    slotsOf (front ++ [last]) = slotsOf front + last.slots := slotsOf_append front [last]

/-! ## The layout of the slots

  The second slot of a constant that takes two is there and empty.  That is why an index may be in
  range and lead nowhere. -/

/-- The slots of one constant: the constant, and what it takes besides. -/
def slotsWith (constant : Constant) : List (Option Constant) :=
  some constant :: List.replicate (constant.slots - 1) none

/-- The slots of constants, one constant behind the other. -/
def layout (constants : List Constant) : List (Option Constant) := constants.flatMap slotsWith

theorem layout_cons (constant : Constant) (constants : List Constant) :
    layout (constant :: constants) = slotsWith constant ++ layout constants := List.flatMap_cons

/-- A constant takes up the slots that it counts. -/
theorem length_slotsWith (constant : Constant) : (slotsWith constant).length = constant.slots := by
  have hpos := constant.slots_pos
  simp only [slotsWith, List.length_cons, List.length_replicate]
  omega

/-- So does a list of constants. -/
theorem length_layout (constants : List Constant) :
    (layout constants).length = slotsOf constants := by
  induction constants with
  | nil => rfl
  | cons constant constants ih =>
    rw [layout_cons, List.length_append, length_slotsWith, ih, slotsOf_cons]

/-- The first slot of a constant holds it, and the second, if there is one, holds nothing. -/
theorem getElem?_slotsWith {constant : Constant} {i : Nat} {slot : Option Constant} :
    (slotsWith constant)[i]? = some slot ↔
      i = 0 ∧ slot = some constant ∨ i = 1 ∧ constant.slots = 2 ∧ slot = none := by
  have hpos := constant.slots_pos
  have htwo := constant.slots_le_two
  cases i with
  | zero => simp [slotsWith, eq_comm]
  | succ i =>
    rw [slotsWith, List.getElem?_cons_succ, List.getElem?_replicate]
    -- behind the first slot there is at most one more
    split
    · rename_i hlt
      have hslots : constant.slots = 2 := by omega
      obtain rfl : i = 0 := by omega
      simp [hslots, eq_comm]
    · rename_i hge
      constructor
      · intro h
        nomatch h
      · rintro (⟨h, -⟩ | ⟨h, hslots, -⟩)
        · omega
        · omega

/-- What stands in a slot belongs to a constant: the slots of those before it lead up to it. -/
theorem getElem?_layout {constants : List Constant} {n : Nat} {slot : Option Constant} :
    (layout constants)[n]? = some slot ↔ ∃ k constant i, constants[k]? = some constant ∧
      n = slotsOf (constants.take k) + i ∧ (slotsWith constant)[i]? = some slot := by
  -- induction on the constants: the slot is one of the first, or it is counted from behind that
  induction constants generalizing n with
  | nil => simp [layout]
  | cons head constants ih =>
    have hlen := length_slotsWith head
    rw [layout_cons]
    constructor
    · intro h
      rcases Nat.lt_or_ge n head.slots with hlt | hge
      · rw [List.getElem?_append_left (by omega)] at h
        exact ⟨0, head, n, rfl, (Nat.zero_add n).symm, h⟩
      · rw [List.getElem?_append_right (by omega), hlen, ih] at h
        obtain ⟨k, constant, i, hk, hn, hi⟩ := h
        refine ⟨k + 1, constant, i, hk, ?_, hi⟩
        rw [List.take_succ_cons, slotsOf_cons]
        omega
    · rintro ⟨k, constant, i, hk, rfl, hi⟩
      cases k with
      | zero =>
        obtain rfl : head = constant := Option.some.inj hk
        have hlt := (List.getElem?_eq_some_iff.mp hi).1
        have hstart : slotsOf ((head :: constants).take 0) + i = i := Nat.zero_add i
        rw [hstart, List.getElem?_append_left hlt]
        exact hi
      | succ k =>
        rw [List.take_succ_cons, slotsOf_cons, List.getElem?_append_right (by omega), hlen]
        exact ih.mpr ⟨k, constant, i, hk, by omega, hi⟩

/-- Leaving the empty slots out leaves the constants. -/
theorem filterMap_layout (constants : List Constant) :
    (layout constants).filterMap id = constants := by
  induction constants with
  | nil => rfl
  | cons constant constants ih =>
    have hfirst : (slotsWith constant).filterMap id = [constant] := by simp [slotsWith]
    rw [layout_cons, List.filterMap_append, ih, hfirst, List.singleton_append]

/-! ## The pool of a list of constants

  Constants are only ever added at the end, so a pool is the layout of its constants, whatever the
  order in which its parts became known. -/

/-- The slots of a constant that is added come behind those that are there. -/
theorem slots_add (pool : ConstantPool) (constant : Constant) :
    (pool.add constant).slots.toList = pool.slots.toList ++ slotsWith constant := by
  simp [add, slotsWith]

/-- Constants that are added one after the other fill the slots behind those there are. -/
theorem slots_foldl_add (constants : List Constant) (pool : ConstantPool) :
    (constants.foldl add pool).slots.toList = pool.slots.toList ++ layout constants := by
  induction constants generalizing pool with
  | nil => simp [layout]
  | cons constant constants ih =>
    rw [List.foldl_cons, ih, slots_add, layout_cons, List.append_assoc]

/-- A pool has the slots of the constants that it was made of. -/
theorem slots_ofList (constants : List Constant) :
    (ofList constants).slots.toList = layout constants := slots_foldl_add constants empty

/-- A pool is as large as the slots of its constants. -/
theorem size_ofList (constants : List Constant) : (ofList constants).size = slotsOf constants := by
  rw [size, ← Array.length_toList, slots_ofList, length_layout]

/-- The constants of a pool are those that it was made of. -/
theorem constants_ofList (constants : List Constant) :
    (ofList constants).constants = constants := by
  -- the number of a slot is dropped again
  have hslots : ∀ pool : ConstantPool, pool.constants = pool.slots.toList.filterMap id := by
    intro pool
    have hslot : ∀ slot : Option Constant × Nat,
        Option.map (fun entry : UInt16 × Constant => entry.2)
          (slot.1.map fun constant => (UInt16.ofNat (slot.2 + 1), constant)) = id slot.1 := by
      rintro ⟨_ | constant, i⟩
      · rfl
      · rfl
    rw [ConstantPool.constants, entries, List.map_filterMap, funext hslot]
    show pool.slots.toList.zipIdx.filterMap (id ∘ Prod.fst) = _
    rw [← List.filterMap_map, List.zipIdx_map_fst]
  rw [hslots, slots_ofList, filterMap_layout]

/-- A pool is determined by its constants and determines them. -/
theorem ofList_inj {first second : List Constant} :
    ofList first = ofList second ↔ first = second := by
  constructor
  · intro h
    rw [← constants_ofList first, h, constants_ofList]
  · rintro rfl
    rfl

end ConstantPool

end JavaClass
