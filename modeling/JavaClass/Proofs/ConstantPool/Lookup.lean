/-
  Looking constants up by their indexes.

  An index is the number of a slot, counted from 1.  `Represents` says that the three ways to get at
  the constants of a pool agree: an index leads to a constant exactly if the slots of the constants
  before it add up to that index, every other index leads nowhere, and going through the entries
  meets each constant once, with the index that it is looked up by.  That holds of every pool whose
  slots can be numbered in 16 bits, and so of every pool that is read off a class file.
-/
import JavaClass.Proofs.ConstantPool.Grammar

namespace JavaClass.ConstantPool

/-! ## Looking up

  There are two outcomes, and an index is in exactly one of them.  The slots are numbered from 0
  and the indexes from 1, which is why zero is treated apart. -/

/-- Every index but zero is the number of a slot, counted from 1. -/
theorem index_pos {index : UInt16} (h : index ≠ 0) : 0 < index.toNat :=
  Nat.pos_of_ne_zero fun h₀ => h (UInt16.toNat_inj.mp h₀)

/-- An index leads to a constant, or it is out of range. -/
theorem get_cases (pool : ConstantPool) (index : UInt16) :
    (∃ constant, pool.get index = .ok constant) ∨ pool.get index = .error (.outOfRange index) := by
  unfold get
  split
  · exact Or.inr rfl
  · split
    · exact Or.inl ⟨_, rfl⟩
    · exact Or.inr rfl

/-- An index leads to what is in its slot; the slot with index 1 is the first. -/
theorem get_eq_ok {pool : ConstantPool} {index : UInt16} {constant : Constant} :
    pool.get index = .ok constant ↔
      index ≠ 0 ∧ pool.slots.toList[index.toNat - 1]? = some (some constant) := by
  -- index zero, a slot with a constant, and any other slot or none
  rw [Array.getElem?_toList, get]
  split
  · rename_i h₀
    constructor
    · intro h
      nomatch h
    · rintro ⟨hne, -⟩
      exact absurd h₀ hne
  · rename_i hne
    split
    · rename_i other hslot
      rw [hslot]
      simp [hne]
    · rename_i hslot
      constructor
      · intro h
        nomatch h
      · rintro ⟨-, h⟩
        exact absurd h (hslot constant)

theorem lt_size_of_getElem? {pool : ConstantPool} {n : Nat} {slot : Option Constant}
    (h : pool.slots.toList[n]? = some slot) : n < pool.size := by
  have hlt := (List.getElem?_eq_some_iff.mp h).1
  rwa [Array.length_toList] at hlt

theorem get_eq_error {pool : ConstantPool} {index : UInt16} :
    pool.get index = .error (.outOfRange index) ↔ ∀ constant, pool.get index ≠ .ok constant := by
  constructor
  · intro h constant hok
    rw [h] at hok
    nomatch hok
  · intro hno
    rcases get_cases pool index with ⟨constant, hok⟩ | herror
    · exact absurd hok (hno constant)
    · exact herror

/-- The indexes that lead nowhere are zero, those behind the last slot and those of empty slots. -/
theorem get_eq_error_iff {pool : ConstantPool} {index : UInt16} :
    pool.get index = .error (.outOfRange index) ↔
      index = 0 ∨ pool.size < index.toNat ∨ pool.slots.toList[index.toNat - 1]? = some none := by
  simp only [get_eq_error, ne_eq, get_eq_ok, not_and]
  constructor
  · intro hno
    -- an index that is not zero has a slot, or lies behind the last one
    rcases Decidable.em (index = 0) with h₀ | hne
    · exact Or.inl h₀
    · refine Or.inr ?_
      cases hslot : pool.slots.toList[index.toNat - 1]? with
      | none =>
        have hge := List.getElem?_eq_none_iff.mp hslot
        have hpos := index_pos hne
        rw [Array.length_toList] at hge
        exact Or.inl (show pool.slots.size < index.toNat by omega)
      | some slot =>
        cases slot with
        | none => exact Or.inr rfl
        | some constant => exact absurd hslot (hno constant hne)
  · rintro (rfl | hlt | hempty) constant hne hslot
    · exact hne rfl
    · have hlt' := lt_size_of_getElem? hslot
      omega
    · rw [hempty] at hslot
      nomatch hslot

/-! ## Going through the entries

  Going through a pool numbers its slots anew, in 16 bits.  As long as the slots can be numbered
  so, no number wraps, and the entries are what looking up finds. -/

/-- An entry is a slot that holds a constant. -/
theorem mem_entries {pool : ConstantPool} {index : UInt16} {constant : Constant} :
    (index, constant) ∈ pool.entries ↔
      ∃ n, pool.slots.toList[n]? = some (some constant) ∧ UInt16.ofNat (n + 1) = index := by
  rw [entries, List.mem_filterMap]
  constructor
  · rintro ⟨⟨slot, n⟩, hmem, hentry⟩
    obtain ⟨other, rfl, heq⟩ := Option.map_eq_some_iff.mp hentry
    cases heq
    exact ⟨n, List.mem_zipIdx_iff_getElem?.mp hmem, rfl⟩
  · rintro ⟨n, hslot, rfl⟩
    exact ⟨(some constant, n), List.mem_zipIdx_iff_getElem?.mpr hslot, rfl⟩

/-- The entries of a pool that can be numbered in 16 bits are what its indexes lead to. -/
theorem mem_entries_iff {pool : ConstantPool} (hsize : pool.size ≤ 65535) {index : UInt16}
    {constant : Constant} :
    (index, constant) ∈ pool.entries ↔ pool.get index = .ok constant := by
  rw [mem_entries, get_eq_ok]
  constructor
  · rintro ⟨n, hslot, rfl⟩
    have hlt := lt_size_of_getElem? hslot
    have hindex : (UInt16.ofNat (n + 1)).toNat = n + 1 :=
      UInt16.toNat_ofNat_of_lt' (show n + 1 < 65536 by omega)
    refine ⟨fun h₀ => ?_, by rwa [hindex, Nat.add_sub_cancel]⟩
    rw [h₀] at hindex
    nomatch hindex
  · rintro ⟨hne, hslot⟩
    have hpos := index_pos hne
    refine ⟨index.toNat - 1, hslot, ?_⟩
    rw [Nat.sub_add_cancel hpos, UInt16.ofNat_toNat]

/-- The entries stand in the order of their indexes. -/
theorem entries_increasing {pool : ConstantPool} (hsize : pool.size ≤ 65535) :
    pool.entries.Pairwise fun a b => a.1.toNat < b.1.toNat := by
  have hrange : pool.slots.toList.zipIdx.Pairwise fun a b => a.2 < b.2 := by
    have hnumbers : (pool.slots.toList.zipIdx.map (·.2)).Pairwise (· < ·) := by
      rw [List.zipIdx_map_snd]
      exact List.pairwise_lt_range'
    exact List.pairwise_map.mp hnumbers
  have hlt : ∀ x ∈ pool.slots.toList.zipIdx, x.2 < pool.size := by
    rintro ⟨slot, n⟩ hmem
    exact lt_size_of_getElem? (List.mem_zipIdx_iff_getElem?.mp hmem)
  rw [entries, List.pairwise_filterMap]
  -- the numbers are those of the slots and one more, which is still a 16-bit number
  refine hrange.imp_of_mem ?_
  rintro ⟨slot, n⟩ ⟨slot', m⟩ hn hm hnm entry hentry entry' hentry'
  have hn := hlt _ hn
  have hm := hlt _ hm
  obtain ⟨_, -, rfl⟩ := Option.map_eq_some_iff.mp hentry
  obtain ⟨_, -, rfl⟩ := Option.map_eq_some_iff.mp hentry'
  simp only at hn hm hnm ⊢
  rw [UInt16.toNat_ofNat_of_lt' (show n + 1 < 65536 by omega),
    UInt16.toNat_ofNat_of_lt' (show m + 1 < 65536 by omega)]
  omega

/-! ## The indexes of constants

  A pool is made by adding constants, each of which takes one slot or two.  What stands in its
  slots is known from that (`getElem?_layout`), and the rest follows by comparing the number of a
  slot with the sum of the slots before it. -/

/-- The index of constant number `k`: one more than the slots before it. -/
def indexAt (constants : List Constant) (k : Nat) : Nat := 1 + slotsOf (constants.take k)

/-- The pool holds the constants at their indexes, and nothing else. -/
structure Represents (pool : ConstantPool) (constants : List Constant) : Prop where
  /-- Its slots are those of the constants. -/
  size : pool.size = slotsOf constants
  /-- The indexes that lead to a constant are those of the constants. -/
  get_ok : ∀ {index : UInt16} {constant : Constant}, pool.get index = .ok constant ↔
    ∃ k, constants[k]? = some constant ∧ index.toNat = indexAt constants k
  /-- All others are out of range. -/
  get_error : ∀ {index : UInt16}, pool.get index = .error (.outOfRange index) ↔
    ∀ k < constants.length, index.toNat ≠ indexAt constants k
  /-- Those are zero, the indexes behind the last slot, and the second slots of long and double
      constants. -/
  unusable : ∀ {index : UInt16}, pool.get index = .error (.outOfRange index) ↔
    index = 0 ∨ pool.size < index.toNat ∨ ∃ k constant, constants[k]? = some constant ∧
      (constant.tag = .long ∨ constant.tag = .double) ∧ index.toNat = indexAt constants k + 1
  /-- The entries are what the indexes lead to. -/
  mem_entries : ∀ {index : UInt16} {constant : Constant},
    (index, constant) ∈ pool.entries ↔ pool.get index = .ok constant
  /-- Each index comes once, in order. -/
  increasing : pool.entries.Pairwise fun a b => a.1.toNat < b.1.toNat

section
variable {constants : List Constant} {index : UInt16}

/-- What stands in the slot with an index belongs to a constant: its own index leads up to it. -/
theorem getElem?_slots_ofList (hne : index ≠ 0) {slot : Option Constant} :
    (ofList constants).slots.toList[index.toNat - 1]? = some slot ↔ ∃ k constant i,
      constants[k]? = some constant ∧ index.toNat = indexAt constants k + i ∧
        (slotsWith constant)[i]? = some slot := by
  have hpos := index_pos hne
  have hshift : ∀ k i, index.toNat - 1 = slotsOf (constants.take k) + i ↔
      index.toNat = indexAt constants k + i := by
    intro k i
    rw [indexAt]
    omega
  rw [slots_ofList, getElem?_layout]
  simp only [hshift]

theorem ne_zero_of_indexAt {k i : Nat} (h : index.toNat = indexAt constants k + i) :
    index ≠ 0 := by
  rintro rfl
  have h : 0 = 1 + slotsOf (constants.take k) + i := h
  omega

/-- Looking up finds a constant at the index that the slots before it add up to. -/
theorem get_ofList {constant : Constant} : (ofList constants).get index = .ok constant ↔
    ∃ k, constants[k]? = some constant ∧ index.toNat = indexAt constants k := by
  rw [get_eq_ok]
  constructor
  · rintro ⟨hne, hslot⟩
    obtain ⟨k, other, i, hk, hindex, hi⟩ := (getElem?_slots_ofList hne).mp hslot
    -- it is the first slot of its constant, since the second is empty
    rcases getElem?_slotsWith.mp hi with ⟨rfl, heq⟩ | ⟨-, -, heq⟩
    · cases heq
      exact ⟨k, hk, hindex⟩
    · nomatch heq
  · rintro ⟨k, hk, hindex⟩
    have hne : index ≠ 0 := ne_zero_of_indexAt (i := 0) hindex
    exact ⟨hne, (getElem?_slots_ofList hne).mpr
      ⟨k, constant, 0, hk, hindex, getElem?_slotsWith.mpr (Or.inl ⟨rfl, rfl⟩)⟩⟩

theorem get_ofList_eq_error : (ofList constants).get index = .error (.outOfRange index) ↔
    ∀ k < constants.length, index.toNat ≠ indexAt constants k := by
  rw [get_eq_error]
  constructor
  · intro hno k hk hindex
    exact hno constants[k] (get_ofList.mpr ⟨k, List.getElem?_eq_getElem hk, hindex⟩)
  · intro hno constant hok
    obtain ⟨k, hk, hindex⟩ := get_ofList.mp hok
    exact hno k (List.getElem?_eq_some_iff.mp hk).1 hindex

/-- The slots without a constant are the second ones of long and double constants. -/
theorem getElem?_slots_ofList_eq_none (hne : index ≠ 0) :
    (ofList constants).slots.toList[index.toNat - 1]? = some none ↔
      ∃ k constant, constants[k]? = some constant ∧
        (constant.tag = .long ∨ constant.tag = .double) ∧
          index.toNat = indexAt constants k + 1 := by
  rw [getElem?_slots_ofList hne]
  constructor
  · rintro ⟨k, constant, i, hk, hindex, hi⟩
    rcases getElem?_slotsWith.mp hi with ⟨-, heq⟩ | ⟨rfl, hslots, -⟩
    · nomatch heq
    · exact ⟨k, constant, hk, Constant.slots_eq_two.mp hslots, hindex⟩
  · rintro ⟨k, constant, hk, htag, hindex⟩
    exact ⟨k, constant, 1, hk, hindex,
      getElem?_slotsWith.mpr (Or.inr ⟨rfl, Constant.slots_eq_two.mpr htag, rfl⟩)⟩

theorem get_ofList_eq_error_iff : (ofList constants).get index = .error (.outOfRange index) ↔
    index = 0 ∨ (ofList constants).size < index.toNat ∨
      ∃ k constant, constants[k]? = some constant ∧
        (constant.tag = .long ∨ constant.tag = .double) ∧
          index.toNat = indexAt constants k + 1 := by
  rw [get_eq_error_iff]
  constructor
  · rintro (h₀ | hlt | hempty)
    · exact Or.inl h₀
    · exact Or.inr (Or.inl hlt)
    · rcases Decidable.em (index = 0) with h₀ | hne
      · exact Or.inl h₀
      · exact Or.inr (Or.inr ((getElem?_slots_ofList_eq_none hne).mp hempty))
  · rintro (h₀ | hlt | hsecond)
    · exact Or.inl h₀
    · exact Or.inr (Or.inl hlt)
    · obtain ⟨k, constant, -, -, hindex⟩ := id hsecond
      exact Or.inr (Or.inr
        ((getElem?_slots_ofList_eq_none (ne_zero_of_indexAt hindex)).mpr hsecond))

end

/-- Every pool that is read was made of constants, and their slots leave one number of 16 bits
    unused. -/
theorem slotsOf_le_of_scan {c d : Cursor} {pool : ConstantPool} (h : scan c = .ok pool d) :
    ∃ constants, pool = ofList constants ∧ slotsOf constants ≤ 65534 := by
  obtain ⟨passed, -, ha⟩ := incremental_pool.accepts h
  obtain ⟨constants, ⟨count, body, -, -, hslots⟩, hpool⟩ := accepts_scan.mp ha
  refine ⟨constants, hpool, ?_⟩
  -- the count is one more than the slots, or there are none
  rcases hslots with hsum | ⟨-, rfl⟩
  · have hlt := count.toNat_lt
    omega
  · exact Nat.zero_le _

/-- **Indexes, slots and entries agree.**  A pool to which constants were added represents them if
    their slots can be numbered in 16 bits, and this holds of every pool that is read. -/
theorem represents_ofList :
    (∀ constants, slotsOf constants ≤ 65535 → (ofList constants).Represents constants) ∧
    ∀ {c d : Cursor} {pool : ConstantPool}, scan c = .ok pool d →
      ∃ constants, slotsOf constants ≤ 65535 ∧ pool = ofList constants := by
  constructor
  · intro constants hslots
    have hsize : (ofList constants).size ≤ 65535 := by rwa [size_ofList]
    exact {
      size := size_ofList constants
      get_ok := get_ofList
      get_error := get_ofList_eq_error
      unusable := get_ofList_eq_error_iff
      mem_entries := mem_entries_iff hsize
      increasing := entries_increasing hsize }
  · intro c d pool h
    obtain ⟨constants, hpool, hslots⟩ := slotsOf_le_of_scan h
    exact ⟨constants, by omega, hpool⟩

/-- The theorem at a pool that is read, with a long constant between two others: index 2 leads to
    it, index 3 nowhere, and index 4 to the constant behind it. -/
theorem represents_ofList_around_long :
    scan (.start [0, 5, 8, 0, 1, 5, 0, 0, 0, 0, 0, 0, 0, 7, 7, 0, 9]) =
      .ok (ofList [.string 1, .long 7, .classRef 9]) ⟨[], 17⟩ ∧
    (∃ constants, slotsOf constants ≤ 65535 ∧
      ofList [.string 1, .long 7, .classRef 9] = ofList constants) ∧
    slotsOf [.string 1, .long 7, .classRef 9] ≤ 65535 ∧
    (ofList [.string 1, .long 7, .classRef 9]).get 2 = .ok (.long 7) ∧
    (ofList [.string 1, .long 7, .classRef 9]).get 3 = .error (.outOfRange 3) ∧
    (4, .classRef 9) ∈ (ofList [.string 1, .long 7, .classRef 9]).entries := by
  have hread : scan (.start [0, 5, 8, 0, 1, 5, 0, 0, 0, 0, 0, 0, 0, 7, 7, 0, 9]) =
      .ok (ofList [.string 1, .long 7, .classRef 9]) ⟨[], 17⟩ := by cbv
  have hslots : slotsOf [.string 1, .long 7, .classRef 9] ≤ 65535 := by decide
  have h := represents_ofList.1 _ hslots
  refine ⟨hread, represents_ofList.2 hread, hslots, h.get_ok.mpr ⟨1, rfl, rfl⟩,
    h.unusable.mpr (Or.inr (Or.inr ⟨1, .long 7, rfl, Or.inl rfl, rfl⟩)),
    h.mem_entries.mpr (h.get_ok.mpr ⟨2, rfl, rfl⟩)⟩

end JavaClass.ConstantPool
