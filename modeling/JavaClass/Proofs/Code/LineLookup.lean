/-
  Looking up the line of an offset.

  The entries are sorted, so an offset is looked for by halving.  `Locates` says what a binary
  search may come to: any entry of the offset, or, if there is none, the gap between the entries
  before the offset and those behind it.  Which of several entries of one offset it finds is left
  open; `search` finds the last (`locates_search`), and what is proved here holds of every choice.

  `Scans` says what a look through the declared entries, sorted or not, would find.  Every answer
  of a search is one of those (`scans_of_mayAnswer`): the entry in front of a gap is the last of
  the sorted list that is not behind the offset, and the sort is stable.  Without two entries of
  one offset, only the entries at or before the offset matter, in whatever order they were
  declared (`Scans.eq_of_same_entries`).
-/
import JavaClass.Proofs.Code.LineNumberTable
import Mathlib.Data.List.Nodup

namespace JavaClass.LineNumberTable

/-! ## What a search may come to

  A binary search that finds several entries of one offset may return any of them.  `Locates`
  allows them all, so that what follows does not depend on how the search halves. -/

/-- `Locates entries pc site`: the offset `pc` lies at `site` among the entries. -/
inductive Locates (entries : List LineEntry) (pc : UInt16) : Site → Prop
  /-- Any entry of the offset. -/
  | entry {index : Nat} {e : LineEntry} (there : entries[index]? = some e) (same : e.pc = pc) :
    Locates entries pc (.entry index)
  /-- No entry is of the offset: those in front of the gap lie before it, the others behind it. -/
  | gap {front back : List LineEntry} (split : entries = front ++ back)
    (before : ∀ e ∈ front, e.pc.toNat < pc.toNat) (behind : ∀ e ∈ back, pc.toNat < e.pc.toNat) :
    Locates entries pc (.gap front.length)

/-- An answer that a table may give, whichever entry of the offset its search comes to. -/
def MayAnswer (table : LineNumberTable) (pc : UInt16) (answer : Option UInt16) : Prop :=
  ∃ site, Locates table.entries pc site ∧ table.lineAt site = answer

/-! ## Halving

  The invariant is that the entries in front of `low` are at or before the offset and those from
  `high` on are behind it.  Each step moves one of the bounds, and in the end they meet. -/

section
variable {table : LineNumberTable} {pc : UInt16} {low high : Nat}

/-- The entries of a table are in order. -/
def Sorted (table : LineNumberTable) : Prop :=
  table.entries.Pairwise fun a b => a.pc.toNat ≤ b.pc.toNat

theorem Sorted.le_of_le (h : table.Sorted) {i j : Nat} {a b : LineEntry} (hij : i ≤ j)
    (ha : table.entries[i]? = some a) (hb : table.entries[j]? = some b) :
    a.pc.toNat ≤ b.pc.toNat := by
  obtain ⟨hi, rfl⟩ := List.getElem?_eq_some_iff.mp ha
  obtain ⟨hj, rfl⟩ := List.getElem?_eq_some_iff.mp hb
  rcases Nat.lt_or_eq_of_le hij with hlt | rfl
  · exact List.pairwise_iff_getElem.mp h i j hi hj hlt
  · exact Nat.le_refl _

/-- The number of entries at or before the offset lies between `low` and `high`. -/
structure Between (table : LineNumberTable) (pc : UInt16) (low high : Nat) : Prop where
  le : low ≤ high
  inside : high ≤ table.entries.length
  front : ∀ i e, i < low → table.entries[i]? = some e → e.pc.toNat ≤ pc.toNat
  back : ∀ i e, high ≤ i → table.entries[i]? = some e → pc.toNat < e.pc.toNat

theorem between_all (table : LineNumberTable) (pc : UInt16) :
    table.Between pc 0 table.entries.length where
  le := Nat.zero_le _
  inside := Nat.le_refl _
  front := fun i _ hi _ => absurd hi (Nat.not_lt_zero i)
  back := fun i e hi he => by
    rw [List.getElem?_eq_none hi] at he
    nomatch he

/-- An entry in between that is not behind the offset takes those in front of it along. -/
theorem Between.raise (h : table.Between pc low high) (hs : table.Sorted) {middle : Nat}
    {e : LineEntry} (hlt : middle < high) (he : table.entries[middle]? = some e)
    (hle : e.pc.toNat ≤ pc.toNat) : table.Between pc (middle + 1) high where
  le := hlt
  inside := h.inside
  front := fun _ _ hi ha => Nat.le_trans (hs.le_of_le (Nat.le_of_lt_succ hi) ha he) hle
  back := h.back

/-- An entry in between that is behind the offset takes those behind it along. -/
theorem Between.lower (h : table.Between pc low high) (hs : table.Sorted) {middle : Nat}
    {e : LineEntry} (hle : low ≤ middle) (hlt : middle < high)
    (he : table.entries[middle]? = some e) (hbehind : pc.toNat < e.pc.toNat) :
    table.Between pc low middle where
  le := hle
  inside := Nat.le_trans (Nat.le_of_lt hlt) h.inside
  front := h.front
  back := fun _ _ hi ha => Nat.lt_of_lt_of_le hbehind (hs.le_of_le hi he ha)

/-- Halving ends with the number of entries at or before the offset. -/
theorem Between.countUpTo (h : table.Between pc low high) (hs : table.Sorted) :
    table.Between pc (table.countUpTo pc low high) (table.countUpTo pc low high) := by
  -- induction on the halving: one bound is moved, or they have met
  fun_induction LineNumberTable.countUpTo table pc low high with
  | case1 low high hlt middle hany ih =>
    obtain ⟨e, he, hle⟩ := (Option.any_eq_true _ _).mp hany
    exact ih (h.raise hs (by omega) he (of_decide_eq_true hle))
  | case2 low high hlt middle hany ih =>
    have hmiddle : middle < table.entries.length := by
      have hinside := h.inside
      omega
    have he := List.getElem?_eq_getElem hmiddle
    refine ih (h.lower hs (by omega) (by omega) he ?_)
    rw [he] at hany
    simpa using hany
  | case3 low high hlt =>
    obtain rfl : low = high := by
      have hle := h.le
      omega
    exact h

/-- The entries from `high` on lie behind the offset. -/
theorem Between.behind (h : table.Between pc low high) :
    ∀ e ∈ table.entries.drop high, pc.toNat < e.pc.toNat := by
  intro e he
  obtain ⟨i, hi⟩ := List.mem_iff_getElem?.mp he
  rw [List.getElem?_drop] at hi
  exact h.back _ e (Nat.le_add_right _ i) hi

/-- The entries in front of `low` lie before the offset, if the last of them is not of it. -/
theorem Between.before {last : Nat} {e : LineEntry} (h : table.Between pc (last + 1) high)
    (hs : table.Sorted) (he : table.entries[last]? = some e) (hne : e.pc ≠ pc) :
    ∀ a ∈ table.entries.take (last + 1), a.pc.toNat < pc.toNat := by
  intro a ha
  obtain ⟨i, hi⟩ := List.mem_iff_getElem?.mp ha
  rw [List.getElem?_take, Option.ite_none_right_eq_some] at hi
  obtain ⟨hlt, hi⟩ := hi
  have hle := hs.le_of_le (Nat.le_of_lt_succ hlt) hi he
  have hlast := h.front last e (Nat.lt_succ_self last) he
  have hne' : e.pc.toNat ≠ pc.toNat := fun hpc => hne (UInt16.toNat_inj.mp hpc)
  omega

/-- The search of a sorted table comes to where the offset lies. -/
theorem locates_search (hs : table.Sorted) (pc : UInt16) :
    Locates table.entries pc (table.search pc) := by
  have h := (table.between_all pc).countUpTo hs
  unfold search
  generalize table.countUpTo pc 0 table.entries.length = count at h
  -- no entry is at or before the offset, or the last of them is looked at
  cases count with
  | zero => exact @Locates.gap _ _ [] table.entries rfl (fun _ he => nomatch he) h.behind
  | succ last =>
    obtain ⟨e, he⟩ : ∃ e, table.entries[last]? = some e := ⟨_, List.getElem?_eq_getElem h.inside⟩
    dsimp only
    rw [he, Option.any_some]
    split
    · rename_i hsame
      exact .entry he (of_decide_eq_true hsame)
    · rename_i hother
      have hbefore := h.before hs he fun hpc => hother (decide_eq_true hpc)
      have hgap := Locates.gap (List.take_append_drop (last + 1) table.entries).symm hbefore h.behind
      rwa [List.length_take_of_le h.inside] at hgap

end

/-! ## What the declared entries say

  A search looks at entries that have been sorted.  What it finds is compared here with the
  entries as they were declared, which is all that a reader of the class file sees. -/

/-- The offset `p` is the largest that an entry at or before `pc` has. -/
structure Latest (declared : List LineEntry) (pc p : UInt16) : Prop where
  taken : ∃ e ∈ declared, e.pc = p
  le : p.toNat ≤ pc.toNat
  largest : ∀ e ∈ declared, e.pc.toNat ≤ pc.toNat → e.pc.toNat ≤ p.toNat

/-- `Scans declared pc answer`: a look through the declared entries finds this line of the offset
    `pc`. -/
structure Scans (declared : List LineEntry) (pc : UInt16) (answer : Option UInt16) : Prop where
  /-- There is none exactly if every entry lies behind the offset. -/
  none_iff : answer = none ↔ ∀ e ∈ declared, pc.toNat < e.pc.toNat
  /-- Otherwise it is the line of an entry of the latest offset; and of the one that was declared
      last, if that is not the offset itself. -/
  latest : (¬ ∀ e ∈ declared, pc.toNat < e.pc.toNat) → ∃ p, Latest declared pc p ∧
    (∃ e ∈ declared, e.pc = p ∧ answer = some e.line) ∧
    (p.toNat < pc.toNat →
      ∃ e, (declared.filter (·.pc = p)).getLast? = some e ∧ answer = some e.line)

section
variable {declared other : List LineEntry} {pc pc' p p' : UInt16}

theorem Latest.unique (h : Latest declared pc p) (h' : Latest declared pc p') : p = p' := by
  obtain ⟨e, he, rfl⟩ := h.taken
  obtain ⟨e', he', rfl⟩ := h'.taken
  have hle := h'.largest e he h.le
  have hle' := h.largest e' he' h'.le
  exact UInt16.toNat_inj.mp (Nat.le_antisymm hle hle')

theorem scans_none (h : ∀ e ∈ declared, pc.toNat < e.pc.toNat) : Scans declared pc none where
  none_iff := ⟨fun _ => h, fun _ => rfl⟩
  latest := fun hnot => absurd h hnot

/-- The line of an entry of the offset. -/
theorem scans_of_same {e : LineEntry} (he : e ∈ declared) (hpc : e.pc = pc) :
    Scans declared pc (some e.line) where
  none_iff := by
    refine ⟨fun h => (nomatch h), fun h => ?_⟩
    have hlt := h e he
    rw [hpc] at hlt
    exact absurd hlt (Nat.lt_irrefl _)
  latest := by
    intro _
    refine ⟨pc, ⟨⟨e, he, hpc⟩, Nat.le_refl _, fun _ _ hle => hle⟩, ⟨e, he, hpc, rfl⟩, ?_⟩
    intro hlt
    exact absurd hlt (Nat.lt_irrefl _)

/-- The line of the entry that was declared last of those with the latest offset. -/
theorem scans_of_last {e : LineEntry} (hlatest : Latest declared pc e.pc)
    (hlast : (declared.filter (·.pc = e.pc)).getLast? = some e) :
    Scans declared pc (some e.line) where
  none_iff := by
    refine ⟨fun h => (nomatch h), fun h => ?_⟩
    obtain ⟨a, ha, hpc⟩ := hlatest.taken
    have hlt := h a ha
    rw [hpc] at hlt
    exact absurd hlatest.le (Nat.not_le_of_lt hlt)
  latest := by
    intro _
    have he : e ∈ declared := (List.mem_filter.mp (List.mem_of_getLast? hlast)).1
    exact ⟨e.pc, hlatest, ⟨e, he, rfl, rfl⟩, fun _ => ⟨e, hlast, rfl⟩⟩

/-- Whatever a search of the sorted entries comes to, a look through the declared ones finds. -/
theorem scans_of_mayAnswer {answer : Option UInt16}
    (h : (ofEntries declared).MayAnswer pc answer) : Scans declared pc answer := by
  obtain ⟨site, hsite, rfl⟩ := h
  have hsort := isStableSort_ofEntries declared
  -- an entry of the offset itself, or a gap, in front of which there may be nothing
  cases hsite with
  | @entry index e there same =>
    rw [lineAt, there]
    exact scans_of_same (hsort.mem_iff.mp (List.mem_of_getElem? there)) same
  | @gap front back split before behind =>
    rcases List.eq_nil_or_concat' front with rfl | ⟨front, e, rfl⟩
    · refine scans_none fun a ha => behind a ?_
      rw [← hsort.mem_iff, split] at ha
      exact ha
    · -- the entry in front of the gap is the last one of its offset, and none of a later offset
      -- lies in front of the gap
      have hlast : (ofEntries declared).entries[front.length]? = some e := by
        rw [split, List.append_assoc, List.getElem?_append_right (Nat.le_refl _), Nat.sub_self]
        rfl
      have he : e.pc.toNat < pc.toNat := before e (List.mem_append_right _ List.mem_cons_self)
      have hsorted := hsort.sorted
      rw [split, List.pairwise_append, List.pairwise_append] at hsorted
      obtain ⟨⟨-, -, hfront⟩, -, -⟩ := hsorted
      rw [List.length_append, List.length_singleton, lineAt, hlast]
      refine scans_of_last ⟨⟨e, ?_, rfl⟩, Nat.le_of_lt he, ?_⟩ ?_
      · exact hsort.mem_iff.mp (List.mem_of_getElem? hlast)
      · intro a ha hle
        rw [← hsort.mem_iff, split, List.mem_append, List.mem_append] at ha
        rcases ha with (ha | ha) | ha
        · exact hfront a ha e List.mem_cons_self
        · obtain rfl := List.mem_singleton.mp ha
          exact Nat.le_refl _
        · exact absurd hle (Nat.not_le_of_lt (behind a ha))
      · have hback : back.filter (·.pc = e.pc) = [] := by
          refine List.filter_eq_nil_iff.mpr fun a ha hpc => ?_
          have hlt := behind a ha
          rw [of_decide_eq_true hpc] at hlt
          omega
        rw [← hsort.stable, split, List.filter_append, List.filter_append, hback, List.append_nil,
          filter_cons_of_pc_eq rfl, List.filter_nil, List.getLast?_concat]

/-- Without two entries of one offset, the line hangs on the entries at or before the offset, and
    not on their order. -/
theorem Scans.eq_of_same_entries {answer answer' : Option UInt16}
    (h : Scans declared pc answer) (h' : Scans other pc' answer')
    (hdistinct : (declared.map (·.pc)).Nodup)
    (hsame : ∀ e, e ∈ declared ∧ e.pc.toNat ≤ pc.toNat ↔ e ∈ other ∧ e.pc.toNat ≤ pc'.toNat) :
    answer = answer' := by
  -- if there is an entry at or before the offset, it has the latest offset in both lists
  by_cases hnone : ∀ e ∈ declared, pc.toNat < e.pc.toNat
  · have hnone' : ∀ e ∈ other, pc'.toNat < e.pc.toNat := by
      refine fun e he => Nat.lt_of_not_le fun hle => ?_
      obtain ⟨hmem, hle⟩ := (hsame e).mpr ⟨he, hle⟩
      exact absurd hle (Nat.not_le_of_lt (hnone e hmem))
    rw [h.none_iff.mpr hnone, h'.none_iff.mpr hnone']
  · obtain ⟨p, hp, ⟨e, he, hpc, rfl⟩, -⟩ := h.latest hnone
    have hnone' : ¬ ∀ e ∈ other, pc'.toNat < e.pc.toNat := by
      intro hall
      obtain ⟨hmem, hle⟩ := (hsame e).mp ⟨he, hpc ▸ hp.le⟩
      exact absurd hle (Nat.not_le_of_lt (hall e hmem))
    obtain ⟨p', hp', ⟨e', he', hpc', rfl⟩, -⟩ := h'.latest hnone'
    obtain ⟨hmem', hle'⟩ := (hsame e').mpr ⟨he', hpc' ▸ hp'.le⟩
    have hmoved : Latest declared pc p' := by
      refine ⟨⟨e', hmem', hpc'⟩, hpc' ▸ hle', fun a ha hle => ?_⟩
      obtain ⟨ha, hle⟩ := (hsame a).mp ⟨ha, hle⟩
      exact hp'.largest a ha hle
    have hpcs : e.pc = e'.pc := by rw [hpc, hpc', hp.unique hmoved]
    rw [List.inj_on_of_nodup_map hdistinct he hmem' hpcs]

end

/-! ## Looking up -/

/-- Looking up lines in the table of the declared entries is a look through these entries. -/
structure LooksThrough (declared : List LineEntry) : Prop where
  /-- The table keeps the declared entries, -/
  kept : (ofEntries declared).entries.Perm declared
  /-- sorted by offset, and those of one offset in their declared order. -/
  order : IsStableSort declared (ofEntries declared).entries
  /-- What is looked up is an answer that the table may give, -/
  lookup : ∀ pc, (ofEntries declared).MayAnswer pc ((ofEntries declared).lookup pc)
  /-- and every such answer is found by a look through the declared entries. -/
  scans : ∀ pc answer, (ofEntries declared).MayAnswer pc answer → Scans declared pc answer
  /-- Without two entries of one offset, the declared order does not matter; -/
  reordered : (declared.map (·.pc)).Nodup → ∀ other, other.Perm declared → ∀ pc answer answer',
    (ofEntries declared).MayAnswer pc answer → (ofEntries other).MayAnswer pc answer' →
      answer' = answer
  /-- and the line is the same from each entry up to the next. -/
  constant : (declared.map (·.pc)).Nodup → ∀ pc pc', pc.toNat ≤ pc'.toNat →
    (∀ e ∈ declared, ¬ (pc.toNat < e.pc.toNat ∧ e.pc.toNat ≤ pc'.toNat)) → ∀ answer answer',
      (ofEntries declared).MayAnswer pc answer → (ofEntries declared).MayAnswer pc' answer' →
        answer' = answer

/-- **Looking up a line is a look through the declared entries.**  Whichever entry of an offset
    the binary search comes to, the table gives the line of an entry of the latest offset at or
    before the one that is asked for, and none exactly if there is no such entry. -/
theorem looksThrough (declared : List LineEntry) : LooksThrough declared where
  kept := List.mergeSort_perm _ _
  order := isStableSort_ofEntries declared
  lookup pc := ⟨_, locates_search (isStableSort_ofEntries declared).sorted pc, rfl⟩
  scans _ _ := scans_of_mayAnswer
  reordered := by
    intro hdistinct other hperm pc answer answer' h h'
    refine ((scans_of_mayAnswer h).eq_of_same_entries (scans_of_mayAnswer h') hdistinct ?_).symm
    intro e
    rw [hperm.mem_iff]
  constant := by
    intro hdistinct pc pc' hle hnone answer answer' h h'
    refine ((scans_of_mayAnswer h).eq_of_same_entries (scans_of_mayAnswer h') hdistinct ?_).symm
    intro e
    refine and_congr_right fun he => ⟨fun h => Nat.le_trans h hle, fun h => ?_⟩
    exact Nat.le_of_not_lt fun hlt => hnone e he ⟨hlt, h⟩

/-- The theorem at a table that declares an offset twice, and at one that does not, in two orders. -/
theorem looksThrough_declared_twice :
    (∀ answer, (ofEntries [⟨4, 1⟩, ⟨12, 5⟩, ⟨4, 2⟩]).MayAnswer 11 answer → answer = some 2) ∧
      (ofEntries [⟨4, 2⟩, ⟨12, 5⟩]).lookup 11 = (ofEntries [⟨12, 5⟩, ⟨4, 2⟩]).lookup 11 ∧
      (ofEntries [⟨12, 5⟩, ⟨4, 2⟩]).lookup 11 = (ofEntries [⟨12, 5⟩, ⟨4, 2⟩]).lookup 4 := by
  refine ⟨fun answer h => ?_, ?_, ?_⟩
  · have hscans := (looksThrough [⟨4, 1⟩, ⟨12, 5⟩, ⟨4, 2⟩]).scans 11 answer h
    obtain ⟨p, hp, -, hlast⟩ := hscans.latest (by decide)
    obtain rfl : p = 4 := hp.unique ⟨by decide, by decide, by decide⟩
    obtain ⟨e, he, rfl⟩ := hlast (by decide)
    have hfilter : ([⟨4, 1⟩, ⟨12, 5⟩, ⟨4, 2⟩] : List LineEntry).filter (·.pc = 4) =
        [⟨4, 1⟩, ⟨4, 2⟩] := by decide
    rw [hfilter] at he
    cases he
    rfl
  · exact (looksThrough [⟨12, 5⟩, ⟨4, 2⟩]).reordered (by decide) [⟨4, 2⟩, ⟨12, 5⟩] (by decide) 11 _ _
      ((looksThrough _).lookup 11) ((looksThrough _).lookup 11)
  · exact (looksThrough [⟨12, 5⟩, ⟨4, 2⟩]).constant (by decide) 4 11 (by decide) (by decide) _ _
      ((looksThrough _).lookup 4) ((looksThrough _).lookup 11)

end JavaClass.LineNumberTable
