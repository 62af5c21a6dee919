/-
  Line number tables: the order of the entries, and their stored form.

  A table is kept sorted by offset, and entries of one offset keep the order in which they were
  declared.  These two conditions leave one list only (`IsStableSort.unique`), and it is the one
  that is kept (`isStableSort_iff`).  The stored form is a 16-bit count and the entries as they
  were declared, nothing behind them, and no other byte string is a table (`ofBytes?_eq_some`).
-/
import JavaClass.Code.LineNumberTable
import JavaClass.Proofs.Bytes.Numbers

namespace JavaClass

/-! ## The order of the entries -/

/-- `kept` is `declared`, sorted by offset, with entries of one offset in their declared order. -/
structure IsStableSort (declared kept : List LineEntry) : Prop where
  /-- Offsets do not decrease. -/
  sorted : kept.Pairwise fun a b => a.pc.toNat ≤ b.pc.toNat
  /-- The entries of every offset are those that were declared, in that order. -/
  stable : ∀ pc : UInt16, kept.filter (·.pc = pc) = declared.filter (·.pc = pc)

/-- An entry is kept if it is declared. -/
theorem IsStableSort.mem_iff {declared kept : List LineEntry} (h : IsStableSort declared kept)
    {e : LineEntry} : e ∈ kept ↔ e ∈ declared := by
  have hmem : ∀ entries : List LineEntry, e ∈ entries.filter (·.pc = e.pc) ↔ e ∈ entries := by
    intro entries
    rw [List.mem_filter]
    exact and_iff_left (decide_eq_true rfl)
  rw [← hmem kept, h.stable, hmem]

/-- Two stable sorts of a list are stable sorts of each other. -/
theorem IsStableSort.trans_symm {declared first second : List LineEntry}
    (h₁ : IsStableSort declared first) (h₂ : IsStableSort declared second) :
    IsStableSort second first :=
  ⟨h₁.sorted, fun pc => (h₁.stable pc).trans (h₂.stable pc).symm⟩

theorem filter_cons_of_pc_eq {e : LineEntry} {pc : UInt16} (h : e.pc = pc)
    (entries : List LineEntry) :
    (e :: entries).filter (·.pc = pc) = e :: entries.filter (·.pc = pc) :=
  List.filter_cons_of_pos (decide_eq_true h)

theorem filter_cons_of_pc_ne {e : LineEntry} {pc : UInt16} (h : e.pc ≠ pc)
    (entries : List LineEntry) :
    (e :: entries).filter (·.pc = pc) = entries.filter (·.pc = pc) :=
  List.filter_cons_of_neg fun hpc => h (of_decide_eq_true hpc)

/-- Two sorted lists with the same entries of every offset are the same list. -/
theorem eq_of_sorted {first second : List LineEntry} (h : IsStableSort second first)
    (hsecond : second.Pairwise fun a b => a.pc.toNat ≤ b.pc.toNat) : first = second := by
  -- induction on both lists: the heads have one offset, so they are the same entry
  induction first generalizing second with
  | nil =>
    cases second with
    | nil => rfl
    | cons b second =>
      have hb : b ∈ ([] : List LineEntry) := h.mem_iff.mpr List.mem_cons_self
      nomatch hb
  | cons a first ih =>
    cases second with
    | nil =>
      have ha : a ∈ ([] : List LineEntry) := h.mem_iff.mp List.mem_cons_self
      nomatch ha
    | cons b second =>
      -- each head is among the entries of the other list, so neither offset is the smaller one
      have hle : ∀ {x y : LineEntry} {rest : List LineEntry},
          (x :: rest).Pairwise (fun a b => a.pc.toNat ≤ b.pc.toNat) → y ∈ x :: rest →
          x.pc.toNat ≤ y.pc.toNat := by
        intro x y rest hs hy
        rcases List.mem_cons.mp hy with rfl | hy
        · exact Nat.le_refl _
        · exact (List.pairwise_cons.mp hs).1 y hy
      have hab : a.pc.toNat ≤ b.pc.toNat := hle h.sorted (h.mem_iff.mpr List.mem_cons_self)
      have hba : b.pc.toNat ≤ a.pc.toNat := hle hsecond (h.mem_iff.mp List.mem_cons_self)
      have hpc : b.pc = a.pc := UInt16.toNat_inj.mp (by omega)
      have hheads := h.stable a.pc
      rw [filter_cons_of_pc_eq rfl, filter_cons_of_pc_eq hpc] at hheads
      obtain rfl : a = b := (List.cons.inj hheads).1
      have hrest : IsStableSort second first := by
        refine ⟨(List.pairwise_cons.mp h.sorted).2, fun pc => ?_⟩
        have hpcs := h.stable pc
        by_cases ha : a.pc = pc
        · rw [filter_cons_of_pc_eq ha, filter_cons_of_pc_eq ha] at hpcs
          exact (List.cons.inj hpcs).2
        · rwa [filter_cons_of_pc_ne ha, filter_cons_of_pc_ne ha] at hpcs
      rw [ih hrest (List.pairwise_cons.mp hsecond).2]

/-- A list has one stable sort only. -/
theorem IsStableSort.unique {declared first second : List LineEntry}
    (h₁ : IsStableSort declared first) (h₂ : IsStableSort declared second) : first = second :=
  eq_of_sorted (h₁.trans_symm h₂) h₂.sorted

namespace LineNumberTable

/-- The entries are kept in a stable sort of the declared ones. -/
theorem isStableSort_ofEntries (declared : List LineEntry) :
    IsStableSort declared (ofEntries declared).entries := by
  have htrans : ∀ a b c : LineEntry, decide (a.pc.toNat ≤ b.pc.toNat) = true →
      decide (b.pc.toNat ≤ c.pc.toNat) = true → decide (a.pc.toNat ≤ c.pc.toNat) = true := by
    intro a b c hab hbc
    rw [decide_eq_true_eq] at *
    omega
  have htotal : ∀ a b : LineEntry,
      (decide (a.pc.toNat ≤ b.pc.toNat) || decide (b.pc.toNat ≤ a.pc.toNat)) = true := by
    intro a b
    rw [Bool.or_eq_true, decide_eq_true_eq, decide_eq_true_eq]
    omega
  constructor
  case sorted =>
    refine (List.pairwise_mergeSort htrans htotal declared).imp ?_
    intro a b hab
    exact of_decide_eq_true hab
  case stable =>
    intro pc
    -- the entries of one offset are sorted already, so the sort keeps them as a sublist
    have hone : (declared.filter (·.pc = pc)).Pairwise
        fun a b => decide (a.pc.toNat ≤ b.pc.toNat) = true := by
      refine List.pairwise_of_forall_mem_list fun a ha b hb => ?_
      have ha : a.pc = pc := of_decide_eq_true (List.mem_filter.mp ha).2
      have hb : b.pc = pc := of_decide_eq_true (List.mem_filter.mp hb).2
      rw [ha, hb]
      exact decide_eq_true (Nat.le_refl _)
    have hsub := (List.sublist_mergeSort htrans htotal hone List.filter_sublist).filter
      (fun e => decide (e.pc = pc))
    rw [List.filter_filter] at hsub
    simp only [Bool.and_self] at hsub
    have hperm := (List.mergeSort_perm declared fun a b =>
      decide (a.pc.toNat ≤ b.pc.toNat)).filter fun e => decide (e.pc = pc)
    exact (hsub.eq_of_length hperm.length_eq.symm).symm

/-- Being a stable sort of the declared entries singles out the table that is kept. -/
theorem isStableSort_iff {declared kept : List LineEntry} :
    IsStableSort declared kept ↔ ofEntries declared = ⟨kept⟩ := by
  constructor
  · intro h
    rw [h.unique (isStableSort_ofEntries declared)]
  · intro h
    have hkept : (ofEntries declared).entries = kept := congrArg entries h
    exact hkept ▸ isStableSort_ofEntries declared

end LineNumberTable

/-! ## The stored form

  A table is read from the content of an attribute and has to be all of it.  Bytes that are left
  over make it no table, and so does an entry that is cut off. -/

/-- An entry as it is stored. -/
def LineEntry.stored (e : LineEntry) : List UInt8 :=
  BigEndian.bytes 2 e.pc.toNat ++ BigEndian.bytes 2 e.line.toNat

namespace LineNumberTable

open Scan

theorem incremental_scanEntry : Incremental scanEntry :=
  incremental_u16.bind fun _ => incremental_u16.bind fun _ => .pure _

/-- An entry is read off its stored form and nothing else. -/
theorem accepts_scanEntry {p : Nat} {read : List UInt8} {e : LineEntry} :
    scanEntry.Accepts p read e ↔ read = e.stored := by
  rw [scanEntry, accepts_bind incremental_u16]
  constructor
  · rintro ⟨first, second, pc, rfl, hpc, h⟩
    obtain ⟨line, hline, rfl⟩ := (accepts_map incremental_u16).mp h
    rw [accepts_u16.mp hpc, accepts_u16.mp hline]
    rfl
  · rintro rfl
    exact ⟨_, _, e.pc, rfl, accepts_u16_bytes e.pc p,
      (accepts_map incremental_u16).mpr ⟨e.line, accepts_u16_bytes e.line _, rfl⟩⟩

/-- The entries of a table are read off their count and their stored forms. -/
theorem accepts_entries {p : Nat} {read : List UInt8} {declared : List LineEntry} :
    (counted u16 scanEntry).Accepts p read declared ↔ declared.length < 65536 ∧
      read = BigEndian.bytes 2 declared.length ++ declared.flatMap LineEntry.stored := by
  rw [accepts_counted incremental_u16 incremental_scanEntry accepts_u16]
  simp only [acceptsAll_iff accepts_scanEntry]
  constructor
  · rintro ⟨hlen, _, rfl, rfl⟩
    exact ⟨hlen, rfl⟩
  · rintro ⟨hlen, rfl⟩
    exact ⟨hlen, _, rfl, rfl⟩

/-- A byte string is a table if it is the stored form of some entries, and of these the table is
    made. -/
theorem ofBytes?_eq_some {content : List UInt8} {table : LineNumberTable} :
    ofBytes? content = some table ↔ ∃ declared : List LineEntry, declared.length < 65536 ∧
      content = BigEndian.bytes 2 declared.length ++ declared.flatMap LineEntry.stored ∧
        table = ofEntries declared := by
  constructor
  · intro h
    unfold ofBytes? at h
    -- the entries are read, and nothing may be left behind them
    split at h
    · rename_i declared rest hrun
      obtain ⟨hend, htable⟩ := Option.ite_none_right_eq_some.mp h
      obtain ⟨read, hr, ha⟩ := (incremental_u16.counted incremental_scanEntry).accepts hrun
      obtain ⟨hlen, rfl⟩ := accepts_entries.mp ha
      have hcontent := hr.1
      rw [rest.atEnd_iff.mp hend, List.append_nil] at hcontent
      exact ⟨declared, hlen, hcontent, (Option.some.inj htable).symm⟩
    · nomatch h
  · rintro ⟨declared, hlen, rfl, rfl⟩
    have hrun := (@accepts_entries 0 _ declared).mpr ⟨hlen, rfl⟩ []
    rw [List.append_nil] at hrun
    rw [ofBytes?, Cursor.start, hrun]
    rfl

end LineNumberTable

end JavaClass
