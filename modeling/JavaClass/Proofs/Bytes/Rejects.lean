/-
  Rejected byte strings.

  `scan.Rejects p read e` says that the scan, at the offset `p`, fails with `e` on the bytes
  `read`, and not because there are too few of them.  It is the counterpart of `Accepts`, and is
  taken apart alike: two scans in a row reject what the first rejects, and what the first accepts
  with something behind it that the second rejects (`rejects_bind`).  So a failure is traced,
  step by step, to the check that it comes from and to the bytes in front of that check.

  Most scans check nothing: numbers and byte strings are taken as they are.  Such a scan is
  `Unchecked`, and drops out of the trace.
-/
import JavaClass.Proofs.Bytes.Numbers

namespace JavaClass.Scan

open BigEndian (signedBytes)

section
variable {ε α β : Type} [EndOfData ε] {scan : Scan ε α} {next : α → Scan ε β} {p : Nat}
  {read : List UInt8} {e : ε}

/-- At the offset `p`, the scan fails with `e` on the bytes `read`, not for lack of input. -/
def Rejects (scan : Scan ε α) (p : Nat) (read : List UInt8) (e : ε) : Prop :=
  ¬ IsShortage e ∧ ∃ d, scan ⟨read, p⟩ = .error e d

/-- A scan that fails only for lack of input. -/
def Unchecked (scan : Scan ε α) : Prop :=
  ∀ c e d, scan c = .error e d → IsShortage e

/-- What checks nothing rejects nothing. -/
theorem Unchecked.not_rejects (h : Unchecked scan) : ¬ scan.Rejects p read e := by
  rintro ⟨hshort, d, hd⟩
  exact hshort (h _ _ _ hd)

/-! ## Steps in a row

  A lack of input is no rejection, so a scan that checks nothing cannot reject.  It only says
  which bytes stand in front of the next check. -/

/-- Two scans in a row reject what the first rejects, and what the second rejects behind bytes that
    the first accepts. -/
theorem rejects_bind (h : Incremental scan) :
    (scan >>= next).Rejects p read e ↔ scan.Rejects p read e ∨
      ∃ first rest a, read = first ++ rest ∧ scan.Accepts p first a ∧
        (next a).Rejects (p + first.length) rest e := by
  constructor
  · rintro ⟨hshort, d, hd⟩
    -- the first fails, or it has passed bytes and the second fails behind them
    rcases bind_eq_error.mp hd with hd | ⟨a, c, hc, hd⟩
    · exact Or.inl ⟨hshort, d, hd⟩
    · obtain ⟨first, hr, ha⟩ := h.accepts hc
      have hbehind : c = ⟨c.rest, p + first.length⟩ := by rw [← hr.2]
      rw [hbehind] at hd
      exact Or.inr ⟨first, c.rest, a, hr.1, ha, hshort, d, hd⟩
  · rintro (⟨hshort, d, hd⟩ | ⟨first, rest, a, rfl, ha, hshort, d, hd⟩)
    · exact ⟨hshort, d, bind_eq_error.mpr (Or.inl hd)⟩
    · exact ⟨hshort, d, bind_eq_error.mpr (Or.inr ⟨a, _, ha rest, hd⟩)⟩

/-- In front of a check, a scan that checks nothing only passes bytes. -/
theorem Unchecked.rejects_bind (hu : Unchecked scan) (hi : Incremental scan) :
    (scan >>= next).Rejects p read e ↔ ∃ first rest a, read = first ++ rest ∧
      scan.Accepts p first a ∧ (next a).Rejects (p + first.length) rest e := by
  rw [Scan.rejects_bind hi]
  exact or_iff_right hu.not_rejects

/-- To yield a value takes no check. -/
theorem unchecked_pure (a : α) : Unchecked (pure a : Scan ε α) := fun _ _ _ h => nomatch h

/-- Two scans in a row check nothing if neither does. -/
theorem Unchecked.bind (h₁ : Unchecked scan) (h₂ : ∀ a, Unchecked (next a)) :
    Unchecked (scan >>= next) := by
  intro c e d h
  rcases bind_eq_error.mp h with h | ⟨a, c', -, h⟩
  · exact h₁ _ _ _ h
  · exact h₂ a _ _ _ h

/-- Changing the value of a scan does not change what it rejects. -/
theorem rejects_map (h : Incremental scan) {f : α → β} :
    (scan >>= fun a => pure (f a)).Rejects p read e ↔ scan.Rejects p read e := by
  rw [Scan.rejects_bind h]
  refine or_iff_left ?_
  rintro ⟨first, rest, a, -, -, hpure⟩
  exact (unchecked_pure (f a)).not_rejects hpure

/-! ## Checks

  A check takes no bytes and fails with what it was given.  So it is where the trace of a failure
  ends. -/

theorem unchecked_position : Unchecked (position : Scan ε Nat) :=
  fun _ _ _ h => nomatch h

/-- Only what follows can reject, and it is told the offset. -/
theorem rejects_position_bind {next : Nat → Scan ε β} :
    (position >>= next).Rejects p read e ↔ (next p).Rejects p read e := Iff.rfl

/-- A result is rejected as the failure it is, and otherwise what follows decides. -/
theorem rejects_ofExcept_bind {result : Except ε α}
    (hr : ∀ e, result = .error e → ¬ IsShortage e) :
    (ofExcept result >>= next).Rejects p read e ↔
      result = .error e ∨ ∃ a, result = .ok a ∧ (next a).Rejects p read e := by
  cases result with
  | ok a =>
    constructor
    · intro h
      exact Or.inr ⟨a, rfl, h⟩
    · rintro (ha | ⟨a', ha, h⟩)
      · nomatch ha
      · cases ha
        exact h
  | error e' =>
    constructor
    · rintro ⟨-, d, hd⟩
      cases hd
      exact Or.inl rfl
    · rintro (ha | ⟨a, ha, -⟩)
      · cases ha
        exact ⟨hr _ rfl, _, rfl⟩
      · nomatch ha

/-- A check rejects with its own failure, and otherwise what follows decides. -/
theorem rejects_require_bind {condition : Prop} [Decidable condition] {failure : ε}
    (hf : ¬ IsShortage failure) {next : Unit → Scan ε β} :
    (require condition failure >>= next).Rejects p read e ↔
      (¬ condition ∧ e = failure) ∨ condition ∧ (next ()).Rejects p read e := by
  by_cases hc : condition
  · rw [require, if_pos hc]
    constructor
    · intro h
      exact Or.inr ⟨hc, h⟩
    · rintro (⟨hno, -⟩ | ⟨-, h⟩)
      · exact absurd hc hno
      · exact h
  · rw [require, if_neg hc]
    constructor
    · rintro ⟨-, d, hd⟩
      cases hd
      exact Or.inl ⟨hc, rfl⟩
    · rintro (⟨-, rfl⟩ | ⟨hyes, -⟩)
      · exact ⟨hf, _, rfl⟩
      · exact absurd hyes hc

/-! ## Repetition -/

/-- To repeat a scan that checks nothing checks nothing. -/
theorem Unchecked.timesAfter (h : Unchecked scan) (done : List α) (n : Nat) :
    Unchecked (timesAfter scan done n) := by
  induction n generalizing done with
  | zero => exact unchecked_pure _
  | succ n ih => exact h.bind fun a => ih (a :: done)

theorem Unchecked.times (h : Unchecked scan) (n : Nat) : Unchecked (times n scan) :=
  h.timesAfter [] n

/-- A repeated scan rejects what the scan rejects behind fewer accepted byte strings than it is
    repeated. -/
theorem rejects_times (h : Incremental scan) {n : Nat} :
    (Scan.times n scan).Rejects p read e ↔ ∃ first rest before, read = first ++ rest ∧
      before.length < n ∧ scan.AcceptsAll p first before ∧
        scan.Rejects (p + first.length) rest e := by
  -- the values read so far have no say, so the induction is over all of them
  have hafter : ∀ (n : Nat) (done : List α) (p : Nat) (read : List UInt8),
      (Scan.timesAfter scan done n).Rejects p read e ↔ ∃ first rest before,
        read = first ++ rest ∧ before.length < n ∧ scan.AcceptsAll p first before ∧
          scan.Rejects (p + first.length) rest e := by
    intro n
    induction n with
    | zero =>
      intro done p read
      constructor
      · intro hpure
        exact absurd hpure (unchecked_pure _).not_rejects
      · rintro ⟨first, rest, before, -, hlt, -⟩
        exact absurd hlt (Nat.not_lt_zero _)
    | succ n ih =>
      intro done p read
      rw [Scan.timesAfter, rejects_bind h]
      constructor
      · -- rejected at once, or behind one more accepted byte string
        rintro (hnow | ⟨first, rest, a, rfl, ha, hlater⟩)
        · exact ⟨[], read, [], rfl, Nat.zero_lt_succ n, rfl, hnow⟩
        · obtain ⟨first', rest', before, rfl, hlt, hall, hrej⟩ := (ih _ _ _).mp hlater
          refine ⟨first ++ first', rest', a :: before, (List.append_assoc ..).symm,
            Nat.succ_lt_succ hlt, ⟨first, first', rfl, ha, hall⟩, ?_⟩
          rwa [List.length_append, ← Nat.add_assoc]
      · rintro ⟨first, rest, before, rfl, hlt, hall, hrej⟩
        cases before with
        | nil =>
          obtain rfl : first = [] := hall
          exact Or.inl hrej
        | cons a before =>
          obtain ⟨head, tail, rfl, ha, htail⟩ := hall
          rw [List.length_append, ← Nat.add_assoc] at hrej
          refine Or.inr ⟨head, tail ++ rest, a, List.append_assoc .., ha, (ih _ _ _).mpr
            ⟨tail, rest, before, rfl, Nat.lt_of_succ_lt_succ hlt, htail, hrej⟩⟩
  exact hafter n [] p read

end

/-! ## The primitives -/

/-- A byte string fails for want of bytes alone. -/
theorem unchecked_bytes (n : Nat) : Unchecked (bytes n) := by
  intro c e d h
  rcases Nat.lt_or_ge c.remaining n with hlt | hge
  · rw [bytes_of_lt hlt] at h
    cases h
    exact ⟨_, _, _, rfl⟩
  · rw [bytes_of_le hge] at h
    nomatch h

/-- So does a word, and each number that is read off one. -/
theorem unchecked_word (width : Nat) : Unchecked (word width) :=
  (unchecked_bytes width).bind fun _ => unchecked_pure _

theorem unchecked_u8 : Unchecked u8 := (unchecked_word 1).bind fun _ => unchecked_pure _
theorem unchecked_u16 : Unchecked u16 := (unchecked_word 2).bind fun _ => unchecked_pure _
theorem unchecked_u32 : Unchecked u32 := (unchecked_word 4).bind fun _ => unchecked_pure _
theorem unchecked_i8 : Unchecked i8 := unchecked_u8.bind fun _ => unchecked_pure _
theorem unchecked_i16 : Unchecked i16 := unchecked_u16.bind fun _ => unchecked_pure _
theorem unchecked_i32 : Unchecked i32 := unchecked_u32.bind fun _ => unchecked_pure _

/-! ## Lifting -/

section
variable {α β : Type} {next : α → Scan ReadError β} {p : Nat} {read : List UInt8} {e : ReadError}

/-- Renaming the failures of a scan keeps a lack of input what it is. -/
theorem Unchecked.lift {scan : Scan ScanError α} (h : Unchecked scan) :
    Unchecked (liftM scan : Scan ReadError α) := by
  intro c e d hc
  obtain ⟨cause, hcause, rfl⟩ := mapError_eq_error.mp hc
  obtain ⟨position, requested, available, hshort⟩ := h _ _ _ hcause
  exact ⟨position, requested, available, ofScan_eq_endOfData.mpr hshort⟩

/-- A reference is rejected for the reason why it leads nowhere. -/
theorem rejects_resolve_bind {result : Except ReferenceError α} :
    (resolve result >>= next).Rejects p read e ↔
      (∃ r, result = .error r ∧ e = .reference r) ∨
        ∃ a, result = .ok a ∧ (next a).Rejects p read e := by
  have hshort : ∀ e, result.mapError ReadError.reference = .error e → ¬ IsShortage e := by
    intro e he
    cases result with
    | ok a => nomatch he
    | error r => exact Except.error.inj he ▸ not_isShortage_reference r
  rw [resolve, rejects_ofExcept_bind hshort]
  cases result with
  | ok a =>
    have hok : (Except.ok a : Except ReferenceError α).mapError ReadError.reference = .ok a := rfl
    simp [hok]
  | error r =>
    have herror : (Except.error r : Except ReferenceError α).mapError ReadError.reference =
        .error (.reference r) := rfl
    simp [herror, eq_comm]

/-! ## A number, and what is read behind it -/

/-- A number is never rejected; what follows it may be, behind the bytes that it is written as. -/
theorem rejects_number_bind {number : Scan ScanError α} {layout : α → List UInt8} {width : Nat}
    (hu : Unchecked number) (hi : Incremental number)
    (hs : ∀ {p : Nat} {read : List UInt8} {a : α}, number.Accepts p read a ↔ read = layout a)
    (hw : ∀ a, (layout a).length = width) :
    (liftM number >>= next).Rejects p read e ↔
      ∃ a rest, read = layout a ++ rest ∧ (next a).Rejects (p + width) rest e := by
  rw [hu.lift.rejects_bind hi.lift]
  constructor
  · rintro ⟨first, rest, a, rfl, ha, h⟩
    obtain rfl := hs.mp (accepts_lift.mp ha)
    rw [hw] at h
    exact ⟨a, rest, rfl, h⟩
  · rintro ⟨a, rest, rfl, h⟩
    rw [← hw a] at h
    exact ⟨layout a, rest, a, rfl, accepts_lift.mpr (hs.mpr rfl), h⟩

end

section
variable {β : Type} {p : Nat} {read : List UInt8} {e : ReadError}

theorem rejects_u16_bind {next : UInt16 → Scan ReadError β} :
    (liftM u16 >>= next).Rejects p read e ↔
      ∃ v rest, read = BigEndian.bytes 2 v.toNat ++ rest ∧ (next v).Rejects (p + 2) rest e :=
  rejects_number_bind unchecked_u16 incremental_u16 accepts_u16 fun _ => BigEndian.length_bytes _ _

theorem rejects_u32_bind {next : UInt32 → Scan ReadError β} :
    (liftM u32 >>= next).Rejects p read e ↔
      ∃ v rest, read = BigEndian.bytes 4 v.toNat ++ rest ∧ (next v).Rejects (p + 4) rest e :=
  rejects_number_bind unchecked_u32 incremental_u32 accepts_u32 fun _ => BigEndian.length_bytes _ _

theorem rejects_i32_bind {next : Int32 → Scan ReadError β} :
    (liftM i32 >>= next).Rejects p read e ↔
      ∃ v rest, read = signedBytes 4 v.toInt ++ rest ∧ (next v).Rejects (p + 4) rest e :=
  rejects_number_bind unchecked_i32 incremental_i32 accepts_i32
    fun _ => BigEndian.length_signedBytes _ _

end

end JavaClass.Scan
