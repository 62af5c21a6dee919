/-
  Accepted byte strings.

  `scan.Accepts p read a` says that the scan, at the offset `p`, passes exactly the bytes `read`
  and yields `a`, whatever follows.  That is the reading of a scan as a format: a scan built by
  `>>=` accepts concatenations (`Accepts.bind`), a check accepts the empty byte string if it holds,
  and `scan.AcceptsAll p read as` is the same for a scan that is run again and again.
-/
import JavaClass.Bytes.Scan

namespace JavaClass.Scan

variable {ε α β : Type} {scan : Scan ε α} {next : α → Scan ε β}

/-- Two scans in a row fail exactly when the first does, or the second does behind it. -/
theorem bind_eq_error {c d : Cursor} {e : ε} :
    (scan >>= next) c = .error e d ↔
      scan c = .error e d ∨ ∃ a c', scan c = .ok a c' ∧ next a c' = .error e d := by
  change EStateM.bind scan next c = _ ↔ _
  unfold EStateM.bind
  cases hs : scan c with
  | ok a c' =>
    constructor
    · intro h
      exact Or.inr ⟨a, c', rfl, h⟩
    · rintro (h | ⟨a', c'', h, hn⟩)
      · nomatch h
      · cases h
        exact hn
  | error e' c' =>
    constructor
    · intro h
      cases h
      exact Or.inl rfl
    · rintro (h | ⟨a', c'', h, hn⟩)
      · cases h
        rfl
      · nomatch h

/-- Renaming failures keeps them failures, and makes no others. -/
theorem mapError_eq_error {ε' : Type} {f : ε → ε'} {c d : Cursor} {e' : ε'} :
    scan.mapError f c = .error e' d ↔ ∃ e, scan c = .error e d ∧ f e = e' := by
  unfold mapError
  cases hs : scan c with
  | ok a c' =>
    constructor
    · intro h
      nomatch h
    · rintro ⟨e, h, -⟩
      nomatch h
  | error e c' =>
    constructor
    · intro h
      cases h
      exact ⟨e, rfl, rfl⟩
    · rintro ⟨e', h, rfl⟩
      cases h
      rfl

/-- Renaming the failures of two scans in a row renames those of each. -/
theorem mapError_bind {ε' : Type} (f : ε → ε') (scan : Scan ε α) (next : α → Scan ε β) :
    mapError f (scan >>= next) = mapError f scan >>= fun a => mapError f (next a) := by
  funext c
  change mapError f (EStateM.bind scan next) c =
    EStateM.bind (mapError f scan) (fun a => mapError f (next a)) c
  simp only [mapError, EStateM.bind]
  cases scan c with
  | ok a d => rfl
  | error e d => rfl

/-- A check fails if its condition does not hold. -/
theorem require_eq_error {condition : Prop} [Decidable condition] {e e' : ε} {c d : Cursor} :
    require condition e c = .error e' d ↔ ¬ condition ∧ e' = e ∧ d = c := by
  unfold require
  split
  · rename_i hc
    constructor
    · intro h
      nomatch h
    · rintro ⟨hne, -⟩
      exact absurd hc hne
  · rename_i hc
    constructor
    · intro h
      cases h
      exact ⟨hc, rfl, rfl⟩
    · rintro ⟨-, rfl, rfl⟩
      rfl

/-! ## Accepted byte strings

  Whatever follows, the bytes are passed and the value is the same.  Where a scan is run in the
  middle of another, this is all that has to be known of it. -/

/-- At the offset `p`, the scan passes exactly the bytes `read` and yields `a`, whatever
    follows. -/
def Accepts (scan : Scan ε α) (p : Nat) (read : List UInt8) (a : α) : Prop :=
  ∀ more, scan ⟨read ++ more, p⟩ = .ok a ⟨more, p + read.length⟩

/-- An accepted byte string is passed wherever it is met. -/
theorem Accepts.run {p : Nat} {read : List UInt8} {a : α} (h : scan.Accepts p read a)
    {c d : Cursor} (hp : c.position = p) (hr : c.Reaches d read) : scan c = .ok a d := by
  have hrun := h d.rest
  rw [← hr.1, ← hp, ← hr.2] at hrun
  exact hrun

/-- What two scans in a row pass is what the one passes, followed by what the other passes. -/
theorem Accepts.bind {p : Nat} {first second : List UInt8} {a : α} {b : β}
    (h₁ : scan.Accepts p first a) (h₂ : (next a).Accepts (p + first.length) second b) :
    (scan >>= next).Accepts p (first ++ second) b := by
  intro more
  refine bind_eq_ok.mpr ⟨a, ⟨second ++ more, p + first.length⟩, ?_, ?_⟩
  · rw [List.append_assoc]
    exact h₁ (second ++ more)
  · rw [List.length_append, ← Nat.add_assoc]
    exact h₂ more

/-- A scan that stays where it is accepts nothing but the empty byte string. -/
theorem accepts_of_still {p : Nat} {read : List UInt8} {a b : α}
    (h : ∀ c : Cursor, c.position = p → scan c = .ok a c) :
    scan.Accepts p read b ↔ read = [] ∧ b = a := by
  constructor
  · intro hb
    have hrun := hb []
    rw [h _ rfl] at hrun
    injection hrun with ha hc
    have hread : read ++ [] = [] := congrArg Cursor.rest hc
    exact ⟨(List.append_eq_nil_iff.mp hread).1, ha.symm⟩
  · rintro ⟨rfl, rfl⟩ more
    exact h _ rfl

/-- A scan that fails at an offset accepts nothing there. -/
theorem not_accepts_of_error {p : Nat} {read : List UInt8} {b : α} {e : ε}
    (h : ∀ c : Cursor, ∃ d, scan c = .error e d) : ¬ scan.Accepts p read b := by
  intro hb
  obtain ⟨d, hd⟩ := h ⟨read ++ [], p⟩
  rw [hb []] at hd
  nomatch hd

/-- To yield a value takes no bytes. -/
@[simp] theorem accepts_pure {p : Nat} {read : List UInt8} {a b : α} :
    (Pure.pure a : Scan ε α).Accepts p read b ↔ read = [] ∧ b = a :=
  accepts_of_still fun _ _ => rfl

/-- To ask for the offset takes no bytes. -/
@[simp] theorem accepts_position {p : Nat} {read : List UInt8} {n : Nat} :
    (position : Scan ε Nat).Accepts p read n ↔ read = [] ∧ n = p :=
  accepts_of_still fun c hc => by rw [position, hc]

/-- To look for a value takes no bytes, but there must be one. -/
@[simp] theorem accepts_ofOption {e : ε} {value : Option α} {p : Nat} {read : List UInt8}
    {a : α} : (ofOption e value).Accepts p read a ↔ read = [] ∧ value = some a := by
  cases value with
  | some b =>
    rw [Option.some_inj, eq_comm (a := b)]
    exact accepts_pure
  | none =>
    constructor
    · intro h
      exact absurd h (not_accepts_of_error fun c => ⟨c, rfl⟩)
    · rintro ⟨-, h⟩
      nomatch h

/-- To take over a result takes no bytes, but it must be no failure. -/
@[simp] theorem accepts_ofExcept {result : Except ε α} {p : Nat} {read : List UInt8} {a : α} :
    (ofExcept result).Accepts p read a ↔ read = [] ∧ result = .ok a := by
  cases result with
  | ok b =>
    rw [Except.ok.injEq, eq_comm (a := b)]
    exact accepts_pure
  | error e =>
    constructor
    · intro h
      exact absurd h (not_accepts_of_error fun c => ⟨c, rfl⟩)
    · rintro ⟨-, h⟩
      nomatch h

/-! ## Steps that pass nothing

  What is accepted behind such a step is what is accepted without it, given what the step says. -/

/-- What follows is told the offset. -/
theorem accepts_position_bind {next : Nat → Scan ε β} {p : Nat} {read : List UInt8} {b : β} :
    (position >>= next).Accepts p read b ↔ (next p).Accepts p read b := Iff.rfl

/-- What follows is told the value that was found. -/
theorem accepts_ofOption_bind {e : ε} {value : Option α} {p : Nat} {read : List UInt8} {b : β} :
    (ofOption e value >>= next).Accepts p read b ↔
      ∃ a, value = some a ∧ (next a).Accepts p read b := by
  cases value with
  | some a =>
    constructor
    · intro h
      exact ⟨a, rfl, h⟩
    · rintro ⟨a', ha, h⟩
      cases ha
      exact h
  | none =>
    constructor
    · intro h
      exact absurd h (not_accepts_of_error fun c => ⟨c, rfl⟩)
    · rintro ⟨a, ha, -⟩
      nomatch ha

/-- What follows is told the value of the result. -/
theorem accepts_ofExcept_bind {result : Except ε α} {p : Nat} {read : List UInt8} {b : β} :
    (ofExcept result >>= next).Accepts p read b ↔
      ∃ a, result = .ok a ∧ (next a).Accepts p read b := by
  cases result with
  | ok a =>
    constructor
    · intro h
      exact ⟨a, rfl, h⟩
    · rintro ⟨a', ha, h⟩
      cases ha
      exact h
  | error e =>
    constructor
    · intro h
      exact absurd h (not_accepts_of_error fun c => ⟨c, rfl⟩)
    · rintro ⟨a, ha, -⟩
      nomatch ha

/-- What follows may rely on the condition. -/
theorem accepts_require_bind {condition : Prop} [Decidable condition] {e : ε}
    {next : Unit → Scan ε β} {p : Nat} {read : List UInt8} {b : β} :
    (require condition e >>= next).Accepts p read b ↔
      condition ∧ (next ()).Accepts p read b := by
  -- if the condition fails, so does the check, and nothing is accepted behind it
  by_cases hc : condition
  · rw [require, if_pos hc]
    exact ⟨fun h => ⟨hc, h⟩, fun h => h.2⟩
  · rw [require, if_neg hc]
    constructor
    · intro h
      exact absurd h (not_accepts_of_error fun c => ⟨c, rfl⟩)
    · rintro ⟨h, -⟩
      exact absurd h hc

/-! ## Runs of accepted byte strings

  A list is read by running a scan again and again.  Each run has bytes of its own, and an offset
  within all of them falls between two runs or inside one. -/

/-- `scan.AcceptsAll p read as`: from the offset `p`, run after run of the scan passes the bytes
    `read` and yields the values `as`. -/
def AcceptsAll (scan : Scan ε α) : Nat → List UInt8 → List α → Prop
  | _, read, [] => read = []
  | p, read, a :: as => ∃ first rest,
      read = first ++ rest ∧ scan.Accepts p first a ∧ scan.AcceptsAll (p + first.length) rest as

/-- Values that are accepted at every offset are accepted one after the other. -/
theorem acceptsAll_flatMap {layout : α → List UInt8} {as : List α}
    (h : ∀ a ∈ as, ∀ p, scan.Accepts p (layout a) a) (p : Nat) :
    scan.AcceptsAll p (as.flatMap layout) as := by
  induction as generalizing p with
  | nil => rfl
  | cons a as ih =>
    refine ⟨layout a, as.flatMap layout, List.flatMap_cons, h a List.mem_cons_self p, ?_⟩
    exact ih (fun b hb => h b (List.mem_cons_of_mem a hb)) _

/-- If each value is accepted as one byte string at every offset, so is each list of values. -/
theorem acceptsAll_iff {layout : α → List UInt8}
    (h : ∀ {p read a}, scan.Accepts p read a ↔ read = layout a) {p : Nat} {read : List UInt8}
    {as : List α} : scan.AcceptsAll p read as ↔ read = as.flatMap layout := by
  constructor
  · intro ha
    -- induction on the values: the bytes of each are known from it
    induction as generalizing p read with
    | nil => exact ha
    | cons a as ih =>
      obtain ⟨first, rest, rfl, hfirst, hrest⟩ := ha
      rw [h.mp hfirst, ih hrest, List.flatMap_cons]
  · rintro rfl
    exact acceptsAll_flatMap (fun a _ p => h.mpr rfl) p

/-- Where the offset `n` falls in a run of accepted byte strings: between two of them, or inside
    one. -/
inductive CutAt (scan : Scan ε α) (p n : Nat) : List UInt8 → List α → Prop
  | between {first rest : List UInt8} {before after : List α} (length : first.length = n)
    (front : scan.AcceptsAll p first before) (back : scan.AcceptsAll (p + n) rest after) :
    CutAt scan p n (first ++ rest) (before ++ after)
  | inside {first around rest : List UInt8} {before after : List α} {a : α}
    (start : first.length < n) (stop : n < first.length + around.length)
    (front : scan.AcceptsAll p first before) (middle : scan.Accepts (p + first.length) around a)
    (back : scan.AcceptsAll (p + first.length + around.length) rest after) :
    CutAt scan p n (first ++ (around ++ rest)) (before ++ a :: after)

/-- An offset within a run of accepted byte strings falls somewhere. -/
theorem AcceptsAll.cutAt {p n : Nat} {read : List UInt8} {as : List α}
    (h : scan.AcceptsAll p read as) (hn : n ≤ read.length) : scan.CutAt p n read as := by
  -- induction on the values, with the offset counted from the current one
  induction as generalizing p n read with
  | nil =>
    obtain rfl : read = [] := h
    obtain rfl : n = 0 := Nat.le_zero.mp hn
    exact @CutAt.between _ _ scan p 0 [] [] [] [] rfl rfl rfl
  | cons a as ih =>
    obtain ⟨head, tail, rfl, ha, htail⟩ := h
    -- in front of the first byte string, inside it, or behind it
    rcases Nat.eq_zero_or_pos n with rfl | hpos
    · exact @CutAt.between _ _ scan p 0 [] _ [] _ rfl rfl ⟨head, tail, rfl, ha, htail⟩
    rcases Nat.lt_or_ge n head.length with hlt | hge
    · have hstop : n < ([] : List UInt8).length + head.length := by
        rw [List.length_nil, Nat.zero_add]
        exact hlt
      exact @CutAt.inside _ _ scan p n [] head tail [] as a hpos hstop rfl ha htail
    · -- the rest of the run is cut as many bytes further on as the first byte string has
      obtain ⟨m, rfl⟩ : ∃ m, n = head.length + m := ⟨n - head.length, by omega⟩
      rw [List.length_append] at hn
      have hcons : ∀ {first : List UInt8} {before : List α},
          scan.AcceptsAll (p + head.length) first before →
          scan.AcceptsAll p (head ++ first) (a :: before) :=
        fun hfront => ⟨head, _, rfl, ha, hfront⟩
      cases ih htail (show m ≤ tail.length by omega) with
      | between length front back =>
        rw [← List.append_assoc]
        rw [Nat.add_assoc] at back
        exact .between (by rw [List.length_append, length]) (hcons front) back
      | @inside first _ _ _ _ _ start stop front middle back =>
        have hlen : (head ++ first).length = head.length + first.length := List.length_append
        rw [Nat.add_assoc p] at middle back
        rw [← List.append_assoc]
        exact .inside (by omega) (by omega) (hcons front) (by rwa [hlen]) (by rwa [hlen])

/-- Byte strings that are accepted one after the other are accepted by a scan that is run as often
    as there are values. -/
theorem AcceptsAll.timesAfter {p : Nat} {read : List UInt8} {as : List α}
    (h : scan.AcceptsAll p read as) (done : List α) :
    (timesAfter scan done as.length).Accepts p read (done.reverse ++ as) := by
  -- what has been read is kept latest first, so it is turned round in the end
  induction as generalizing p read done with
  | nil =>
    obtain rfl : read = [] := h
    rw [List.append_nil]
    exact accepts_pure.mpr ⟨rfl, rfl⟩
  | cons a as ih =>
    obtain ⟨first, rest, rfl, ha, hrest⟩ := h
    have hnext := ih hrest (a :: done)
    rw [List.reverse_cons, List.append_assoc, List.singleton_append] at hnext
    exact ha.bind hnext

theorem AcceptsAll.times {p : Nat} {read : List UInt8} {as : List α}
    (h : scan.AcceptsAll p read as) : (times as.length scan).Accepts p read as :=
  h.timesAfter []

end JavaClass.Scan
