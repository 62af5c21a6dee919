/-
  Incremental scans: what a scan does depends only on the bytes that it passes.

  A scan is `Incremental` if

    * it succeeds only by passing an accepted byte string (`JavaClass.Proofs.Bytes.Accepts`);
    * a failure other than a lack of input stays when more bytes arrive;
    * a lack of input is about the end of the input, and stays, with the new bytes counted, until
      as many have arrived as were asked for.

  Every way of building scans keeps this, except looking at the end of the input or at a byte that
  is not passed, so a whole grammar is incremental because its primitives are.  From it come both
  halves of the statement about cut-off inputs: `Incremental.extend_ok` (more bytes change
  nothing) and `Incremental.take_of_accepts` (fewer bytes are a lack of input and nothing else).
  It also makes `Accepts` an equivalence at a `>>=` (`accepts_bind`).
-/
import JavaClass.Proofs.Bytes.Accepts
import JavaClass.ReadError

namespace JavaClass

/-- The place `c` with the bytes `more` added at the end of the input. -/
def Cursor.extend (c : Cursor) (more : List UInt8) : Cursor := ⟨c.rest ++ more, c.position⟩

/-- Passing bytes leads to the same place whether or not more bytes follow. -/
theorem Cursor.Reaches.extend {c d : Cursor} {read : List UInt8} (h : c.Reaches d read)
    (more : List UInt8) : (c.extend more).Reaches (d.extend more) read :=
  ⟨show c.rest ++ more = read ++ (d.rest ++ more) by rw [h.1, List.append_assoc], h.2⟩

/-- Passing bytes does not move the end of the input. -/
theorem Cursor.Reaches.end_eq {c d : Cursor} {read : List UInt8} (h : c.Reaches d read) :
    d.position + d.remaining = c.position + c.remaining := by
  have hlen : c.remaining = read.length + d.remaining := by
    rw [Cursor.remaining, h.1, List.length_append, Cursor.remaining]
  rw [h.2, hlen]
  omega

namespace Scan

/-! ## Incremental scans -/

/-- The failures among which there is a lack of input. -/
class EndOfData (ε : Type) where
  /-- At `position`, `requested` bytes are wanted, and `available` are left. -/
  endOfData (position requested available : Nat) : ε

export EndOfData (endOfData)

instance : EndOfData ScanError := ⟨.endOfData⟩

instance : EndOfData ReadError := ⟨.endOfInput⟩

/-- Whether a failure is a lack of input. -/
def IsShortage {ε : Type} [EndOfData ε] (e : ε) : Prop :=
  ∃ position requested available, e = endOfData position requested available

theorem not_isShortage_invalidText (p : Nat) : ¬ IsShortage (ScanError.invalidText p) :=
  fun ⟨_, _, _, h⟩ => nomatch h

theorem not_isShortage_malformed (v : Violation) : ¬ IsShortage (ReadError.malformed v) :=
  fun ⟨_, _, _, h⟩ => nomatch h

theorem not_isShortage_reference (r : ReferenceError) : ¬ IsShortage (ReadError.reference r) :=
  fun ⟨_, _, _, h⟩ => nomatch h

theorem not_isShortage_unsupportedTag (tag : UInt8) (index : UInt16) :
    ¬ IsShortage (ReadError.unsupportedTag tag index) :=
  fun ⟨_, _, _, h⟩ => nomatch h

theorem not_isShortage_notAClassFile (found : UInt32) :
    ¬ IsShortage (ReadError.notAClassFile found) :=
  fun ⟨_, _, _, h⟩ => nomatch h

variable {ε α β : Type} [EndOfData ε] {scan : Scan ε α} {next : α → Scan ε β}

/-- What a scan does depends only on the bytes that it passes. -/
structure Incremental (scan : Scan ε α) : Prop where
  /-- Success passes bytes that are accepted whatever follows them. -/
  accepts : ∀ {c d : Cursor} {a : α}, scan c = .ok a d →
    ∃ read, c.Reaches d read ∧ scan.Accepts c.position read a
  /-- A failure that is no lack of input stays when more bytes arrive. -/
  rejects : ∀ {c d : Cursor} {e : ε}, scan c = .error e d → ¬ IsShortage e →
    ∀ more, ∃ d', scan (c.extend more) = .error e d'
  /-- A lack of input is about the end of the input, and stays until enough bytes arrive. -/
  starves : ∀ {c d : Cursor} {position requested available : Nat},
    scan c = .error (endOfData position requested available) d →
    c.position ≤ position ∧ position + available = c.position + c.remaining ∧
      available < requested ∧
      ∀ more : List UInt8, more.length < requested - available →
        ∃ d', scan (c.extend more) =
          .error (endOfData position requested (available + more.length)) d'

namespace Incremental

/-- More bytes behind the input do not change a success. -/
theorem extend_ok (h : Incremental scan) {c d : Cursor} {a : α} (hc : scan c = .ok a d)
    (more : List UInt8) : scan (c.extend more) = .ok a (d.extend more) := by
  obtain ⟨read, hr, ha⟩ := h.accepts hc
  exact ha.run rfl (hr.extend more)

/-- A scan succeeds exactly by passing a byte string that is accepted. -/
theorem eq_ok_iff (h : Incremental scan) {c d : Cursor} {a : α} :
    scan c = .ok a d ↔ ∃ read, c.Reaches d read ∧ scan.Accepts c.position read a :=
  ⟨h.accepts, fun ⟨_, hr, ha⟩ => ha.run rfl hr⟩

/-- An input cut off within an accepted byte string is a lack of input. -/
theorem take_of_accepts (h : Incremental scan) {p n : Nat} {read : List UInt8} {a : α}
    (ha : scan.Accepts p read a) (hn : n < read.length) :
    ∃ position requested available d,
      scan ⟨read.take n, p⟩ = .error (endOfData position requested available) d := by
  have hsplit : read.take n ++ read.drop n = read := List.take_append_drop n read
  have hfull : scan ⟨read, p⟩ = .ok a ⟨[], p + read.length⟩ := by
    have := ha []
    rwa [List.append_nil] at this
  have hext : Cursor.extend ⟨read.take n, p⟩ (read.drop n) = ⟨read, p⟩ := by
    rw [Cursor.extend, hsplit]
  -- success, a lack of input, or another failure: two of them contradict the run on all bytes
  cases hs : scan ⟨read.take n, p⟩ with
  | ok a' d =>
    -- the run on the shorter input would pass fewer bytes on the longer one, too
    have hrun := h.extend_ok hs (read.drop n)
    rw [hext, hfull] at hrun
    injection hrun with _ hd
    have hrest : d.rest ++ read.drop n = [] := (congrArg Cursor.rest hd).symm
    have hlen : (read.drop n).length = 0 := by
      rw [(List.append_eq_nil_iff.mp hrest).2]
      rfl
    rw [List.length_drop] at hlen
    omega
  | error e d =>
    by_cases hshort : IsShortage e
    · obtain ⟨position, requested, available, rfl⟩ := hshort
      exact ⟨position, requested, available, d, rfl⟩
    · -- any other failure would stay on the whole of `read`
      obtain ⟨d', hd'⟩ := h.rejects hs hshort (read.drop n)
      rw [hext, hfull] at hd'
      nomatch hd'

/-! ## Ways of building incremental scans -/

/-- A result found without reading, unless it is itself a lack of input. -/
theorem ofExcept (result : Except ε α) (hr : ∀ e, result = .error e → ¬ IsShortage e) :
    Incremental (Scan.ofExcept result) := by
  cases result with
  | ok a =>
    constructor
    · intro c d a' h
      cases h
      exact ⟨[], .refl c, accepts_ofExcept.mpr ⟨rfl, rfl⟩⟩
    · intro c d e h
      nomatch h
    · intro c d position requested available h
      nomatch h
  | error e =>
    constructor
    · intro c d a' h
      nomatch h
    · intro c d e' h _ more
      cases h
      exact ⟨c.extend more, rfl⟩
    · intro c d position requested available h
      cases h
      exact absurd ⟨position, requested, available, rfl⟩ (hr _ rfl)

/-- To yield a value takes no input. -/
theorem pure (a : α) : Incremental (Pure.pure a : Scan ε α) :=
  .ofExcept (.ok a) fun _ h => nomatch h

/-- To fail takes no input, if it is not for lack of it. -/
theorem throw {e : ε} (he : ¬ IsShortage e) : Incremental (throw e : Scan ε α) :=
  .ofExcept (.error e) fun _ h => Except.error.inj h ▸ he

/-- Two scans in a row are incremental if both are.  A lack of input in the second is reported at
    its own offset, so what the first has passed stays in front of it. -/
theorem bind (h₁ : Incremental scan) (h₂ : ∀ a, Incremental (next a)) :
    Incremental (scan >>= next) where
  accepts := by
    intro c d b h
    obtain ⟨a, c', hc', hb⟩ := bind_eq_ok.mp h
    obtain ⟨first, hr₁, ha⟩ := h₁.accepts hc'
    obtain ⟨second, hr₂, hb⟩ := (h₂ a).accepts hb
    rw [hr₁.2] at hb
    exact ⟨first ++ second, hr₁.trans hr₂, ha.bind hb⟩
  rejects := by
    intro c d e h hne more
    rcases bind_eq_error.mp h with h | ⟨a, c', hc', he⟩
    · obtain ⟨d', hd'⟩ := h₁.rejects h hne more
      exact ⟨d', bind_eq_error.mpr (Or.inl hd')⟩
    · obtain ⟨d', hd'⟩ := (h₂ a).rejects he hne more
      exact ⟨d', bind_eq_error.mpr (Or.inr ⟨a, _, h₁.extend_ok hc' more, hd'⟩)⟩
  starves := by
    intro c d position requested available h
    rcases bind_eq_error.mp h with h | ⟨a, c', hc', he⟩
    · obtain ⟨hle, hend, hlt, hmore⟩ := h₁.starves h
      refine ⟨hle, hend, hlt, fun more hm => ?_⟩
      obtain ⟨d', hd'⟩ := hmore more hm
      exact ⟨d', bind_eq_error.mpr (Or.inl hd')⟩
    · obtain ⟨read, hr, -⟩ := h₁.accepts hc'
      obtain ⟨hle, hend, hlt, hmore⟩ := (h₂ a).starves he
      have hpos : c.position ≤ c'.position := by rw [hr.2]; omega
      refine ⟨Nat.le_trans hpos hle, by rw [hend, hr.end_eq], hlt, fun more hm => ?_⟩
      obtain ⟨d', hd'⟩ := hmore more hm
      exact ⟨d', bind_eq_error.mpr (Or.inr ⟨a, _, h₁.extend_ok hc' more, hd'⟩)⟩

end Incremental

/-- What two scans in a row accept is what the first accepts, then what the second does. -/
theorem accepts_bind (h : Incremental scan) {p : Nat} {read : List UInt8} {b : β} :
    (scan >>= next).Accepts p read b ↔ ∃ first second a, read = first ++ second ∧
      scan.Accepts p first a ∧ (next a).Accepts (p + first.length) second b := by
  constructor
  · intro hb
    obtain ⟨a, d, hd, -⟩ := bind_eq_ok.mp (hb [])
    obtain ⟨first, hr, ha⟩ := h.accepts hd
    have hread : read = first ++ d.rest := by
      have := hr.1
      rwa [List.append_nil] at this
    refine ⟨first, d.rest, a, hread, ha, ?_⟩
    intro more
    -- on the longer input the first scan makes the same step, so the second one starts behind it
    have hrun := hb more
    rw [hread, List.append_assoc] at hrun
    obtain ⟨a', d', hd', hn⟩ := bind_eq_ok.mp hrun
    rw [ha (d.rest ++ more)] at hd'
    cases hd'
    rwa [List.length_append, ← Nat.add_assoc] at hn
  · rintro ⟨first, second, a, rfl, ha, hb⟩
    exact ha.bind hb

/-- The offset does not depend on what follows. -/
theorem incremental_position : Incremental (position : Scan ε Nat) where
  accepts := by
    intro c d n h
    cases h
    exact ⟨[], .refl c, accepts_position.mpr ⟨rfl, rfl⟩⟩
  rejects := by
    intro c d e h
    nomatch h
  starves := by
    intro c d position requested available h
    nomatch h

/-- To look for a value takes no input. -/
theorem incremental_ofOption {e : ε} (he : ¬ IsShortage e) (value : Option α) :
    Incremental (ofOption e value) := by
  cases value with
  | some a => exact .pure a
  | none => exact .throw he

/-- To check a condition takes no input. -/
theorem incremental_require (condition : Prop) [Decidable condition] {e : ε}
    (he : ¬ IsShortage e) : Incremental (require condition e) := by
  unfold require
  split
  · exact .pure ()
  · exact .throw he

/-- To repeat a scan any number of times is to run it in a row. -/
theorem Incremental.timesAfter (h : Incremental scan) (done : List α) (n : Nat) :
    Incremental (timesAfter scan done n) := by
  induction n generalizing done with
  | zero => exact .pure _
  | succ n ih => exact h.bind fun a => ih (a :: done)

theorem Incremental.times (h : Incremental scan) (n : Nat) : Incremental (times n scan) :=
  h.timesAfter [] n

/-- A repeated scan accepts as many byte strings as it is repeated. -/
theorem accepts_times (h : Incremental scan) {p n : Nat} {read : List UInt8} {as : List α} :
    (Scan.times n scan).Accepts p read as ↔ as.length = n ∧ scan.AcceptsAll p read as := by
  -- what has been read is carried along, so the induction is over all that may have been
  have hafter : ∀ (n : Nat) (done : List α) (p : Nat) (read : List UInt8) (as : List α),
      (Scan.timesAfter scan done n).Accepts p read as →
      ∃ new, as = done.reverse ++ new ∧ new.length = n ∧ scan.AcceptsAll p read new := by
    intro n
    induction n with
    | zero =>
      intro done p read as ha
      obtain ⟨rfl, rfl⟩ := accepts_pure.mp ha
      exact ⟨[], (List.append_nil _).symm, rfl, rfl⟩
    | succ n ih =>
      intro done p read as ha
      obtain ⟨first, rest, a, rfl, hfirst, hrest⟩ := (accepts_bind h).mp ha
      obtain ⟨new, rfl, rfl, hnew⟩ := ih (a :: done) _ _ _ hrest
      refine ⟨a :: new, ?_, rfl, first, rest, rfl, hfirst, hnew⟩
      rw [List.reverse_cons, List.append_assoc, List.singleton_append]
  constructor
  · intro ha
    obtain ⟨new, rfl, hn, hnew⟩ := hafter n [] p read as ha
    exact ⟨hn, hnew⟩
  · rintro ⟨rfl, ha⟩
    exact ha.times

/-! ## The primitives

  Taking bytes is the only step of a format that can run short, so this is where the three
  statements are about something. -/

/-- Bytes are taken from the front, and all that are left are counted if there are too few. -/
theorem incremental_bytes (n : Nat) : Incremental (bytes n) where
  accepts := by
    intro c d taken h
    obtain ⟨hn, rfl, rfl⟩ := bytes_eq_ok.mp h
    have hlen : (c.rest.take n).length = n := by
      rw [List.length_take]
      exact Nat.min_eq_left hn
    refine ⟨c.rest.take n, Cursor.reaches_advance hn, fun more => ?_⟩
    have hle : n ≤ (Cursor.mk (c.rest.take n ++ more) c.position).remaining := by
      rw [Cursor.remaining, List.length_append, hlen]
      omega
    rw [bytes_of_le hle, Cursor.advance, List.take_append_of_le_length (Nat.le_of_eq hlen.symm),
      List.take_of_length_le (Nat.le_of_eq hlen), List.drop_append_of_le_length
      (Nat.le_of_eq hlen.symm), List.drop_of_length_le (Nat.le_of_eq hlen), hlen]
    rfl
  rejects := by
    intro c d e h hne
    -- there are too few bytes, which is a lack of input, or enough
    rcases Nat.lt_or_ge c.remaining n with hlt | hge
    · rw [bytes_of_lt hlt] at h
      cases h
      exact absurd ⟨_, _, _, rfl⟩ hne
    · rw [bytes_of_le hge] at h
      cases h
  starves := by
    intro c d position requested available h
    rcases Nat.lt_or_ge c.remaining n with hlt | hge
    · rw [bytes_of_lt hlt] at h
      cases h
      refine ⟨Nat.le_refl _, rfl, hlt, fun more hm => ⟨c.extend more, ?_⟩⟩
      have hrem : (c.extend more).remaining = c.remaining + more.length := List.length_append
      rw [bytes_of_lt (by omega), hrem]
      rfl
    · rw [bytes_of_le hge] at h
      cases h

/-- Any bytes are accepted, if there are as many as were asked for. -/
theorem accepts_bytes {n p : Nat} {read taken : List UInt8} :
    (bytes n).Accepts p read taken ↔ read.length = n ∧ taken = read := by
  constructor
  · intro h
    obtain ⟨hn, rfl, hc⟩ := bytes_eq_ok.mp (h [])
    have hlen : read.length = n := by
      have hpos := congrArg Cursor.position hc
      simp only [Cursor.advance] at hpos
      omega
    refine ⟨hlen, ?_⟩
    rw [List.append_nil]
    exact List.take_of_length_le (Nat.le_of_eq hlen)
  · rintro ⟨rfl, rfl⟩ more
    have hle : taken.length ≤ (Cursor.mk (taken ++ more) p).remaining := by
      rw [Cursor.remaining, List.length_append]
      omega
    rw [bytes_of_le hle]
    simp only [Cursor.advance, List.take_left, List.drop_left]

/-! ## Lifting

  Failures to read a value become failures to read a class file.  A lack of input stays one, and
  nothing else becomes one. -/

/-- Lifting a failure makes a lack of input of a lack of input, and of nothing else. -/
theorem ofScan_eq_endOfData {e : ScanError} {position requested available : Nat} :
    ReadError.ofScan e = endOfData position requested available ↔
      e = endOfData position requested available := by
  cases e with
  | endOfData p r a =>
    constructor
    · intro h
      cases h
      rfl
    · intro h
      cases h
      rfl
  | invalidText p =>
    constructor
    · intro h
      nomatch h
    · intro h
      nomatch h

/-- Renaming the failures of a scan does not change what it accepts. -/
theorem accepts_lift {scan : Scan ScanError α} {p : Nat} {read : List UInt8} {a : α} :
    (liftM scan : Scan ReadError α).Accepts p read a ↔ scan.Accepts p read a :=
  ⟨fun h more => mapError_eq_ok.mp (h more), fun h more => mapError_eq_ok.mpr (h more)⟩

/-- Nor does it change how the scan takes its input. -/
theorem Incremental.lift {scan : Scan ScanError α} (h : Incremental scan) :
    Incremental (liftM scan : Scan ReadError α) where
  accepts := by
    intro c d a hc
    obtain ⟨read, hr, ha⟩ := h.accepts (mapError_eq_ok.mp hc)
    exact ⟨read, hr, accepts_lift.mpr ha⟩
  rejects := by
    intro c d e hc hne more
    obtain ⟨e, hs, rfl⟩ := mapError_eq_error.mp hc
    have hne' : ¬ IsShortage e := fun ⟨p, r, a, he⟩ => hne ⟨p, r, a, ofScan_eq_endOfData.mpr he⟩
    obtain ⟨d', hd'⟩ := h.rejects hs hne' more
    exact ⟨d', mapError_eq_error.mpr ⟨e, hd', rfl⟩⟩
  starves := by
    intro c d position requested available hc
    obtain ⟨e, hs, he⟩ := mapError_eq_error.mp hc
    rw [ofScan_eq_endOfData.mp he] at hs
    obtain ⟨hle, hend, hlt, hmore⟩ := h.starves hs
    refine ⟨hle, hend, hlt, fun more hm => ?_⟩
    obtain ⟨d', hd'⟩ := hmore more hm
    exact ⟨d', mapError_eq_error.mpr ⟨_, hd', rfl⟩⟩

/-- To follow a reference takes no input. -/
theorem incremental_resolve (result : Except ReferenceError α) :
    Incremental (resolve result) := by
  refine .ofExcept _ fun e he => ?_
  cases result with
  | ok a => nomatch he
  | error r => exact Except.error.inj he ▸ not_isShortage_reference r

/-- What follows a reference is told what it leads to. -/
theorem accepts_resolve_bind {result : Except ReferenceError α} {next : α → Scan ReadError β}
    {p : Nat} {read : List UInt8} {b : β} :
    (resolve result >>= next).Accepts p read b ↔
      ∃ a, result = .ok a ∧ (next a).Accepts p read b := by
  rw [resolve, accepts_ofExcept_bind]
  cases result with
  | ok a =>
    show (∃ a', (Except.ok a : Except ReadError α) = .ok a' ∧ _) ↔ _
    simp only [Except.ok.injEq]
  | error e =>
    constructor
    · rintro ⟨a, ha, -⟩
      nomatch ha
    · rintro ⟨a, ha, -⟩
      nomatch ha

end Scan

end JavaClass
