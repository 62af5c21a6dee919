/-
  What is known of the values that a scan yields.

  `scan.Ensures post` says that every value of the scan satisfies `post`, whatever bytes it is run
  on.  A check that a scan makes is known behind it (`ensures_require`), and so is the result of
  looking a value up (`ensures_resolve`); two scans in a row hand on what is known of the first
  (`Ensures.bind`).  Repeating a scan keeps what it ensures, for each of the values
  (`Ensures.counted`): that is the one induction, and an invariant of a format is put together
  from the parts of the format by these rules alone.
-/
import JavaClass.ReadError

namespace JavaClass.Scan

variable {ε α β : Type} {scan : Scan ε α} {next : α → Scan ε β} {post : α → Prop}
  {result : β → Prop}

/-- Every value that the scan yields satisfies `post`. -/
def Ensures (scan : Scan ε α) (post : α → Prop) : Prop :=
  ∀ c a d, scan c = .ok a d → post a

namespace Ensures

/-- A value that is given is what it is known to be. -/
theorem pure {a : α} (h : post a) : Ensures (Pure.pure a : Scan ε α) post := by
  intro c b d hb
  cases hb
  exact h

/-- Less may be said of the values. -/
theorem mono {weaker : α → Prop} (h : scan.Ensures post) (hweaker : ∀ a, post a → weaker a) :
    scan.Ensures weaker := by
  intro c a d ha
  exact hweaker a (h _ _ _ ha)

/-- The second of two scans may rely on what the first ensures. -/
theorem bind (h₁ : scan.Ensures post) (h₂ : ∀ a, post a → (next a).Ensures result) :
    (scan >>= next).Ensures result := by
  intro c b d h
  obtain ⟨a, c', ha, hb⟩ := bind_eq_ok.mp h
  exact h₂ a (h₁ _ _ _ ha) _ _ _ hb

/-- Behind a scan of which nothing is known. -/
theorem behind (h : ∀ a, (next a).Ensures result) : (scan >>= next).Ensures result :=
  have hany : scan.Ensures fun _ => True := fun _ _ _ _ => trivial
  hany.bind fun a _ => h a

/-- Renaming the failures of a scan changes none of its values. -/
theorem lift {scan : Scan ScanError α} (h : scan.Ensures post) :
    Ensures (liftM scan : Scan ReadError α) post := by
  intro c a d ha
  exact h _ _ _ (mapError_eq_ok.mp ha)

end Ensures

/-! ## Steps that check -/

/-- Behind a check, its condition holds. -/
theorem ensures_require (condition : Prop) [Decidable condition] (e : ε) :
    (require condition e).Ensures fun _ => condition := by
  intro c a d h
  unfold require at h
  split at h
  · assumption
  · nomatch h

/-- Behind a result, the value is the one that was found. -/
theorem ensures_ofExcept (found : Except ε α) : (ofExcept found).Ensures (found = .ok ·) := by
  intro c a d h
  cases found with
  | ok b =>
    cases h
    rfl
  | error e => nomatch h

/-- Behind a reference, the value is the one that it leads to. -/
theorem ensures_resolve (found : Except ReferenceError α) :
    (resolve found).Ensures (found = .ok ·) := by
  intro c a d h
  have hfound := ensures_ofExcept _ _ _ _ h
  cases found with
  | ok b =>
    cases hfound
    rfl
  | error e => nomatch hfound

/-- As many bytes are read as are asked for. -/
theorem ensures_bytes (n : Nat) : (bytes n).Ensures fun taken => taken.length = n := by
  intro c taken d h
  obtain ⟨hn, rfl, -⟩ := bytes_eq_ok.mp h
  rw [List.length_take]
  exact Nat.min_eq_left hn

/-! ## Repetition -/

/-- Each value of a repeated scan satisfies what the scan ensures. -/
theorem Ensures.timesAfter (h : scan.Ensures post) {done : List α} (hdone : ∀ a ∈ done, post a)
    (n : Nat) : (timesAfter scan done n).Ensures fun as => ∀ a ∈ as, post a := by
  induction n generalizing done with
  | zero => exact .pure fun a ha => hdone a (List.mem_reverse.mp ha)
  | succ n ih =>
    refine h.bind fun a ha => ih fun b hb => ?_
    rcases List.mem_cons.mp hb with rfl | hb
    · exact ha
    · exact hdone b hb

/-- However many items are counted, each satisfies what its scan ensures. -/
theorem Ensures.counted (h : scan.Ensures post) (count : Scan ε UInt16) :
    (counted count scan).Ensures fun as => ∀ a ∈ as, post a :=
  have hnone : ∀ a ∈ ([] : List α), post a := fun _ ha => nomatch ha
  .behind fun n => h.timesAfter hnone n.toNat

end JavaClass.Scan
