/-
  Scans that stand still within their input, and scans that fail alike.

  A scan that has passed some bytes has something left to do, and that is a scan again:
  `scan.Resumes p read left` says that behind the bytes `read` the scan goes on as `left`.  So a
  place within a format is described by what the scan of the format still has to do there, and the
  place is found by following the scan over what precedes it.

  `Alike related s t` compares two scans: run at the same place they succeed together, there with
  values that are `related`, or fail together, and then in the same way.  A value that is taken
  without being looked at may be changed, and what is left to do stays alike.
-/
import JavaClass.Proofs.Bytes.Numbers

namespace JavaClass.Scan

variable {ε α β : Type}

/-! ## What is left to do

  Scans are made of steps in a row, so what is left behind some bytes is what is left of the
  current step, with the later steps behind it. -/

section
variable {scan left last : Scan ε α} {next : α → Scan ε β} {p : Nat}
  {read first second : List UInt8}

/-- Behind the bytes `read`, passed from the offset `p` on, the scan goes on as `left`. -/
def Resumes (scan : Scan ε α) (p : Nat) (read : List UInt8) (left : Scan ε α) : Prop :=
  ∀ rest, scan ⟨read ++ rest, p⟩ = left ⟨rest, p + read.length⟩

theorem Resumes.refl (scan : Scan ε α) (p : Nat) : scan.Resumes p [] scan := fun _ => rfl

/-- Going on twice is going on behind both byte strings. -/
theorem Resumes.trans (h₁ : scan.Resumes p first left)
    (h₂ : left.Resumes (p + first.length) second last) : scan.Resumes p (first ++ second) last := by
  intro rest
  rw [List.append_assoc, h₁, h₂, List.length_append, Nat.add_assoc]

/-- While the first of two scans goes on, the second one waits. -/
theorem Resumes.bind (h : scan.Resumes p read left) :
    (scan >>= next).Resumes p read (left >>= next) := by
  intro rest
  show EStateM.bind scan next _ = EStateM.bind left next _
  unfold EStateM.bind
  rw [h]

/-- Behind what the first of two scans accepts, the second one is left. -/
theorem Accepts.resumes {a : α} (h : scan.Accepts p read a) :
    (scan >>= next).Resumes p read (next a) := by
  intro rest
  show EStateM.bind scan next _ = _
  unfold EStateM.bind
  rw [h rest]

/-- Behind fewer runs of a repeated scan than there are to be, another run is left, and then the
    others. -/
theorem AcceptsAll.resumes {before : List α} {n : Nat} (h : scan.AcceptsAll p read before)
    (hn : before.length < n) (done : List α) :
    (Scan.timesAfter scan done n).Resumes p read (scan >>= fun a =>
      Scan.timesAfter scan (a :: (before.reverse ++ done)) (n - before.length - 1)) := by
  -- induction on the runs that are over
  induction before generalizing p read n done with
  | nil =>
    obtain rfl : read = [] := h
    obtain ⟨m, rfl⟩ : ∃ m, n = m + 1 := ⟨n - 1, (Nat.succ_pred_eq_of_pos hn).symm⟩
    exact .refl _ p
  | cons a before ih =>
    obtain ⟨head, tail, rfl, ha, htail⟩ := h
    rw [List.length_cons] at hn ⊢
    obtain ⟨m, rfl⟩ : ∃ m, n = m + 1 := ⟨n - 1, by omega⟩
    have hrest := ih htail (Nat.lt_of_succ_lt_succ hn) (a :: done)
    have hdone : (a :: before).reverse ++ done = before.reverse ++ a :: done := by
      rw [List.reverse_cons, List.append_assoc, List.singleton_append]
    rw [hdone, Nat.add_sub_add_right]
    exact ha.resumes.trans hrest

end

/-! ## Scans that fail alike

  Two scans that differ in a value only are compared step by step.  As long as nothing is done
  with the value, they take the same bytes and fail at the same places. -/

/-- Two runs end alike: at the same place with related values, or with the same failure. -/
inductive SameOutcome (related : α → α → Prop) :
    EStateM.Result ε Cursor α → EStateM.Result ε Cursor α → Prop
  | ok {a b : α} {d : Cursor} (values : related a b) : SameOutcome related (.ok a d) (.ok b d)
  | error {e : ε} {d d' : Cursor} : SameOutcome related (.error e d) (.error e d')

/-- Wherever they are run, two scans end alike. -/
def Alike (related : α → α → Prop) (s t : Scan ε α) : Prop :=
  ∀ c, SameOutcome related (s c) (t c)

namespace Alike

variable {related : α → α → Prop} {related' : β → β → Prop} {s t : Scan ε α}

/-- A scan ends as itself does. -/
theorem refl (h : ∀ a, related a a) (s : Scan ε α) : Alike related s s := by
  intro c
  cases s c with
  | ok a d => exact .ok (h a)
  | error e d => exact .error

/-- Related values may be yielded for each other. -/
theorem pure {a b : α} (h : related a b) : Alike related (Pure.pure a : Scan ε α) (Pure.pure b) :=
  fun _ => .ok h

/-- Less may be said of the values. -/
theorem mono {weaker : α → α → Prop} (h : Alike related s t)
    (hweaker : ∀ a b, related a b → weaker a b) : Alike weaker s t := by
  intro c
  have hc := h c
  generalize s c = r, t c = r' at hc
  cases hc with
  | ok values => exact .ok (hweaker _ _ values)
  | error => exact .error

/-- Behind scans that end alike, what follows is only ever compared at related values. -/
theorem bind {f g : α → Scan ε β} (h₁ : Alike related s t)
    (h₂ : ∀ a b, related a b → Alike related' (f a) (g b)) :
    Alike related' (s >>= f) (t >>= g) := by
  intro c
  show SameOutcome related' (EStateM.bind s f c) (EStateM.bind t g c)
  unfold EStateM.bind
  have hc := h₁ c
  generalize s c = r, t c = r' at hc
  cases hc with
  | ok values => exact h₂ _ _ values _
  | error => exact .error

/-- What follows the same scan is run on the same value. -/
theorem behind {f g : α → Scan ε β} (s : Scan ε α) (h : ∀ a, Alike related' (f a) (g a)) :
    Alike related' (s >>= f) (s >>= g) := by
  refine (refl (fun a => Eq.refl a) s).bind ?_
  rintro a _ rfl
  exact h a

/-- Scans that end alike fail alike. -/
theorem error_iff (h : Alike related s t) {c : Cursor} {e : ε} :
    (∃ d, s c = .error e d) ↔ ∃ d, t c = .error e d := by
  have hc := h c
  generalize s c = r, t c = r' at hc
  cases hc with
  | ok values =>
    constructor
    · rintro ⟨d, hd⟩
      nomatch hd
    · rintro ⟨d, hd⟩
      nomatch hd
  | @error e' d d' =>
    constructor
    · rintro ⟨_, hd⟩
      cases hd
      exact ⟨d', rfl⟩
    · rintro ⟨_, hd⟩
      cases hd
      exact ⟨d, rfl⟩

/-- What follows the values of two byte strings of one length fails alike if it treats the values
    alike. -/
theorem error_iff_of_accepts {item : Scan ε β} {next : β → Scan ε α} {a b : β} {p : Nat}
    {first second rest : List UInt8} {e : ε} (h : Alike related (next a) (next b))
    (ha : item.Accepts p first a) (hb : item.Accepts p second b)
    (hlen : first.length = second.length) :
    (∃ d, (item >>= next) ⟨first ++ rest, p⟩ = .error e d) ↔
      ∃ d, (item >>= next) ⟨second ++ rest, p⟩ = .error e d := by
  rw [ha.resumes rest, hb.resumes rest, hlen]
  exact h.error_iff

/-- What was read earlier does not matter to a repeated scan. -/
theorem timesAfter (scan : Scan ε α) (first second : List α) (n : Nat) :
    Alike (fun as bs => ∃ new, as = first.reverse ++ new ∧ bs = second.reverse ++ new)
      (Scan.timesAfter scan first n) (Scan.timesAfter scan second n) := by
  -- the values read so far only matter in the end, when they are put in order
  induction n generalizing first second with
  | zero => exact .pure ⟨[], (List.append_nil _).symm, (List.append_nil _).symm⟩
  | succ n ih =>
    refine .behind scan fun a => (ih (a :: first) (a :: second)).mono ?_
    rintro as bs ⟨new, rfl, rfl⟩
    refine ⟨a :: new, ?_, ?_⟩
    · rw [List.reverse_cons, List.append_assoc, List.singleton_append]
    · rw [List.reverse_cons, List.append_assoc, List.singleton_append]

end Alike

end JavaClass.Scan
