/-
  Texts that can be taken apart.

  A text made of tokens is read back at the characters between them.  `Lacks` says that a token does
  not contain such a character, and `Parted` that what follows the token begins with it, if there is
  anything; then it is plain where the token ends (`token_inj`).  A list of tokens with commas
  between them is taken apart by induction (`intercalate_inj`).

  The tokens here are mostly numbers: their decimal texts are made of digits, and of a sign in front
  if they are negative, and tell the number.
-/
import Mathlib.Data.List.Nodup

namespace JavaClass.Text

/-! ## Tokens -/

variable {sep c : Char} {s t u v : String}

/-- The character does not occur in the text. -/
def Lacks (s : String) (c : Char) : Prop := c ∉ s.toList

instance : Decidable (Lacks s c) := inferInstanceAs (Decidable (c ∉ s.toList))

/-- The text is empty or begins with the character. -/
def Parted (sep : Char) (s : String) : Prop := ∀ c ∈ s.toList.head?, c = sep

/-- A text in two pieces lacks what both pieces lack. -/
theorem lacks_append : Lacks (s ++ t) c ↔ Lacks s c ∧ Lacks t c := by
  simp only [Lacks, String.toList_append, List.mem_append, not_or]

/-- Nothing at all is parted from what precedes it. -/
theorem parted_empty : Parted sep "" := fun _ h => nomatch h

/-- What begins with a text begins with the first character of that text. -/
theorem parted_append (h : s.toList.head? = some sep) : Parted sep (s ++ t) := by
  intro c hc
  rw [String.toList_append, List.head?_append, h, Option.some_or] at hc
  exact (Option.some.inj hc).symm

/-- Up to the first separator, two texts are equal if the whole texts are. -/
theorem append_inj_of_parted {α : Type} {sep : α} {s t u v : List α} (hs : sep ∉ s) (ht : sep ∉ t)
    (hu : ∀ c ∈ u.head?, c = sep) (hv : ∀ c ∈ v.head?, c = sep) (h : s ++ u = t ++ v) :
    s = t ∧ u = v := by
  induction s generalizing t with
  | nil =>
    cases t with
    | nil => exact ⟨rfl, h⟩
    | cons d t =>
      obtain rfl : u = d :: t ++ v := h
      exact absurd (List.mem_cons.mpr (Or.inl (hu d rfl).symm)) ht
  | cons c s ih =>
    cases t with
    | nil =>
      obtain rfl : c :: s ++ u = v := h
      exact absurd (List.mem_cons.mpr (Or.inl (hv c rfl).symm)) hs
    | cons d t =>
      obtain ⟨rfl, hrest⟩ := List.cons.inj h
      obtain ⟨rfl, huv⟩ := ih (fun hmem => hs (List.mem_cons_of_mem c hmem))
        (fun hmem => ht (List.mem_cons_of_mem c hmem)) hrest
      exact ⟨rfl, huv⟩

/-- A token ends where the character begins that it lacks. -/
theorem token_inj (hs : Lacks s sep) (ht : Lacks t sep) (hu : Parted sep u) (hv : Parted sep v)
    (h : s ++ u = t ++ v) : s = t ∧ u = v := by
  have hchars := congrArg String.toList h
  rw [String.toList_append, String.toList_append] at hchars
  obtain ⟨hst, huv⟩ := append_inj_of_parted hs ht hu hv hchars
  exact ⟨String.toList_inj.mp hst, String.toList_inj.mp huv⟩

/-! ## Lists -/

/-- Tokens without commas are told from the text that they are joined to by commas. -/
theorem intercalate_inj {ss ts : List String} (hss : ∀ s ∈ ss, Lacks s ',')
    (hts : ∀ t ∈ ts, Lacks t ',') (hsne : ss ≠ []) (htne : ts ≠ [])
    (h : ", ".intercalate ss = ", ".intercalate ts) : ss = ts := by
  have hcomma : ∀ rest : String, Parted ',' (", " ++ rest) := fun rest => parted_append rfl
  -- a token is not continued by a comma
  have hlast : ∀ {s t rest : String}, Lacks s ',' → s ≠ t ++ (", " ++ rest) := by
    rintro _ t rest hs rfl
    exact (lacks_append.mp (lacks_append.mp hs).2).1 (List.mem_cons_self ..)
  induction ss generalizing ts with
  | nil => exact absurd rfl hsne
  | cons s ss ih =>
    obtain ⟨t, ts, rfl⟩ := List.exists_cons_of_ne_nil htne
    obtain ⟨hs, hss'⟩ := List.forall_mem_cons.mp hss
    obtain ⟨ht, hts'⟩ := List.forall_mem_cons.mp hts
    cases ss with
    | nil =>
      cases ts with
      | nil =>
        rw [String.intercalate_singleton, String.intercalate_singleton] at h
        rw [h]
      | cons t' ts =>
        rw [String.intercalate_singleton, String.intercalate_cons_cons, String.append_assoc] at h
        exact absurd h (hlast hs)
    | cons s' ss =>
      cases ts with
      | nil =>
        rw [String.intercalate_singleton, String.intercalate_cons_cons, String.append_assoc] at h
        exact absurd h.symm (hlast ht)
      | cons t' ts =>
        rw [String.intercalate_cons_cons, String.intercalate_cons_cons, String.append_assoc,
          String.append_assoc] at h
        obtain ⟨rfl, hrest⟩ := token_inj hs ht (hcomma _) (hcomma _) h
        rw [String.append_right_inj] at hrest
        rw [ih hss' hts' (List.cons_ne_nil _ _) (List.cons_ne_nil _ _) hrest]

/-! ## Decimal numbers -/

section
variable (hdigit : c.isDigit = false)
include hdigit

/-- The digits of a number are nothing but digits. -/
theorem lacks_nat (n : Nat) : Lacks (toString n) c := by
  intro hmem
  rw [Nat.toString_eq_repr, Nat.toList_repr] at hmem
  rw [Nat.isDigit_of_mem_toDigits (by decide) (by decide) hmem] at hdigit
  nomatch hdigit

/-- An integer has a sign at most besides. -/
theorem lacks_int (hsign : c ≠ '-') (n : Int) : Lacks (toString n) c := by
  cases n with
  | ofNat n => exact lacks_nat hdigit n
  | negSucc n =>
    show Lacks ("-" ++ toString (n + 1)) c
    exact lacks_append.mpr ⟨by simpa [Lacks] using hsign, lacks_nat hdigit (n + 1)⟩

end

/-- A number is written with a digit, at least. -/
theorem exists_digit (n : Nat) : ∃ d ∈ (toString n).toList, d.isDigit = true := by
  rw [Nat.toString_eq_repr, Nat.toList_repr]
  obtain ⟨d, hd⟩ := List.exists_mem_of_ne_nil _ (Nat.toDigits_ne_nil (n := n) (b := 10))
  exact ⟨d, hd, Nat.isDigit_of_mem_toDigits (by decide) (by decide) hd⟩

/-- A number is determined by its digits. -/
theorem nat_inj {m n : Nat} (h : toString m = toString n) : m = n := by
  have hdigits := congrArg String.toList h
  rw [Nat.toString_eq_repr, Nat.toString_eq_repr, Nat.toList_repr, Nat.toList_repr] at hdigits
  have hvalue := congrArg (fun digits => Nat.ofDigitChars 10 digits 0) hdigits
  simpa using hvalue

/-- The sign tells the negative numbers from the others. -/
theorem int_inj {m n : Int} (h : toString m = toString n) : m = n := by
  have hsign : ∀ {k l : Nat}, toString k ≠ "-" ++ toString l := by
    intro k l hk
    have hlacks := lacks_nat (show '-'.isDigit = false from rfl) k
    rw [hk] at hlacks
    exact (lacks_append.mp hlacks).1 (List.mem_singleton.mpr rfl)
  cases m with
  | ofNat m =>
    cases n with
    | ofNat n => exact congrArg Int.ofNat (nat_inj h)
    | negSucc n => exact absurd h hsign
  | negSucc m =>
    cases n with
    | ofNat n => exact absurd h.symm hsign
    | negSucc n =>
      have hdigits := (String.append_right_inj "-").mp h
      exact congrArg Int.negSucc (Nat.succ.inj (nat_inj hdigits))

end JavaClass.Text
