/-
  Decimals in positional notation.

  A text of digits, with at most one point between them, stands for a number (`numberOf`): the
  digits as they stand, divided by ten for each of them that is behind the point.  The text of a
  decimal stands for that decimal, and nothing in it is needless: no zero in front of the digits but
  a single one in front of the point, and none at the end of a fraction (`writtenAs_positional`).

  The text of a value of a floating-point format is such a text, of the shortest number that is
  rounded to the value (`shows_text`).  As no number is rounded to two values, the text tells them
  apart (`text_inj`).
-/
import JavaClass.Decimal.Positional
import JavaClass.Proofs.Decimal.Rounding
import Mathlib.Data.List.TakeWhile

namespace JavaClass.Decimal

/-! ## What a text stands for

  A text is read off without regard to how it was made. -/

/-- The number that decimal digits stand for. -/
def digitsValue (digits : List Char) : Nat := Nat.ofDigitChars 10 digits 0

/-- The number that a text in positional notation stands for. -/
def numberOf (text : List Char) : ℚ :=
  digitsValue (text.filter (· ≠ '.')) / 10 ^ (text.dropWhile (· ≠ '.')).tail.length

/-- A number in positional notation with nothing needless in it. -/
inductive Plain : List Char → Prop
  /-- Digits that start with no zero. -/
  | integer {whole : List Char} (digits : ∀ c ∈ whole, c.isDigit = true)
      (front : ∃ c ∈ whole.head?, c ≠ '0') : Plain whole
  /-- A single zero, or digits that start with no zero; a point; and digits that end with none. -/
  | fraction {whole fraction : List Char} (digits : ∀ c ∈ whole ++ fraction, c.isDigit = true)
      (front : whole = ['0'] ∨ ∃ c ∈ whole.head?, c ≠ '0')
      (back : ∃ c ∈ fraction.getLast?, c ≠ '0') : Plain (whole ++ '.' :: fraction)

/-- Digits are no points. -/
theorem ne_point_of_isDigit {c : Char} (h : c.isDigit = true) : c ≠ '.' := by
  rintro rfl
  exact absurd h (by decide)

section
variable {whole fraction : List Char}

/-- Without a point, a text is the number of its digits. -/
theorem numberOf_integer (h : ∀ c ∈ whole, c.isDigit = true) :
    numberOf whole = digitsValue whole := by
  have hpoint : ∀ c ∈ whole, (decide (c ≠ '.')) = true := fun c hc =>
    decide_eq_true (ne_point_of_isDigit (h c hc))
  rw [numberOf, List.filter_eq_self.mpr hpoint, List.dropWhile_eq_nil_iff.mpr hpoint]
  simp only [List.tail_nil, List.length_nil, pow_zero, div_one]

/-- Behind a point, each digit counts a tenth of what it would count in front. -/
theorem numberOf_fraction (h : ∀ c ∈ whole ++ fraction, c.isDigit = true) :
    numberOf (whole ++ '.' :: fraction) =
      digitsValue (whole ++ fraction) / 10 ^ fraction.length := by
  have hpoint : ∀ c ∈ whole ++ fraction, (decide (c ≠ '.')) = true := fun c hc =>
    decide_eq_true (ne_point_of_isDigit (h c hc))
  have hwhole : ∀ c ∈ whole, (decide (c ≠ '.')) = true := fun c hc =>
    hpoint c (List.mem_append_left _ hc)
  have hfilter : (whole ++ '.' :: fraction).filter (· ≠ '.') = whole ++ fraction := by
    rw [List.filter_append, List.filter_cons_of_neg (by decide), ← List.filter_append,
      List.filter_eq_self.mpr hpoint]
  have hdrop : (whole ++ '.' :: fraction).dropWhile (· ≠ '.') = '.' :: fraction := by
    rw [List.dropWhile_append_of_pos hwhole, List.dropWhile_cons_of_neg (by decide)]
  rw [numberOf, hfilter, hdrop, List.tail_cons]

end

/-! ## The digits of a number

  The zeros at the end of a number are split off from its digits.  They belong to the power of
  ten. -/

/-- The digits of a positive number start with no zero. -/
theorem head?_toDigits {n : Nat} (hn : 0 < n) : ∃ c ∈ (Nat.toDigits 10 n).head?, c ≠ '0' := by
  induction n using Nat.strongRecOn with
  | ind n ih =>
    rcases Nat.lt_or_ge n 10 with hlt | hge
    · rw [Nat.toDigits_of_lt_base hlt]
      exact ⟨_, rfl, fun heq => hn.ne' (Nat.digitChar_eq_zero.mp heq)⟩
    · obtain ⟨c, hc, hne⟩ := ih (n / 10) (by omega) (by omega)
      rw [Nat.toDigits_of_base_le (by decide) hge, List.head?_append, Option.mem_def.mp hc]
      exact ⟨c, rfl, hne⟩

/-- The digits of a number are the significant ones and the zeros behind them. -/
theorem toDigits_eq_significant (n : Nat) :
    Nat.toDigits 10 n = (significant n).1 ++ List.replicate (significant n).2 '0' := by
  have hzeros : (Nat.toDigits 10 n).reverse.takeWhile (· == '0') =
      List.replicate (significant n).2 '0' :=
    List.eq_replicate_of_mem fun c hc => by simpa using List.mem_takeWhile_imp hc
  have hparts :=
    List.takeWhile_append_dropWhile (p := (· == '0')) (l := (Nat.toDigits 10 n).reverse)
  rw [hzeros] at hparts
  rw [← List.reverse_reverse (Nat.toDigits 10 n), ← hparts, List.reverse_append,
    List.reverse_replicate]
  rfl

/-- The digits that a positive number starts with are among the significant ones. -/
theorem head?_significant {n : Nat} (hn : 0 < n) : ∃ c ∈ (significant n).1.head?, c ≠ '0' := by
  obtain ⟨c, hc, hne⟩ := head?_toDigits hn
  rw [toDigits_eq_significant, List.head?_append] at hc
  cases hhead : (significant n).1.head? with
  | none =>
    -- all zeros
    rw [hhead, Option.none_or] at hc
    exact absurd (List.eq_of_mem_replicate (List.mem_of_mem_head? hc)) hne
  | some c' =>
    rw [hhead, Option.some_or] at hc
    exact ⟨c, hc, hne⟩

/-- The significant digits of a positive number end with no zero. -/
theorem getLast?_significant {n : Nat} (hn : 0 < n) :
    ∃ c ∈ (significant n).1.getLast?, c ≠ '0' := by
  obtain ⟨c, hc, -⟩ := head?_significant hn
  have hlast : (significant n).1.getLast? =
      ((Nat.toDigits 10 n).reverse.dropWhile (· == '0')).head? := List.getLast?_reverse
  have hnot := List.head?_dropWhile_not (· == '0') (Nat.toDigits 10 n).reverse
  rw [← hlast] at hnot
  cases h : (significant n).1.getLast? with
  | none =>
    rw [List.getLast?_eq_none_iff.mp h] at hc
    cases hc
  | some last =>
    rw [h] at hnot
    exact ⟨last, rfl, fun heq => by simp [heq] at hnot⟩

/-- The significant digits are digits. -/
theorem isDigit_significant (n : Nat) : ∀ c ∈ (significant n).1, c.isDigit = true := by
  intro c hc
  refine Nat.isDigit_of_mem_toDigits (b := 10) (n := n) (by decide) (by decide) ?_
  rw [toDigits_eq_significant]
  exact List.mem_append_left _ hc

/-- A number is what its significant digits stand for, and tenfold for each zero behind them. -/
theorem digitsValue_significant (n : Nat) :
    digitsValue (significant n).1 * 10 ^ (significant n).2 = n := by
  have hvalue : Nat.ofDigitChars 10 (Nat.toDigits 10 n) 0 = n := Nat.ofDigitChars_ten_toDigits
  rw [toDigits_eq_significant, Nat.ofDigitChars_append, Nat.ofDigitChars_replicate_zero,
    Nat.mul_comm] at hvalue
  exact hvalue

/-- Zeros in front count for nothing. -/
theorem digitsValue_zeros_append (k : Nat) (digits : List Char) :
    digitsValue (List.replicate k '0' ++ digits) = digitsValue digits := by
  rw [digitsValue, Nat.ofDigitChars_append, Nat.ofDigitChars_replicate_zero, Nat.mul_zero]
  rfl

/-- Each zero behind counts ten times what is in front. -/
theorem digitsValue_append_zeros (k : Nat) (digits : List Char) :
    digitsValue (digits ++ List.replicate k '0') = digitsValue digits * 10 ^ k := by
  rw [digitsValue, Nat.ofDigitChars_append, Nat.ofDigitChars_replicate_zero, Nat.mul_comm]
  rfl

/-! ## The text of a decimal

  Where the point is depends on the power of ten alone: behind all the digits, among them, or in
  front. -/

/-- A decimal is what its significant digits stand for, times a power of ten. -/
theorem Dec.toRat_eq_significant (d : Dec) : d.toRat =
    digitsValue (significant d.digits).1 * 10 ^ (d.exponent + (significant d.digits).2) := by
  have hdigits : (d.digits : ℚ) =
      digitsValue (significant d.digits).1 * 10 ^ (significant d.digits).2 := by
    exact_mod_cast (digitsValue_significant d.digits).symm
  rw [Dec.toRat, hdigits, zpow_add₀ (by norm_num), zpow_natCast]
  ring

/-- A text is that of a decimal. -/
structure Dec.WrittenAs (d : Dec) (text : List Char) : Prop where
  /-- There is nothing needless in the text. -/
  plain : Plain text
  /-- It stands for the decimal. -/
  number : numberOf text = d.toRat

/-- The three forms of a decimal: an integer, one with a point between its digits, and one with
    zeros between the point and the digits. -/
theorem writtenAs_positional {d : Dec} (hd : 0 < d.digits) :
    d.WrittenAs d.positional.toList := by
  have hfront := head?_significant hd
  have hback := getLast?_significant hd
  have hdigits := isDigit_significant d.digits
  have hvalue := d.toRat_eq_significant
  simp only [Dec.positional]
  generalize (significant d.digits).1 = digits at *
  generalize d.exponent + ((significant d.digits).2 : Int) = exponent at *
  have hnonempty : digits ≠ [] := by
    rintro rfl
    obtain ⟨c, hc, -⟩ := hfront
    cases hc
  have hzeros (k : Nat) : ∀ c ∈ List.replicate k '0', c.isDigit = true := fun c hc => by
    rw [List.eq_of_mem_replicate hc]
    decide
  split
  -- no digit behind the point
  · next hexponent =>
    obtain ⟨k, rfl⟩ := Int.eq_ofNat_of_zero_le hexponent
    have hall : ∀ c ∈ digits ++ List.replicate k '0', c.isDigit = true :=
      List.forall_mem_append.mpr ⟨hdigits, hzeros k⟩
    rw [String.toList_ofList, Int.toNat_natCast]
    refine ⟨.integer hall ?_, ?_⟩
    · rwa [List.head?_append_of_ne_nil _ hnonempty]
    · rw [numberOf_integer hall, digitsValue_append_zeros, hvalue, zpow_natCast]
      push_cast
      rfl
  · next hexponent =>
    split
    -- the point stands between the digits
    · next hwhole =>
      obtain ⟨w, hw⟩ := Int.eq_ofNat_of_zero_le hwhole.le
      rw [String.toList_ofList, hw, Int.toNat_natCast]
      have hall : ∀ c ∈ digits.take w ++ digits.drop w, c.isDigit = true := by
        rwa [List.take_append_drop]
      refine ⟨.fraction hall (.inr ?_) ?_, ?_⟩
      · rwa [List.head?_take, if_neg (by omega)]
      · rwa [List.getLast?_drop, if_neg (by omega)]
      · have hlength : exponent = -((digits.drop w).length : Int) := by
          rw [List.length_drop]
          omega
        rw [numberOf_fraction hall, List.take_append_drop, hvalue, hlength, zpow_neg, zpow_natCast,
          div_eq_mul_inv]
    -- the point stands in front of all of them, and there may be zeros in between
    · next hwhole =>
      obtain ⟨k, hk⟩ := Int.eq_ofNat_of_zero_le (show 0 ≤ -(digits.length + exponent) by omega)
      rw [String.toList_ofList, hk, Int.toNat_natCast]
      have hall : ∀ c ∈ ['0'] ++ (List.replicate k '0' ++ digits), c.isDigit = true :=
        List.forall_mem_append.mpr ⟨hzeros 1, List.forall_mem_append.mpr ⟨hzeros k, hdigits⟩⟩
      refine ⟨Plain.fraction hall (.inl rfl) ?_, ?_⟩
      · rwa [List.getLast?_append_of_ne_nil _ hnonempty]
      -- the single zero and those behind the point stand in front of the digits alike
      · have hlength : exponent = -((List.replicate k '0' ++ digits).length : Int) := by
          rw [List.length_append, List.length_replicate]
          omega
        have hnumber := numberOf_fraction hall
        rw [show ['0'] ++ (List.replicate k '0' ++ digits) = List.replicate (k + 1) '0' ++ digits
          from rfl, digitsValue_zeros_append] at hnumber
        rw [hvalue, hlength, zpow_neg, zpow_natCast, ← div_eq_mul_inv]
        exact hnumber

/-! ## The text of a value

  A value is a sign and a magnitude, or one of the values that are no numbers, and these are
  written as words. -/

/-- Whether a value has a sign to show. -/
def FloatValue.isNegative : FloatValue → Bool
  | .nan => false
  | .infinity negative => negative
  | .finite negative _ _ _ => negative

namespace FloatFormat
variable {f : FloatFormat}

/-- How a value is written apart from its sign. -/
inductive Writes (f : FloatFormat) : FloatValue → List Char → Prop
  /-- What is no number. -/
  | nan : f.Writes .nan "NaN".toList
  /-- Infinity. -/
  | infinity (negative : Bool) : f.Writes (.infinity negative) "inf".toList
  /-- Zero. -/
  | zero (negative : Bool) (q : Int) (b : Bool) : f.Writes (.finite negative 0 q b) "0".toList
  /-- Any other number: the shortest decimal that is rounded to it, with nothing needless. -/
  | number {negative : Bool} {m : Nat} {q : Int} {b : Bool} {text : List Char} (positive : 0 < m)
      (plain : Plain text)
      (shortest : IsShortest {x | f.RoundsTo x m q} (m * 2 ^ q) (numberOf text)) :
      f.Writes (.finite negative m q b) text

/-- A text shows a value: its sign if it is negative, and then the rest. -/
def Shows (f : FloatFormat) (v : FloatValue) (text : String) : Prop :=
  ∃ rest, f.Writes v rest ∧ text.toList = if v.isNegative then '-' :: rest else rest

/-- The shortest decimal of an interval is the shortest one that is rounded to the value. -/
theorem Stores.writes (hbits : f.fractionBits ≤ 52) {m : Nat} {q : Int} {b : Bool}
    (h : f.Stores m q b) (hm : 0 < m) (negative : Bool) :
    f.Writes (.finite negative m q b) (Interval.around m q b).shortest.positional.toList := by
  have hproper := proper_around hm q b
  have hshortest := hproper.isShortest_shortest (h.wide_around hbits)
  have hpoints : (Interval.around m q b).points = {x | f.RoundsTo x m q} :=
    Set.ext fun x => h.mem_points_around_iff hm x
  have hpos := hproper.pos_of_mem hshortest.nearest.mem.1
  have hdigits : 0 < (Interval.around m q b).shortest.digits := by
    refine Nat.pos_of_ne_zero fun hzero => ?_
    rw [Dec.toRat, hzero, Nat.cast_zero, zero_mul] at hpos
    exact lt_irrefl 0 hpos
  obtain ⟨hplain, hnumber⟩ := writtenAs_positional hdigits
  rw [hpoints, middle_around, ← hnumber] at hshortest
  exact .number hm hplain hshortest

/-- A sign in front of a text. -/
theorem toList_signed (negative : Bool) (text : String) :
    ((if negative then "-" else "") ++ text).toList =
      if negative then '-' :: text.toList else text.toList := by
  cases negative with
  | false => rw [if_neg (by decide), if_neg (by decide), String.empty_append]
  | true => rw [if_pos rfl, if_pos rfl, String.toList_append]; rfl

/-- **The text of a value shows the value**, for a significand of at most 53 bits. -/
theorem shows_text (hbits : f.fractionBits ≤ 52) (bits : Nat) :
    f.Shows (f.decode bits) (f.decode bits).text := by
  cases hv : f.decode bits with
  | nan => exact ⟨_, .nan, rfl⟩
  | infinity negative =>
    refine ⟨_, .infinity negative, ?_⟩
    cases negative <;> rfl
  | finite negative m q b =>
    rcases Nat.eq_zero_or_pos m with rfl | hm
    · exact ⟨_, .zero negative q b, toList_signed negative "0"⟩
    · refine ⟨_, (stores_of_decode hv).writes hbits hm negative, ?_⟩
      rw [FloatValue.text, if_neg hm.ne', toList_signed]
      rfl

/-! ## Back from a text

  Words and numbers in positional notation cannot be taken for each other, and neither starts with
  a sign. -/

end FloatFormat

/-- A number in positional notation starts with a digit. -/
theorem Plain.exists_cons {text : List Char} (h : Plain text) :
    ∃ c rest, text = c :: rest ∧ c.isDigit = true := by
  have hcons {whole : List Char} (hdigits : ∀ c ∈ whole, c.isDigit = true)
      (hhead : ∃ c, c ∈ whole.head?) : ∃ c rest, whole = c :: rest ∧ c.isDigit = true := by
    obtain ⟨c, hc⟩ := hhead
    obtain ⟨rest, rfl⟩ := List.head?_eq_some_iff.mp hc
    exact ⟨c, rest, rfl, hdigits c List.mem_cons_self⟩
  cases h with
  | integer digits front =>
    obtain ⟨c, hc, -⟩ := front
    exact hcons digits ⟨c, hc⟩
  | @fraction whole fraction digits front back =>
    have hhead : ∃ c, c ∈ whole.head? := by
      rcases front with rfl | ⟨c, hc, -⟩
      · exact ⟨_, rfl⟩
      · exact ⟨c, hc⟩
    obtain ⟨c, rest, rfl, hc⟩ := hcons (List.forall_mem_append.mp digits).1 hhead
    exact ⟨c, rest ++ '.' :: fraction, rfl, hc⟩

/-- Zero would have to be written with something needless. -/
theorem not_plain_zero : ¬Plain ['0'] := by
  intro h
  generalize htext : ['0'] = text at h
  cases h with
  | integer digits front =>
    obtain ⟨c, hc, hne⟩ := front
    subst htext
    exact hne (Option.mem_some.mp hc).symm
  | fraction digits front back =>
    have hpoint : '.' ∈ ['0'] := htext ▸ List.mem_append_right _ List.mem_cons_self
    exact absurd hpoint (by decide)

/-- Words and zero are no numbers in positional notation with nothing needless in them. -/
theorem Plain.ne_words {text : List Char} (h : Plain text) :
    text ≠ "NaN".toList ∧ text ≠ "inf".toList ∧ text ≠ "0".toList := by
  have hword (word : Char) (rest : List Char) (hword : word.isDigit = false) :
      text ≠ word :: rest := by
    obtain ⟨c, tail, rfl, hc⟩ := h.exists_cons
    intro heq
    obtain rfl := (List.cons.inj heq).1
    exact absurd hc (by rw [hword]; decide)
  refine ⟨hword _ _ (by decide), hword _ _ (by decide), ?_⟩
  rintro rfl
  exact not_plain_zero h

namespace FloatFormat
variable {f : FloatFormat} {v w : FloatValue} {text : List Char}

/-- Apart from its sign, nothing starts with a sign. -/
theorem Writes.not_signed {rest : List Char} (h : f.Writes v text) : text ≠ '-' :: rest := by
  rintro rfl
  cases h with
  | number _ plain _ =>
    obtain ⟨c, tail, heq, hc⟩ := plain.exists_cons
    obtain rfl := (List.cons.inj heq).1
    exact absurd hc (by decide)

/-- A text is that of one value only, if the sign is known. -/
theorem Writes.unique {a b : Nat} (hv : f.Writes (f.decode a) text)
    (hw : f.Writes (f.decode b) text)
    (hsign : (f.decode a).isNegative = (f.decode b).isNegative) : f.decode a = f.decode b := by
  generalize ha : f.decode a = v at *
  generalize hb : f.decode b = w at *
  cases hv with
  | nan =>
    cases hw with
    | nan => rfl
    | number _ plain _ => exact absurd rfl plain.ne_words.1
  | infinity =>
    cases hw with
    | infinity => exact congrArg FloatValue.infinity hsign
    | number _ plain _ => exact absurd rfl plain.ne_words.2.1
  | zero =>
    cases hw with
    | zero =>
      -- both are stored with the lowest exponent
      obtain ⟨-, rfl, rfl⟩ := (stores_of_decode ha).inj (stores_of_decode hb) (by simp)
      exact congrArg (FloatValue.finite · 0 _ _) hsign
    | number _ plain _ => exact absurd rfl plain.ne_words.2.2
  | number _ plain shortest =>
    cases hw with
    | nan => exact absurd rfl plain.ne_words.1
    | infinity => exact absurd rfl plain.ne_words.2.1
    | zero => exact absurd rfl plain.ne_words.2.2
    | number _ _ shortest' =>
      -- one number cannot be rounded to two values
      obtain ⟨rfl, rfl, rfl⟩ := RoundsTo.unique (stores_of_decode ha) (stores_of_decode hb)
        shortest.nearest.mem.1 shortest'.nearest.mem.1
      exact congrArg (FloatValue.finite · _ _ _) hsign

/-- **Two values with one text are the same.** -/
theorem text_inj (hbits : f.fractionBits ≤ 52) {a b : Nat}
    (h : (f.decode a).text = (f.decode b).text) : f.decode a = f.decode b := by
  obtain ⟨rest, hwrites, hshown⟩ := shows_text hbits a
  obtain ⟨rest', hwrites', hshown'⟩ := shows_text hbits b
  rw [h, hshown'] at hshown
  split at hshown
  · next hnegative' =>
    split at hshown
    · next hnegative =>
      obtain rfl := (List.cons.inj hshown).2
      exact hwrites.unique hwrites' (hnegative.trans hnegative'.symm)
    · exact absurd hshown.symm hwrites.not_signed
  · next hpositive' =>
    split at hshown
    · exact absurd hshown hwrites'.not_signed
    · next hpositive =>
      subst hshown
      exact hwrites.unique hwrites'
        ((Bool.eq_false_iff.mpr hpositive).trans (Bool.eq_false_iff.mpr hpositive').symm)

end FloatFormat

/-! ## The two formats

  Single and double precision, as the constants of a class file have them. -/

/-- A single-precision number is shown. -/
theorem shows_singleText (bits : UInt32) :
    FloatFormat.single.Shows (FloatFormat.single.decode bits.toNat) (singleText bits) :=
  FloatFormat.shows_text (by decide) bits.toNat

/-- A double-precision number is shown. -/
theorem shows_doubleText (bits : UInt64) :
    FloatFormat.double.Shows (FloatFormat.double.decode bits.toNat) (doubleText bits) :=
  FloatFormat.shows_text (by decide) bits.toNat

/-- The number that is nearest to a tenth. -/
example : doubleText 0x3fb999999999999a = "0.1" := by decide +kernel

end JavaClass.Decimal
