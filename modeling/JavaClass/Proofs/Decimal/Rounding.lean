/-
  Rounding to a binary floating-point format.

  A number is rounded to the nearest value of a format, and half way between two values to the one
  with the even significand (`FloatFormat.RoundsTo`).  No number is rounded to two values
  (`FloatFormat.RoundsTo.unique`).

  The values next to a given one are its significand plus or minus one, except that just below a
  power of two the values lie twice as close (`isLeast_above`, `isGreatest_below`).  Half way to
  either of them ends the interval of the numbers that are rounded to the value, so this interval is
  the one that decimals are looked for in (`mem_points_around_iff`).
-/
import JavaClass.Proofs.Decimal.Shortest
import Mathlib.Algebra.Order.Ring.Abs
import Mathlib.Algebra.Ring.Parity

namespace JavaClass.Decimal

/-! ## The values of a format

  A value is a significand times a power of two.  For most of them there are many such forms, of
  which a format has one. -/

namespace FloatFormat

/-- The exponent of the smallest values of a format. -/
def lowest (f : FloatFormat) : Int := 2 - Nat.pow 2 (f.exponentBits - 1) - f.fractionBits

/-- The magnitudes of a format, as if exponents went on without end.  Rounding takes no notice of
    the end: a number is too large for the format if what it is rounded to is. -/
def Magnitude (f : FloatFormat) (y : ℚ) : Prop :=
  ∃ (m : Nat) (q : Int), m < 2 ^ (f.fractionBits + 1) ∧ f.lowest ≤ q ∧ y = m * 2 ^ q

/-- The one form `m · 2 ^ q` that a format has for a magnitude: above the lowest exponent the first
    bit of the significand is set. -/
structure Stores (f : FloatFormat) (m : Nat) (q : Int) (atBinade : Bool) : Prop where
  /-- The significand has one bit more than the fraction field. -/
  significand_lt : m < 2 ^ (f.fractionBits + 1)
  /-- No exponent is lower than the lowest. -/
  lowest_le : f.lowest ≤ q
  /-- The first bit is set unless the exponent is the lowest. -/
  normal : f.lowest < q → 2 ^ f.fractionBits ≤ m
  /-- The values below lie closer at the powers of two, apart from the lowest exponent. -/
  binade : atBinade = true ↔ m = 2 ^ f.fractionBits ∧ f.lowest < q

/-- A number is rounded to the magnitude `m · 2 ^ q`. -/
structure RoundsTo (f : FloatFormat) (x : ℚ) (m : Nat) (q : Int) : Prop where
  /-- No magnitude is nearer to the number. -/
  nearest : ∀ y, f.Magnitude y → |x - m * 2 ^ q| ≤ |x - y|
  /-- If another one is as near, it gives way to an even significand. -/
  even : ∀ y, f.Magnitude y → y ≠ m * 2 ^ q → |x - m * 2 ^ q| = |x - y| → Even m

/-- What is decoded has the form of its format. -/
theorem stores_of_decode {f : FloatFormat} {bits m : Nat} {negative atBinade : Bool} {q : Int}
    (h : f.decode bits = .finite negative m q atBinade) : f.Stores m q atBinade := by
  have hfraction : bits % Nat.pow 2 f.fractionBits < 2 ^ f.fractionBits :=
    Nat.mod_lt _ (Nat.pow_pos (by decide))
  have hdouble : 2 ^ (f.fractionBits + 1) = 2 ^ f.fractionBits + 2 ^ f.fractionBits := by
    rw [Nat.pow_succ, Nat.mul_two]
  simp only [decode] at h
  change _ = _ at h
  generalize bits / Nat.pow 2 f.fractionBits % Nat.pow 2 f.exponentBits = exponent at h
  generalize bits % Nat.pow 2 f.fractionBits = fraction at h hfraction
  split at h
  · split at h <;> cases h
  · split at h
    · -- the smallest values
      cases h
      exact ⟨by omega, le_rfl, fun hlt => absurd hlt (lt_irrefl _),
        iff_of_false (by decide) fun hbinade => absurd hbinade.2 (lt_irrefl _)⟩
    · next hzero =>
      cases h
      have hpow : Nat.pow 2 f.fractionBits = 2 ^ f.fractionBits := rfl
      have hlowest : f.lowest = 2 - Nat.pow 2 (f.exponentBits - 1) - f.fractionBits := rfl
      refine ⟨by omega, by omega, fun _ => by omega, ?_⟩
      rw [Bool.and_eq_true, beq_iff_eq, decide_eq_true_eq]
      omega

section
variable {f : FloatFormat} {m n : Nat} {q r : Int} {b c : Bool}

/-- What is stored is a magnitude. -/
theorem Stores.magnitude (h : f.Stores m q b) : f.Magnitude (m * 2 ^ q) :=
  ⟨m, q, h.significand_lt, h.lowest_le, rfl⟩

/-- A magnitude with a lower exponent is smaller than a full significand allows. -/
theorem lt_of_exponent_lt (hn : n < 2 ^ (f.fractionBits + 1)) (hrq : r < q)
    (hm : 2 ^ f.fractionBits ≤ m) : (n : ℚ) * 2 ^ r < m * 2 ^ q := by
  have hr : (0 : ℚ) < 2 ^ r := by positivity
  calc (n : ℚ) * 2 ^ r
      < 2 ^ (f.fractionBits + 1) * 2 ^ r := mul_lt_mul_of_pos_right (by exact_mod_cast hn) hr
    _ = 2 ^ f.fractionBits * 2 ^ (r + 1) := by
      rw [zpow_add_one₀ (by norm_num), pow_succ]
      ring
    _ ≤ m * 2 ^ q := by
      refine mul_le_mul (by exact_mod_cast hm) ?_ (by positivity) (by positivity)
      exact zpow_le_zpow_right₀ (by norm_num) (by omega)

/-- A magnitude is stored in one form only. -/
theorem Stores.inj (h : f.Stores m q b) (h' : f.Stores n r c)
    (heq : (m : ℚ) * 2 ^ q = n * 2 ^ r) : m = n ∧ q = r ∧ b = c := by
  have hexp : q = r := by
    rcases lt_trichotomy q r with hlt | hexp | hlt
    · have hnormal := h'.normal (h.lowest_le.trans_lt hlt)
      exact absurd heq (lt_of_exponent_lt h.significand_lt hlt hnormal).ne
    · exact hexp
    · have hnormal := h.normal (h'.lowest_le.trans_lt hlt)
      exact absurd heq.symm (lt_of_exponent_lt h'.significand_lt hlt hnormal).ne
  subst hexp
  have hpow : (2 : ℚ) ^ q ≠ 0 := by positivity
  have hsignificand : m = n := by exact_mod_cast mul_right_cancel₀ hpow heq
  subst hsignificand
  exact ⟨rfl, rfl, Bool.eq_iff_iff.mpr (h.binade.trans h'.binade.symm)⟩

/-! ## The values next to a value

  One step of the significand leads to the next value, unless it leads over a power of two. -/

/-- How far below a value the next one is. -/
def gapBelow (q : Int) (atBinade : Bool) : ℚ := if atBinade then 2 ^ (q - 1) else 2 ^ q

/-- A magnitude with an exponent that is no lower is a multiple of the same power of two. -/
theorem exists_multiple (hqr : q ≤ r) (n : Nat) : ∃ k : Nat, (n : ℚ) * 2 ^ r = k * 2 ^ q := by
  obtain ⟨j, rfl⟩ := Int.le.dest hqr
  refine ⟨n * 2 ^ j, ?_⟩
  rw [zpow_add₀ (by norm_num), zpow_natCast]
  push_cast
  ring

/-- The next magnitude above a value has the next significand. -/
theorem Stores.isLeast_above (h : f.Stores m q b) :
    IsLeast {y | f.Magnitude y ∧ (m : ℚ) * 2 ^ q < y} ((m + 1) * 2 ^ q) := by
  have hq : (0 : ℚ) < 2 ^ q := by positivity
  refine ⟨⟨?_, mul_lt_mul_of_pos_right (lt_add_one _) hq⟩, ?_⟩
  · have hsignificand := h.significand_lt
    rcases Nat.lt_or_eq_of_le (Nat.succ_le_of_lt hsignificand) with hlt | heq
    · exact ⟨m + 1, q, hlt, h.lowest_le, by push_cast; rfl⟩
    · -- a carry into the exponent
      refine ⟨2 ^ f.fractionBits, q + 1, Nat.pow_lt_pow_right (by decide) (by omega),
        by have := h.lowest_le; omega, ?_⟩
      have hcast : (m : ℚ) + 1 = 2 ^ (f.fractionBits + 1) := by exact_mod_cast heq
      rw [hcast, zpow_add_one₀ (by norm_num), pow_succ]
      push_cast
      ring
  · rintro y ⟨⟨n, r, hn, hr, rfl⟩, hlt⟩
    rcases Int.lt_or_le r q with hrq | hqr
    · -- no room above the value for a lower exponent
      have hnormal := h.normal (hr.trans_lt hrq)
      exact absurd hlt (lt_of_exponent_lt hn hrq hnormal).not_gt
    · obtain ⟨k, hk⟩ := exists_multiple hqr n
      rw [hk] at hlt ⊢
      have hkm : m < k := by exact_mod_cast lt_of_mul_lt_mul_right hlt hq.le
      exact mul_le_mul_of_nonneg_right (by exact_mod_cast hkm) hq.le

/-- Below a significand with nothing in front of its first bit, the next magnitude has the
    significand less one. -/
theorem isGreatest_pred {k : Nat} (hk : k ≤ 2 ^ (f.fractionBits + 1)) (hpos : 0 < k)
    (hq : f.lowest ≤ q) (hfull : f.lowest < q → 2 ^ f.fractionBits ≤ k - 1) :
    IsGreatest {y | f.Magnitude y ∧ y < (k : ℚ) * 2 ^ q} ((k - 1) * 2 ^ q) := by
  have hpow : (0 : ℚ) < 2 ^ q := by positivity
  have hcast : (k : ℚ) - 1 = (k - 1 : Nat) := (Nat.cast_pred hpos).symm
  rw [hcast]
  refine ⟨⟨⟨k - 1, q, by omega, hq, rfl⟩, ?_⟩, ?_⟩
  · exact mul_lt_mul_of_pos_right (by exact_mod_cast (show k - 1 < k by omega)) hpow
  · rintro y ⟨⟨n, r, hn, hr, rfl⟩, hlt⟩
    rcases Int.lt_or_le r q with hrq | hqr
    · exact (lt_of_exponent_lt hn hrq (hfull (hr.trans_lt hrq))).le
    · obtain ⟨j, hj⟩ := exists_multiple hqr n
      rw [hj] at hlt ⊢
      have hjk : j < k := by exact_mod_cast lt_of_mul_lt_mul_right hlt hpow.le
      exact mul_le_mul_of_nonneg_right (by exact_mod_cast (show j ≤ k - 1 by omega)) hpow.le

/-- The next magnitude below a value is one step down, or half a step below a power of two. -/
theorem Stores.isGreatest_below (h : f.Stores m q b) (hm : 0 < m) :
    IsGreatest {y | f.Magnitude y ∧ y < (m : ℚ) * 2 ^ q} (m * 2 ^ q - gapBelow q b) := by
  have hsignificand := h.significand_lt
  cases b with
  | false =>
    have hbinade : ¬(m = 2 ^ f.fractionBits ∧ f.lowest < q) := fun hboth =>
      Bool.noConfusion (h.binade.mpr hboth)
    have hpred := isGreatest_pred hsignificand.le hm h.lowest_le fun hlt => by
      have hnormal := h.normal hlt
      have hne : m ≠ 2 ^ f.fractionBits := fun heq => hbinade ⟨heq, hlt⟩
      omega
    rwa [sub_mul, one_mul] at hpred
  | true =>
    obtain ⟨rfl, hlt⟩ := h.binade.mp rfl
    -- the same number with one more bit
    have hdouble : ((2 ^ (f.fractionBits + 1) : Nat) : ℚ) * 2 ^ (q - 1) =
        (2 ^ f.fractionBits : Nat) * 2 ^ q := by
      rw [zpow_sub_one₀ (by norm_num), pow_succ]
      push_cast
      ring
    have hpred := isGreatest_pred (f := f) le_rfl (Nat.pow_pos (by decide))
      (show f.lowest ≤ q - 1 by omega) fun _ => by rw [Nat.pow_succ]; omega
    rwa [sub_mul, one_mul, hdouble] at hpred

end

/-! ## What is rounded to a value

  Rounding compares with all the values of a format.  It is enough to compare with the two next to
  it, for all others are farther away on the same side. -/

/-- Nearer to the smaller of two numbers is what lies below their middle. -/
theorem nearer_iff {x v w : ℚ} (h : v < w) : |x - v| ≤ |x - w| ↔ x ≤ (v + w) / 2 := by
  rw [← sq_le_sq, ← sub_nonneg, show (x - w) ^ 2 - (x - v) ^ 2 = (w - v) * (v + w - 2 * x) by ring,
    mul_nonneg_iff_of_pos_left (sub_pos.mpr h)]
  constructor <;> intro hx <;> linarith

/-- Nearer to the larger of two numbers is what lies above their middle. -/
theorem nearer_iff' {x v w : ℚ} (h : w < v) : |x - v| ≤ |x - w| ↔ (w + v) / 2 ≤ x := by
  rw [← sq_le_sq, ← sub_nonneg, show (x - w) ^ 2 - (x - v) ^ 2 = (v - w) * (2 * x - w - v) by ring,
    mul_nonneg_iff_of_pos_left (sub_pos.mpr h)]
  constructor <;> intro hx <;> linarith

/-- As near to one of two numbers as to the other is their middle alone. -/
theorem as_near_iff {x v w : ℚ} (h : w ≠ v) : |x - v| = |x - w| ↔ x = (v + w) / 2 := by
  rw [abs_eq_abs]
  constructor
  · rintro (heq | heq)
    · exact absurd (by linarith) h
    · linarith
  · intro heq
    exact .inr (by linarith)

section
variable {f : FloatFormat} {m : Nat} {q : Int} {b : Bool}

/-- A quarter of `2 ^ q` is what the ends and the value of an interval are counted in. -/
theorem quarters (k : Nat) (q : Int) :
    ((k * Nat.pow 2 q.toNat : Nat) : ℚ) / (4 * Nat.pow 2 (-q).toNat : Nat) = k / 4 * 2 ^ q := by
  have hpow := pow_toNat_div_pow_toNat 2 q
  rw [Nat.cast_ofNat] at hpow
  rw [← hpow, Nat.cast_mul, Nat.cast_mul, mul_div_mul_comm]
  rfl

/-- The interval is about the value. -/
theorem middle_around (m : Nat) (q : Int) (b : Bool) :
    (Interval.around m q b).middle = m * 2 ^ q := by
  refine (quarters (4 * m) q).trans ?_
  push_cast
  ring

/-- It starts half way to the next value below. -/
theorem low_around (hm : 0 < m) (q : Int) (b : Bool) :
    ((Interval.around m q b).low : ℚ) / (Interval.around m q b).den =
      m * 2 ^ q - gapBelow q b / 2 := by
  refine (quarters (4 * m - if b then 1 else 2) q).trans ?_
  have hle : (if b = true then 1 else 2) ≤ 4 * m := by split <;> omega
  rw [Nat.cast_sub hle]
  cases b with
  | false =>
    simp only [gapBelow, Bool.false_eq_true, if_false]
    push_cast
    ring
  | true =>
    simp only [gapBelow, if_true, zpow_sub_one₀ (two_ne_zero (α := ℚ))]
    push_cast
    ring

/-- It ends half way to the next value above. -/
theorem high_around (m : Nat) (q : Int) (b : Bool) :
    ((Interval.around m q b).high : ℚ) / (Interval.around m q b).den =
      m * 2 ^ q + 2 ^ q / 2 := by
  refine (quarters (4 * m + 2) q).trans ?_
  push_cast
  ring

/-- The ends of the interval are half way to the next values, and belong to it if the significand is
    even. -/
theorem mem_points_around (hm : 0 < m) {x : ℚ} : x ∈ (Interval.around m q b).points ↔
    if Even m then m * 2 ^ q - gapBelow q b / 2 ≤ x ∧ x ≤ m * 2 ^ q + 2 ^ q / 2
    else m * 2 ^ q - gapBelow q b / 2 < x ∧ x < m * 2 ^ q + 2 ^ q / 2 := by
  have hclosed : (Interval.around m q b).closed = true ↔ Even m :=
    beq_iff_eq.trans Nat.even_iff.symm
  rw [Interval.points, low_around hm, high_around]
  by_cases heven : Even m
  · rw [if_pos (hclosed.mpr heven), if_pos heven]
    rfl
  · rw [if_neg (mt hclosed.mp heven), if_neg heven]
    rfl

theorem gapBelow_pos (q : Int) (b : Bool) : 0 < gapBelow q b := by
  unfold gapBelow
  split <;> positivity

/-- The interval around a value that is not zero holds positive numbers only. -/
theorem proper_around (hm : 0 < m) (q : Int) (b : Bool) : (Interval.around m q b).Proper := by
  have hscale : 0 < Nat.pow 2 q.toNat := Nat.pow_pos (by decide)
  refine ⟨Nat.mul_pos (by decide) (Nat.pow_pos (by decide)), Nat.mul_pos ?_ hscale,
    Nat.mul_lt_mul_of_pos_right ?_ hscale, Nat.mul_lt_mul_of_pos_right ?_ hscale⟩
  · split <;> omega
  · split <;> omega
  · omega

/-- With at most 53 bits of significand, seventeen digits are enough. -/
theorem Stores.wide_around (h : f.Stores m q b) (hbits : f.fractionBits ≤ 52) :
    (Interval.around m q b).Wide := by
  have hscale : 0 < Nat.pow 2 q.toNat := Nat.pow_pos (by decide)
  have hlt : m < 2 ^ 53 := h.significand_lt.trans_le (Nat.pow_le_pow_right (by decide) (by omega))
  show 4 * m * Nat.pow 2 q.toNat < ((4 * m + 2) * Nat.pow 2 q.toNat -
    (4 * m - if b then 1 else 2) * Nat.pow 2 q.toNat) * 10 ^ 16
  rw [← Nat.sub_mul, Nat.mul_right_comm (_ - _)]
  refine Nat.mul_lt_mul_of_pos_right ?_ hscale
  cases b with
  | false => simp only [Bool.false_eq_true, if_false]; omega
  | true =>
    have hle : m ≤ 2 ^ 52 :=
      (h.binade.mp rfl).1.le.trans (Nat.pow_le_pow_right (by decide) hbits)
    simp only [if_true]
    omega

/-- **The interval around a value holds exactly the numbers that are rounded to it.** -/
theorem Stores.mem_points_around_iff (h : f.Stores m q b) (hm : 0 < m) (x : ℚ) :
    x ∈ (Interval.around m q b).points ↔ f.RoundsTo x m q := by
  have hq : (0 : ℚ) < 2 ^ q := by positivity
  have hgap := gapBelow_pos q b
  obtain ⟨⟨habove, hup⟩, hleast⟩ := h.isLeast_above
  obtain ⟨⟨hbelow, hdown⟩, hgreatest⟩ := h.isGreatest_below hm
  rw [mem_points_around hm]
  constructor
  · intro hx
    -- whether or not the ends belong to it
    have hends : m * 2 ^ q - gapBelow q b / 2 ≤ x ∧ x ≤ m * 2 ^ q + 2 ^ q / 2 := by
      split at hx
      · exact hx
      · exact ⟨hx.1.le, hx.2.le⟩
    have hside : ∀ y, f.Magnitude y → y ≠ m * 2 ^ q →
        y ≤ m * 2 ^ q - gapBelow q b ∨ (m + 1) * 2 ^ q ≤ y := by
      intro y hy hne
      rcases lt_or_gt_of_ne hne with hlt | hlt
      · exact .inl (hgreatest ⟨hy, hlt⟩)
      · exact .inr (hleast ⟨hy, hlt⟩)
    constructor
    · intro y hy
      by_cases hne : y = m * 2 ^ q
      · rw [hne]
      · rcases hside y hy hne with hle | hle
        · exact (nearer_iff' (hle.trans_lt hdown)).mpr (by linarith)
        · exact (nearer_iff (hup.trans_le hle)).mpr (by linarith)
    · intro y hy hne htie
      -- as near as another: at an end, which belongs to it
      rw [as_near_iff hne] at htie
      by_contra hodd
      rw [if_neg hodd] at hx
      rcases hside y hy hne with hle | hle <;> linarith
  · intro hx
    have hlow := (nearer_iff' hdown).mp (hx.nearest _ hbelow)
    have hhigh := (nearer_iff hup).mp (hx.nearest _ habove)
    split
    · exact ⟨by linarith, by linarith⟩
    · next hodd =>
      refine ⟨lt_of_le_of_ne (by linarith) fun heq => ?_,
        lt_of_le_of_ne (by linarith) fun heq => ?_⟩
      · exact hodd (hx.even _ hbelow hdown.ne ((as_near_iff hdown.ne).mpr (by linarith)))
      · exact hodd (hx.even _ habove hup.ne' ((as_near_iff hup.ne').mpr (by linarith)))

/-- Two values that a number is rounded to are no different: half way between the two, one of them
    would have to be odd. -/
theorem not_lt_of_roundsTo {n : Nat} {r : Int} {c : Bool} (h : f.Stores m q b)
    (h' : f.Stores n r c) {x : ℚ} (hx : f.RoundsTo x m q) (hx' : f.RoundsTo x n r) :
    ¬(m : ℚ) * 2 ^ q < n * 2 ^ r := by
  intro hlt
  have hle := (nearer_iff hlt).mp (hx.nearest _ h'.magnitude)
  have hge := (nearer_iff' hlt).mp (hx'.nearest _ h.magnitude)
  have hhalf : x = (m * 2 ^ q + n * 2 ^ r) / 2 := le_antisymm hle hge
  have heven : Even m := hx.even _ h'.magnitude hlt.ne' ((as_near_iff hlt.ne').mpr hhalf)
  have heven' : Even n :=
    hx'.even _ h.magnitude hlt.ne ((as_near_iff hlt.ne).mpr (by rw [hhalf, add_comm]))
  -- there is no value in between
  obtain ⟨⟨habove, hup⟩, hleast⟩ := h.isLeast_above
  have hnext : (m + 1) * 2 ^ q = (n : ℚ) * 2 ^ r := by
    have hnear := (nearer_iff hup).mp (hx.nearest _ habove)
    exact le_antisymm (hleast ⟨h'.magnitude, hlt⟩) (by linarith)
  -- and the next significand fits as well, as it is odd
  have hfits : f.Stores (m + 1) q false := by
    have hlt := h.significand_lt
    have hne : m + 1 ≠ 2 ^ (f.fractionBits + 1) := fun heq =>
      Nat.not_even_iff_odd.mpr heven.add_one
        (heq ▸ Nat.even_pow.mpr ⟨even_two, Nat.succ_ne_zero _⟩)
    refine ⟨by omega, h.lowest_le, fun hlow => (h.normal hlow).trans (Nat.le_succ m), ?_⟩
    refine iff_of_false Bool.false_ne_true fun hbinade => ?_
    have hnormal := h.normal hbinade.2
    omega
  obtain ⟨rfl, -, -⟩ := hfits.inj h' (by push_cast; exact hnext)
  exact Nat.not_even_iff_odd.mpr heven.add_one heven'

/-- **A number is rounded to one value at most.** -/
theorem RoundsTo.unique {n : Nat} {r : Int} {c : Bool} (h : f.Stores m q b)
    (h' : f.Stores n r c) {x : ℚ} (hx : f.RoundsTo x m q) (hx' : f.RoundsTo x n r) :
    m = n ∧ q = r ∧ b = c := by
  refine h.inj h' ?_
  rcases lt_trichotomy ((m : ℚ) * 2 ^ q) (n * 2 ^ r) with hlt | heq | hlt
  · exact absurd hlt (not_lt_of_roundsTo h h' hx hx')
  · exact heq
  · exact absurd hlt (not_lt_of_roundsTo h' h hx' hx)

end

end FloatFormat

end JavaClass.Decimal
