/-
  The shortest decimal of an interval.

  The search goes over the grids of the multiples of a power of ten, from the coarsest on, and looks
  at two points of each.  Here the same is said without a search: `IsShortest` singles out a number
  of a set by the digits that it needs and by its distance from a value, and no two numbers answer
  to it (`IsShortest.unique`).

  Two observations carry the search.  An interval has no gaps, so if a point of a grid lies in it
  then so does the neighbour of the value on the same side (`exists_neighbour`).  And a decimal of
  `n` digits that is no point of the grid of `n` digits lies below the power of ten that the value
  starts at, which is such a point (`exists_onGrid_of_withDigits`).  Seventeen digits are enough for
  an interval that is wider than its value divided by `10 ^ 16` (`isShortest_shortest`).
-/
import JavaClass.Decimal.Shortest
import Mathlib.Algebra.Order.Field.Power
import Mathlib.Algebra.Order.Floor.Semifield
import Mathlib.Data.Rat.Floor
import Mathlib.Order.Interval.Set.OrdConnected
import Mathlib.Tactic.FieldSimp
import Mathlib.Tactic.Linarith
import Mathlib.Tactic.Positivity

namespace JavaClass.Decimal

/-! ## Powers of ten

  The search counts with natural numbers: a power of ten is a quotient of two of them. -/

theorem tenNum_pos (e : Int) : 0 < tenNum e := Nat.pow_pos (by decide)

theorem tenDen_pos (e : Int) : 0 < tenDen e := Nat.pow_pos (by decide)

/-- A power is a quotient of which one side is one. -/
theorem pow_toNat_div_pow_toNat (b : Nat) (e : Int) :
    (Nat.pow b e.toNat : ℚ) / (Nat.pow b (-e).toNat : Nat) = (b : ℚ) ^ e := by
  obtain ⟨n, rfl | rfl⟩ := e.eq_nat_or_neg <;> simp

theorem tenNum_div_tenDen (e : Int) : (tenNum e : ℚ) / tenDen e = 10 ^ e :=
  pow_toNat_div_pow_toNat 10 e

/-- A number lies below a power of ten exactly if it has no more digits. -/
theorem digitCount_le_iff {n k : Nat} : digitCount n ≤ k ↔ n < 10 ^ k := by
  induction n using Nat.strongRecOn generalizing k with
  | ind n ih =>
    rw [digitCount]
    split
    · next h => simp [h]
    · next h =>
      cases k with
      | zero => simp [h]
      | succ k =>
        rw [Nat.succ_le_succ_iff, ih (n / 10) (by omega), Nat.pow_succ,
          Nat.div_lt_iff_lt_mul (by decide)]

theorem lt_pow_digitCount (n : Nat) : n < 10 ^ digitCount n := digitCount_le_iff.mp le_rfl

theorem digitCount_pos {n : Nat} (h : n ≠ 0) : 0 < digitCount n := by
  by_contra hzero
  have hlt : n < 10 ^ 0 := digitCount_le_iff.mp (by omega)
  omega

/-- The first of the digits of a number is no zero. -/
theorem pow_le_of_digitCount {n : Nat} (h : n ≠ 0) : 10 ^ (digitCount n - 1) ≤ n := by
  have hpos := digitCount_pos h
  by_contra hlt
  have hle : digitCount n ≤ digitCount n - 1 := digitCount_le_iff.mpr (by omega)
  omega

/-! ## Decimals

  A number with `n` digits is a point of some grid, the multiples of a power of ten, and which
  multiple it is takes no more than `n` digits to write. -/

/-- The number that a decimal stands for. -/
def Dec.toRat (d : Dec) : ℚ := d.digits * 10 ^ d.exponent

/-- The numbers that can be written with `n` digits, followed by zeros or behind a point. -/
def WithDigits (n : Nat) (x : ℚ) : Prop := ∃ d : Dec, d.digits < 10 ^ n ∧ x = d.toRat

/-- The multiples of a power of ten. -/
def OnGrid (e : Int) (x : ℚ) : Prop := ∃ k : Nat, x = k * 10 ^ e

/-- A decimal as a quotient of natural numbers. -/
theorem Dec.toRat_eq_div (d : Dec) :
    d.toRat = (d.digits * tenNum d.exponent : Nat) / (tenDen d.exponent : Nat) := by
  rw [toRat, ← tenNum_div_tenDen, Nat.cast_mul, mul_div_assoc]

/-- More digits do as well. -/
theorem WithDigits.mono {m n : Nat} {x : ℚ} (h : WithDigits m x) (hmn : m ≤ n) :
    WithDigits n x := by
  obtain ⟨d, hd, rfl⟩ := h
  exact ⟨d, hd.trans_le (Nat.pow_le_pow_right (by decide) hmn), rfl⟩

/-- A multiple of a power of ten is one of every smaller power. -/
theorem onGrid_of_le {e f : Int} (h : e ≤ f) (k : Nat) : OnGrid e (k * 10 ^ f) := by
  obtain ⟨n, rfl⟩ := Int.le.dest h
  refine ⟨k * 10 ^ n, ?_⟩
  rw [zpow_add₀ (by norm_num), zpow_natCast]
  push_cast
  ring

/-! ## Intervals

  The ends and the value of an interval share a denominator, so that comparing them is comparing
  natural numbers. -/

/-- The numbers of an interval. -/
def Interval.points (i : Interval) : Set ℚ :=
  if i.closed then Set.Icc (i.low / i.den) (i.high / i.den)
  else Set.Ioo (i.low / i.den) (i.high / i.den)

/-- The value that an interval is about. -/
def Interval.middle (i : Interval) : ℚ := i.value / i.den

/-- An interval of positive numbers around its value. -/
structure Interval.Proper (i : Interval) : Prop where
  /-- There is something to divide by. -/
  den_pos : 0 < i.den
  /-- Zero lies below the interval. -/
  low_pos : 0 < i.low
  /-- The value lies above the lower end. -/
  low_lt : i.low < i.value
  /-- The value lies below the upper end. -/
  lt_high : i.value < i.high

/-- What lies between two numbers of an interval is in it as well. -/
theorem Interval.ordConnected_points (i : Interval) : i.points.OrdConnected := by
  unfold points
  split
  · exact Set.ordConnected_Icc
  · exact Set.ordConnected_Ioo

/-- The test of a decimal is whether it lies in the interval. -/
theorem Interval.contains_iff {i : Interval} (h : i.Proper) (d : Dec) :
    i.contains d = true ↔ d.toRat ∈ i.points := by
  have hden : (0 : ℚ) < i.den := by exact_mod_cast h.den_pos
  have hten : (0 : ℚ) < tenDen d.exponent := by exact_mod_cast tenDen_pos _
  rw [Dec.toRat_eq_div, points, contains]
  cases i.closed with
  | true =>
    simp only [if_true, Bool.and_eq_true, decide_eq_true_eq, Set.mem_Icc]
    rw [div_le_div_iff₀ hden hten, div_le_div_iff₀ hten hden]
    norm_cast
  | false =>
    simp only [Bool.false_eq_true, if_false, Bool.and_eq_true, decide_eq_true_eq, Set.mem_Ioo]
    rw [div_lt_div_iff₀ hden hten, div_lt_div_iff₀ hten hden]
    norm_cast

section
variable {i : Interval} (h : i.Proper)
include h

/-- The value lies in its interval. -/
theorem Interval.Proper.middle_mem : i.middle ∈ i.points := by
  have hden : (0 : ℚ) < i.den := by exact_mod_cast h.den_pos
  have hlow : (i.low : ℚ) / i.den < i.middle :=
    div_lt_div_of_pos_right (by exact_mod_cast h.low_lt) hden
  have hhigh : i.middle < (i.high : ℚ) / i.den :=
    div_lt_div_of_pos_right (by exact_mod_cast h.lt_high) hden
  unfold Interval.points
  split
  · exact ⟨hlow.le, hhigh.le⟩
  · exact ⟨hlow, hhigh⟩

/-- All numbers of the interval are positive. -/
theorem Interval.Proper.pos_of_mem {x : ℚ} (hx : x ∈ i.points) : 0 < x := by
  have hden : (0 : ℚ) < i.den := by exact_mod_cast h.den_pos
  have hlow : (0 : ℚ) < i.low / i.den := div_pos (by exact_mod_cast h.low_pos) hden
  unfold Interval.points at hx
  split at hx
  · exact hlow.trans_le hx.1
  · exact hlow.trans hx.1

theorem Interval.Proper.middle_pos : 0 < i.middle := h.pos_of_mem h.middle_mem

/-- The distances of two decimals with the same exponent compare as they should. -/
theorem Interval.Proper.distance_lt_iff {c d : Dec} (hexp : c.exponent = d.exponent) :
    i.distance c < i.distance d ↔ |c.toRat - i.middle| < |d.toRat - i.middle| := by
  have hden : (0 : ℚ) < i.den := by exact_mod_cast h.den_pos
  -- a distance is that of the numbers, over the common denominator
  have hscaled (b : Dec) :
      (i.distance b : ℚ) = |b.toRat - i.middle| * (i.den * tenDen b.exponent) := by
    have hten : (0 : ℚ) < tenDen b.exponent := by exact_mod_cast tenDen_pos _
    have habs (m n : Nat) : ((m - n + (n - m) : Nat) : ℚ) = |(m : ℚ) - n| := by
      rcases le_total m n with hmn | hmn
      · rw [Nat.sub_eq_zero_of_le hmn, Nat.zero_add, Nat.cast_sub hmn, abs_sub_comm,
          abs_of_nonneg (sub_nonneg.mpr (by exact_mod_cast hmn))]
      · rw [Nat.sub_eq_zero_of_le hmn, Nat.add_zero, Nat.cast_sub hmn,
          abs_of_nonneg (sub_nonneg.mpr (by exact_mod_cast hmn))]
    rw [distance, habs, Dec.toRat_eq_div, middle, ← abs_of_pos (mul_pos hden hten), ← abs_mul]
    congr 1
    push_cast
    field_simp
  have hten : (0 : ℚ) < tenDen d.exponent := by exact_mod_cast tenDen_pos _
  rw [← Nat.cast_lt (α := ℚ), hscaled, hscaled, hexp, mul_lt_mul_iff_left₀ (mul_pos hden hten)]

/-! ## The size of the value -/

/-- The value lies between two powers of ten, and `magnitude` is the exponent of the upper one. -/
theorem Interval.Proper.magnitude_spec :
    10 ^ (i.magnitude - 1) ≤ i.middle ∧ i.middle < 10 ^ i.magnitude := by
  have hden : (0 : ℚ) < i.den := by exact_mod_cast h.den_pos
  have hvalue : (0 : ℚ) < i.value := by exact_mod_cast h.low_pos.trans h.low_lt
  unfold Interval.magnitude
  split
  · next hle =>
    -- at least one: the digits in front of the point
    have hfloor : i.value / i.den ≠ 0 := (Nat.div_pos hle h.den_pos).ne'
    have hlow := pow_le_of_digitCount hfloor
    have hhigh := lt_pow_digitCount (i.value / i.den)
    rw [Nat.le_div_iff_mul_le h.den_pos] at hlow
    rw [Nat.div_lt_iff_lt_mul h.den_pos] at hhigh
    constructor
    · rw [middle, le_div_iff₀ hden, ← Nat.cast_pred (digitCount_pos hfloor), zpow_natCast]
      exact_mod_cast hlow
    · rw [middle, div_lt_iff₀ hden, zpow_natCast]
      exact_mod_cast hhigh
  · next hlt =>
    -- below one: the digits in front of the point of what is just below the inverse
    have hpos := h.low_pos.trans h.low_lt
    have hfloor : (i.den - 1) / i.value ≠ 0 := (Nat.div_pos (by omega) hpos).ne'
    have hlow := pow_le_of_digitCount hfloor
    have hhigh := lt_pow_digitCount ((i.den - 1) / i.value)
    rw [Nat.le_div_iff_mul_le hpos] at hlow
    rw [Nat.div_lt_iff_lt_mul hpos] at hhigh
    have hdigits := digitCount_pos hfloor
    generalize digitCount ((i.den - 1) / i.value) = n at *
    constructor
    · have hle : (i.den : ℚ) ≤ 10 ^ n * i.value := by
        exact_mod_cast (show i.den ≤ 10 ^ n * i.value by omega)
      rw [show (1 : Int) - n - 1 = -n by omega, zpow_neg, zpow_natCast, middle,
        inv_le_iff_one_le_mul₀ (by positivity), div_mul_eq_mul_div, one_le_div hden, mul_comm]
      exact hle
    · have hlt : (10 : ℚ) ^ (n - 1) * i.value < i.den := by
        have := h.den_pos
        exact_mod_cast (show 10 ^ (n - 1) * i.value < i.den by omega)
      rw [show (1 : Int) - n = -(n - 1 : Nat) by omega, zpow_neg, zpow_natCast, middle,
        lt_inv_comm₀ (by positivity) (by positivity), inv_div, lt_div_iff₀ hvalue]
      exact hlt

end

/-! ## One grid

  On a grid the value has a neighbour at or below it, and one above.  The points of the grid that
  are nearest to the value are among the two. -/

/-- Which multiple of a power of ten the value is at or just above. -/
def Interval.below (i : Interval) (e : Int) : Nat := i.value * tenDen e / (tenNum e * i.den)

/-- The neighbour of the value on a grid that is at or below it. -/
def Interval.down (i : Interval) (e : Int) : Dec := ⟨i.below e, e⟩

/-- The neighbour of the value on a grid that is above it. -/
def Interval.up (i : Interval) (e : Int) : Dec := ⟨i.below e + 1, e⟩

/-- A grid is tested at the two neighbours of the value. -/
theorem Interval.onGrid_eq (i : Interval) (e : Int) : i.onGrid e =
    match i.contains (i.down e), i.contains (i.up e) with
    | true, true => some (if i.distance (i.down e) < i.distance (i.up e) then i.down e else i.up e)
    | true, false => some (i.down e)
    | false, true => some (i.up e)
    | false, false => none := rfl

section
variable {i : Interval} (h : i.Proper)
include h

/-- The division rounds down. -/
theorem Interval.Proper.below_eq_floor (e : Int) : i.below e = ⌊i.middle / 10 ^ e⌋₊ := by
  rw [Interval.below, ← Nat.floor_div_eq_div (K := ℚ), middle, ← tenNum_div_tenDen]
  congr 1
  have hnum : (tenNum e : ℚ) ≠ 0 := by exact_mod_cast (tenNum_pos e).ne'
  have hten : (tenDen e : ℚ) ≠ 0 := by exact_mod_cast (tenDen_pos e).ne'
  have hden : (i.den : ℚ) ≠ 0 := by exact_mod_cast h.den_pos.ne'
  push_cast
  field_simp

/-- The lower neighbour is at or below the value. -/
theorem Interval.Proper.down_le (e : Int) : (i.down e).toRat ≤ i.middle := by
  have hten : (0 : ℚ) < 10 ^ e := by positivity
  rw [Dec.toRat, down, h.below_eq_floor, ← le_div_iff₀ hten]
  exact Nat.floor_le (div_nonneg h.middle_pos.le hten.le)

/-- The upper neighbour is above the value. -/
theorem Interval.Proper.lt_up (e : Int) : i.middle < (i.up e).toRat := by
  have hten : (0 : ℚ) < 10 ^ e := by positivity
  rw [Dec.toRat, up, h.below_eq_floor, Nat.cast_succ, ← div_lt_iff₀ hten]
  exact Nat.lt_floor_add_one _

end

/-- There is nothing on a grid between the two neighbours. -/
theorem Interval.le_down_or_up_le (i : Interval) {e : Int} {x : ℚ} (hx : OnGrid e x) :
    x ≤ (i.down e).toRat ∨ (i.up e).toRat ≤ x := by
  have hten : (0 : ℚ) < 10 ^ e := by positivity
  obtain ⟨k, rfl⟩ := hx
  rcases Nat.lt_or_ge (i.below e) k with hlt | hle
  · exact .inr (mul_le_mul_of_nonneg_right (by exact_mod_cast hlt) hten.le)
  · exact .inl (mul_le_mul_of_nonneg_right (by exact_mod_cast hle) hten.le)

/-- A number of a set that lies nearest to a value, and the largest of those that lie as near. -/
structure IsNearest (s : Set ℚ) (v x : ℚ) : Prop where
  /-- It is in the set. -/
  mem : x ∈ s
  /-- No other is nearer. -/
  le : ∀ y ∈ s, |x - v| ≤ |y - v|
  /-- Another that is as near is smaller. -/
  larger : ∀ y ∈ s, |x - v| = |y - v| → y ≤ x

/-- The distance of what is not above a value. -/
theorem distance_below {v x : ℚ} (h : x ≤ v) : |x - v| = v - x := by
  rw [abs_sub_comm, abs_of_nonneg (sub_nonneg.mpr h)]

/-- The distance of what is not below a value. -/
theorem distance_above {v x : ℚ} (h : v ≤ x) : |x - v| = x - v :=
  abs_of_nonneg (sub_nonneg.mpr h)

/-- The points of a grid in an interval. -/
def Interval.pointsOn (i : Interval) (e : Int) : Set ℚ := {x ∈ i.points | OnGrid e x}

section
variable {i : Interval} (h : i.Proper) {e : Int}
include h

/-- An interval has no gaps: if a point of a grid lies in it, so does the neighbour of the value on
    the same side. -/
theorem Interval.Proper.exists_neighbour {x : ℚ} (hx : x ∈ i.pointsOn e) :
    x ≤ (i.down e).toRat ∧ (i.down e).toRat ∈ i.points ∨
      (i.up e).toRat ≤ x ∧ (i.up e).toRat ∈ i.points := by
  obtain ⟨hmem, hgrid⟩ := hx
  rcases i.le_down_or_up_le hgrid with hle | hle
  · exact .inl ⟨hle, i.ordConnected_points.out hmem h.middle_mem ⟨hle, h.down_le e⟩⟩
  · exact .inr ⟨hle, i.ordConnected_points.out h.middle_mem hmem ⟨(h.lt_up e).le, hle⟩⟩

/-- The lower neighbour is the nearest if the upper one is out of the interval or farther away. -/
theorem Interval.Proper.isNearest_down (hmem : (i.down e).toRat ∈ i.points)
    (hup : (i.up e).toRat ∈ i.points →
      |(i.down e).toRat - i.middle| < |(i.up e).toRat - i.middle|) :
    IsNearest (i.pointsOn e) i.middle (i.down e).toRat := by
  have hdown := h.down_le e
  have hlt := h.lt_up e
  -- a point above the value is farther away
  have hcase : ∀ y ∈ i.pointsOn e, y ≤ (i.down e).toRat ∨
      |(i.down e).toRat - i.middle| < |y - i.middle| := by
    intro y hy
    rcases h.exists_neighbour hy with ⟨hle, -⟩ | ⟨hle, hin⟩
    · exact .inl hle
    · have hfar := hup hin
      rw [distance_above hlt.le] at hfar
      rw [distance_above (hlt.le.trans hle)]
      exact .inr (by linarith)
  refine ⟨⟨hmem, _, rfl⟩, fun y hy => ?_, fun y hy heq => ?_⟩
  · rcases hcase y hy with hle | hfar
    · rw [distance_below hdown, distance_below (hle.trans hdown)]
      linarith
    · exact hfar.le
  · rcases hcase y hy with hle | hfar
    · exact hle
    · exact absurd heq hfar.ne

/-- The upper neighbour is the nearest if the lower one is out of the interval or no nearer. -/
theorem Interval.Proper.isNearest_up (hmem : (i.up e).toRat ∈ i.points)
    (hdown : (i.down e).toRat ∈ i.points →
      |(i.up e).toRat - i.middle| ≤ |(i.down e).toRat - i.middle|) :
    IsNearest (i.pointsOn e) i.middle (i.up e).toRat := by
  have hle := h.down_le e
  have hup := h.lt_up e
  refine ⟨⟨hmem, _, rfl⟩, fun y hy => ?_, fun y hy heq => ?_⟩
  · rcases h.exists_neighbour hy with ⟨hlow, hin⟩ | ⟨hhigh, -⟩
    · have hfar := hdown hin
      rw [distance_below hle] at hfar
      rw [distance_below (hlow.trans hle)]
      linarith
    · rw [distance_above hup.le, distance_above (hup.le.trans hhigh)]
      linarith
  · rcases h.exists_neighbour hy with ⟨hlow, -⟩ | ⟨hhigh, -⟩
    · exact hlow.trans (hle.trans hup.le)
    · rw [distance_above hup.le, distance_above (hup.le.trans hhigh)] at heq
      linarith

/-- What is taken from a grid is a neighbour of the value, the nearest of the points that count. -/
theorem Interval.Proper.isNearest_onGrid {d : Dec} (hd : i.onGrid e = some d) :
    (d = i.down e ∨ d = i.up e) ∧ IsNearest (i.pointsOn e) i.middle d.toRat := by
  have hdistance := h.distance_lt_iff (c := i.down e) (d := i.up e) rfl
  have hdown := i.contains_iff h (i.down e)
  have hup := i.contains_iff h (i.up e)
  rw [Interval.onGrid_eq] at hd
  split at hd
  · next hin hin' =>
    split at hd
    · next hlt =>
      cases hd
      exact ⟨.inl rfl, h.isNearest_down (hdown.mp hin) fun _ => hdistance.mp hlt⟩
    · next hlt =>
      cases hd
      exact ⟨.inr rfl, h.isNearest_up (hup.mp hin') fun _ =>
        not_lt.mp fun hnear => hlt (hdistance.mpr hnear)⟩
  · next hin hout =>
    cases hd
    exact ⟨.inl rfl, h.isNearest_down (hdown.mp hin) fun hmem =>
      absurd (hup.mpr hmem) (by rw [hout]; decide)⟩
  · next hout hin =>
    cases hd
    exact ⟨.inr rfl, h.isNearest_up (hup.mp hin) fun hmem =>
      absurd (hdown.mpr hmem) (by rw [hout]; decide)⟩
  · cases hd

/-- If nothing is taken from a grid, none of its points lies in the interval. -/
theorem Interval.Proper.notMem_pointsOn (hnone : i.onGrid e = none) (x : ℚ) :
    x ∉ i.pointsOn e := by
  intro hx
  rw [Interval.onGrid_eq] at hnone
  split at hnone
  · cases hnone
  · cases hnone
  · cases hnone
  · next hdown hup =>
    rcases h.exists_neighbour hx with ⟨-, hin⟩ | ⟨-, hin⟩
    · exact absurd ((i.contains_iff h _).mpr hin) (by rw [hdown]; decide)
    · exact absurd ((i.contains_iff h _).mpr hin) (by rw [hup]; decide)

end

/-! ## From grid to grid

  The grids are looked at from the coarsest on, and the first with a point in the interval is the
  one with as few digits as possible. -/

/-- The shortest number of a set around a value: as many digits as do for any number of the set do
    for this one, and of those for which as few do it is the nearest. -/
structure IsShortest (s : Set ℚ) (v x : ℚ) : Prop where
  /-- No number of the set is written with fewer digits. -/
  fewest : ∀ y ∈ s, ∀ n, WithDigits n y → WithDigits n x
  /-- No number of the set that is written with as few digits lies nearer. -/
  nearest : IsNearest {y ∈ s | ∀ n, WithDigits n x → WithDigits n y} v x

/-- There is at most one shortest number. -/
theorem IsShortest.unique {s : Set ℚ} {v x y : ℚ} (hx : IsShortest s v x)
    (hy : IsShortest s v y) : x = y := by
  have hxs := hx.nearest.mem.1
  have hys := hy.nearest.mem.1
  have hxy : x ∈ {z ∈ s | ∀ n, WithDigits n y → WithDigits n z} := ⟨hxs, hx.fewest y hys⟩
  have hyx : y ∈ {z ∈ s | ∀ n, WithDigits n x → WithDigits n z} := ⟨hys, hy.fewest x hxs⟩
  have hdistance := le_antisymm (hx.nearest.le y hyx) (hy.nearest.le x hxy)
  exact le_antisymm (hy.nearest.larger x hxy hdistance.symm) (hx.nearest.larger y hyx hdistance)

/-- Without a digit there is only zero. -/
theorem WithDigits.pos {n : Nat} {x : ℚ} (h : WithDigits n x) (hx : 0 < x) : 0 < n := by
  obtain ⟨d, hd, rfl⟩ := h
  by_contra hzero
  obtain rfl : n = 0 := by omega
  have hdigits : d.digits = 0 := by omega
  rw [Dec.toRat, hdigits, Nat.cast_zero, zero_mul] at hx
  exact lt_irrefl 0 hx

section
variable {i : Interval} (h : i.Proper) {n : Nat}
include h

/-- For a decimal of `n` digits in the interval there is a point of the grid of `n` digits in it:
    the decimal itself, or the power of ten in front of the value, which is nearer. -/
theorem Interval.Proper.exists_onGrid_of_withDigits {y : ℚ} (hy : y ∈ i.points)
    (hdigits : WithDigits n y) :
    ∃ z ∈ i.pointsOn (i.magnitude - n), z = y ∨ |z - i.middle| < |y - i.middle| := by
  have hpos := hdigits.pos (h.pos_of_mem hy)
  obtain ⟨d, hd, rfl⟩ := hdigits
  by_cases hexp : i.magnitude - n ≤ d.exponent
  · exact ⟨_, ⟨hy, onGrid_of_le hexp d.digits⟩, .inl rfl⟩
  · have hten : (0 : ℚ) < 10 ^ d.exponent := by positivity
    have hpower : (10 : ℚ) ^ (i.magnitude - 1) ≤ i.middle := h.magnitude_spec.1
    have hlt : d.toRat < 10 ^ (i.magnitude - 1) := calc
      d.toRat < (10 : ℚ) ^ n * 10 ^ d.exponent :=
        mul_lt_mul_of_pos_right (by exact_mod_cast hd) hten
      _ = 10 ^ (n + d.exponent) := by rw [zpow_add₀ (by norm_num), zpow_natCast]
      _ ≤ 10 ^ (i.magnitude - 1) := zpow_le_zpow_right₀ (by norm_num) (by omega)
    refine ⟨10 ^ (i.magnitude - 1), ⟨?_, ?_⟩, .inr ?_⟩
    · exact i.ordConnected_points.out hy h.middle_mem ⟨hlt.le, hpower⟩
    · have hgrid := onGrid_of_le (show i.magnitude - n ≤ i.magnitude - 1 by omega) 1
      rwa [Nat.cast_one, one_mul] at hgrid
    · rw [distance_below hpower, distance_below (hlt.le.trans hpower)]
      linarith

/-- The neighbours of the value on the grid of `n` digits have no more digits than that. -/
theorem Interval.Proper.withDigits_neighbour (hpos : 0 < n) {d : Dec}
    (hd : d = i.down (i.magnitude - n) ∨ d = i.up (i.magnitude - n)) : WithDigits n d.toRat := by
  have hten : (0 : ℚ) < 10 ^ (i.magnitude - n) := by positivity
  have hsplit : (10 : ℚ) ^ i.magnitude = 10 ^ n * 10 ^ (i.magnitude - n) := by
    rw [← zpow_natCast, ← zpow_add₀ (by norm_num), add_sub_cancel]
  have hbelow : i.below (i.magnitude - n) < 10 ^ n := by
    have hlt := (h.down_le (i.magnitude - n)).trans_lt h.magnitude_spec.2
    rw [hsplit] at hlt
    exact_mod_cast lt_of_mul_lt_mul_right hlt hten.le
  rcases hd with rfl | rfl
  · exact ⟨_, hbelow, rfl⟩
  · rcases Nat.lt_or_eq_of_le (Nat.succ_le_of_lt hbelow) with hlt | heq
    · exact ⟨_, hlt, rfl⟩
    · -- all nines and one more: a power of ten
      refine ⟨⟨1, i.magnitude⟩, Nat.one_lt_pow (by omega) (by decide), ?_⟩
      rw [Dec.toRat, Dec.toRat, Nat.cast_one, one_mul, hsplit, Interval.up,
        show i.below (i.magnitude - n) + 1 = 10 ^ n from heq]
      push_cast
      rfl

end

/-! ## The search

  A search that finds something has found it on the first grid that has it, and a wide interval
  makes sure that it does find something. -/

/-- The first item of a search over `0, 1, …`. -/
theorem findSome?_range_eq_some {α : Type} {f : Nat → Option α} {n : Nat} {a : α}
    (h : (List.range n).findSome? f = some a) :
    ∃ k < n, f k = some a ∧ ∀ j < k, f j = none := by
  induction n with
  | zero => cases h
  | succ n ih =>
    rw [List.range_succ, List.findSome?_append, Option.or_eq_some_iff] at h
    rcases h with h | ⟨hnone, h⟩
    · obtain ⟨k, hk, hfirst⟩ := ih h
      exact ⟨k, by omega, hfirst⟩
    · rw [List.findSome?_eq_none_iff] at hnone
      rw [List.findSome?_singleton] at h
      exact ⟨n, by omega, h, fun j hj => hnone j (List.mem_range.mpr hj)⟩

/-- An interval that a grid of seventeen digits cannot step over. -/
def Interval.Wide (i : Interval) : Prop := i.value < (i.high - i.low) * 10 ^ 16

section
variable {i : Interval} (h : i.Proper)
include h

/-- What is not above the value and not in the interval is at or below the lower end. -/
theorem Interval.Proper.le_low_of_notMem {x : ℚ} (hle : x ≤ i.middle) (hout : x ∉ i.points) :
    x ≤ i.low / i.den := by
  by_contra hlow
  have hin := h.middle_mem
  unfold points at hin hout
  split at hin
  · next hclosed =>
    rw [if_pos hclosed] at hout
    exact hout ⟨(not_le.mp hlow).le, hle.trans hin.2⟩
  · next hopen =>
    rw [if_neg hopen] at hout
    exact hout ⟨not_le.mp hlow, hle.trans_lt hin.2⟩

/-- What is not below the value and not in the interval is at or above the upper end. -/
theorem Interval.Proper.high_le_of_notMem {x : ℚ} (hle : i.middle ≤ x) (hout : x ∉ i.points) :
    i.high / i.den ≤ x := by
  by_contra hhigh
  have hin := h.middle_mem
  unfold points at hin hout
  split at hin
  · next hclosed =>
    rw [if_pos hclosed] at hout
    exact hout ⟨hin.1.trans hle, (not_le.mp hhigh).le⟩
  · next hopen =>
    rw [if_neg hopen] at hout
    exact hout ⟨hin.1.trans_le hle, not_le.mp hhigh⟩

/-- In a wide interval there is a decimal of seventeen digits. -/
theorem Interval.Proper.onGrid_ne_none (hwide : i.Wide) :
    i.onGrid (i.magnitude - 17) ≠ none := by
  intro hnone
  have hden : (0 : ℚ) < i.den := by exact_mod_cast h.den_pos
  have hout (d : Dec) (hd : OnGrid (i.magnitude - 17) d.toRat) : d.toRat ∉ i.points :=
    fun hin => h.notMem_pointsOn hnone _ ⟨hin, hd⟩
  -- then the interval fits between two points of the grid
  have hlow := h.le_low_of_notMem (h.down_le _) (hout (i.down _) ⟨_, rfl⟩)
  have hhigh := h.high_le_of_notMem (h.lt_up _).le (hout (i.up _) ⟨_, rfl⟩)
  have hstep : (i.up (i.magnitude - 17)).toRat =
      (i.down (i.magnitude - 17)).toRat + 10 ^ (i.magnitude - 17) := by
    rw [Dec.toRat, Dec.toRat, up, down, Nat.cast_succ, add_mul, one_mul]
  -- and is as narrow as they are apart
  have hgrid : (10 : ℚ) ^ (i.magnitude - 17) * 10 ^ 16 ≤ i.middle := by
    refine le_trans (le_of_eq ?_) h.magnitude_spec.1
    rw [← zpow_natCast, ← zpow_add₀ (by norm_num)]
    congr 1
    omega
  have hspan : ((i.high : ℚ) - i.low) / i.den * 10 ^ 16 ≤ i.value / i.den := by
    rw [sub_div]
    exact (mul_le_mul_of_nonneg_right (by linarith) (by norm_num)).trans hgrid
  rw [div_mul_eq_mul_div, div_le_div_iff_of_pos_right hden] at hspan
  have hle := (h.low_lt.trans h.lt_high).le
  rw [← Nat.cast_sub hle] at hspan
  have hnarrow : (i.high - i.low) * 10 ^ 16 ≤ i.value := by exact_mod_cast hspan
  exact absurd hwide (not_lt.mpr hnarrow)

/-- **The search finds the shortest decimal of an interval that is wide enough.** -/
theorem Interval.Proper.isShortest_shortest (hwide : i.Wide) :
    IsShortest i.points i.middle i.shortest.toRat := by
  have hsome : ((List.range 17).findSome? fun n => i.onGrid (i.magnitude - (n + 1 : Nat))) ≠
      none := fun hnone =>
    h.onGrid_ne_none hwide (List.findSome?_eq_none_iff.mp hnone 16 (by decide))
  obtain ⟨d, hd⟩ := Option.ne_none_iff_exists'.mp hsome
  obtain ⟨n, -, hgrid, hcoarser⟩ := findSome?_range_eq_some hd
  have hshortest : i.shortest = d := by
    rw [Interval.shortest, hd, Option.getD_some]
  rw [hshortest]
  obtain ⟨hneighbour, hnearest⟩ := h.isNearest_onGrid hgrid
  have hwidth : WithDigits (n + 1) d.toRat := h.withDigits_neighbour (by omega) hneighbour
  -- a decimal with fewer digits would have shown on a grid before this one
  have hfewest : ∀ y ∈ i.points, ∀ k, WithDigits k y → n + 1 ≤ k := by
    intro y hy k hk
    by_contra hlt
    obtain ⟨z, hz, -⟩ := h.exists_onGrid_of_withDigits hy hk
    have hpos := hk.pos (h.pos_of_mem hy)
    obtain ⟨j, rfl⟩ : ∃ j, k = j + 1 := ⟨k - 1, by omega⟩
    exact h.notMem_pointsOn (hcoarser j (by omega)) z hz
  refine ⟨fun y hy k hk => hwidth.mono (hfewest y hy k hk),
    ⟨hnearest.mem.1, fun _ hk => hk⟩, ?_, ?_⟩
  · rintro y ⟨hy, hdigits⟩
    obtain ⟨z, hz, hyz⟩ := h.exists_onGrid_of_withDigits hy (hdigits _ hwidth)
    rcases hyz with rfl | hnear
    · exact hnearest.le z hz
    · exact (hnearest.le z hz).trans hnear.le
  · rintro y ⟨hy, hdigits⟩ heq
    obtain ⟨z, hz, hyz⟩ := h.exists_onGrid_of_withDigits hy (hdigits _ hwidth)
    rcases hyz with rfl | hnear
    · exact hnearest.larger z hz heq
    · exact absurd heq ((hnearest.le z hz).trans_lt hnear).ne

end

end JavaClass.Decimal
