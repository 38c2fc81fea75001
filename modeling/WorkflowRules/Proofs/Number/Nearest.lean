import Mathlib.Algebra.Order.Field.Basic
import Mathlib.Algebra.Order.Ring.Rat
import Mathlib.Data.Nat.Dist
import Mathlib.Order.Monotone.Basic
import Mathlib.Tactic.Linarith
import Mathlib.Tactic.Ring
import WorkflowRules.Number.Binary64

/-!
# The numbers that binary64 denotes

A finite binary64 number denotes a rational number, a whole multiple of `2 ^ -1074`. The magnitude
orders the numbers, and an integer that has to become a binary64 number becomes the nearest one.

* `unitsOf_strictMono` — the order of magnitudes is the order of absolute values
* `Binary64.value_eq_iff` — two numbers denote the same exactly when their keys agree
* `Binary64.isNearest_of_ofInt?` — the rounding of an integer is nearest to it, a tie is even
* `Binary64.IsNearest.value_eq` — there is only one nearest number
* `Binary64.exists_value_eq` — up to `2 ^ 53` nothing is rounded
-/

namespace WorkflowRules.Number

/-! ## Magnitudes -/

/-- Below the first normal number a magnitude counts the units itself. -/
theorem unitsOf_of_lt {m : Nat} (h : m < 2 ^ 52) : unitsOf m = m := by
  unfold unitsOf significandOf scaleOf
  rw [Nat.pow_eq, if_pos h, Nat.div_eq_of_lt h]
  simp

/-- A significand of 53 digits after an exponent; that of 54 digits is a carry into the exponent. -/
theorem unitsOf_add {e s : Nat} (low : 2 ^ 52 ≤ s) (high : s ≤ 2 ^ 53) :
    unitsOf (e * 2 ^ 52 + s) = s * 2 ^ e := by
  unfold unitsOf significandOf scaleOf
  simp only [Nat.pow_eq]
  rw [if_neg (by omega)]
  by_cases carry : s = 2 ^ 53
  · subst carry
    rw [show (e * 2 ^ 52 + 2 ^ 53) % 2 ^ 52 = 0 by omega,
      show (e * 2 ^ 52 + 2 ^ 53) / 2 ^ 52 - 1 = e + 1 by omega, Nat.pow_succ]
    ring
  · rw [show 2 ^ 52 + (e * 2 ^ 52 + s) % 2 ^ 52 = s by omega,
      show (e * 2 ^ 52 + s) / 2 ^ 52 - 1 = e by omega]

theorem magnitude_cases (m : Nat) :
    m < 2 ^ 52 ∨ ∃ e s, 2 ^ 52 ≤ s ∧ s < 2 ^ 53 ∧ m = e * 2 ^ 52 + s := by
  by_cases h : m < 2 ^ 52
  · exact .inl h
  · exact .inr ⟨m / 2 ^ 52 - 1, 2 ^ 52 + m % 2 ^ 52, by omega, by omega, by omega⟩

/-- The next magnitude denotes more units. -/
theorem unitsOf_lt_succ (m : Nat) : unitsOf m < unitsOf (m + 1) := by
  rcases magnitude_cases m with h | ⟨e, s, low, high, rfl⟩
  · rw [unitsOf_of_lt h]
    by_cases hnext : m + 1 < 2 ^ 52
    · rw [unitsOf_of_lt hnext]
      omega
    · have hfirst := unitsOf_add (e := 0) (s := m + 1) (by omega) (by omega)
      rw [Nat.zero_mul, Nat.zero_add, Nat.pow_zero, Nat.mul_one] at hfirst
      omega
  · rw [Nat.add_assoc, unitsOf_add low high.le, unitsOf_add (by omega) (by omega)]
    exact Nat.mul_lt_mul_of_pos_right (Nat.lt_succ_self s) (Nat.two_pow_pos e)

theorem unitsOf_strictMono : StrictMono unitsOf := strictMono_nat_of_lt_succ unitsOf_lt_succ

@[simp] theorem unitsOf_zero : unitsOf 0 = 0 := unitsOf_of_lt (by decide)

/-- On the far side of an exponent all numbers lie on its grid. -/
theorem exists_unitsOf_eq_mul {m e : Nat} (h : 2 ^ 52 * 2 ^ e ≤ unitsOf m) :
    ∃ k, unitsOf m = k * 2 ^ e := by
  rcases magnitude_cases m with hm | ⟨e', s, low, high, rfl⟩
  · have : 1 ≤ 2 ^ e := Nat.one_le_two_pow
    rw [unitsOf_of_lt hm] at h
    omega
  · rw [unitsOf_add low high.le] at h ⊢
    rcases Nat.lt_or_ge e' e with hlt | hle
    · exfalso
      obtain ⟨d, rfl⟩ := Nat.exists_eq_add_of_lt hlt
      have hpow : (2 : Nat) ^ (e' + d + 1) = 2 ^ e' * 2 ^ d * 2 := by rw [Nat.pow_succ, Nat.pow_add]
      have hd : 1 ≤ 2 ^ d := Nat.one_le_two_pow
      have he : 0 < 2 ^ e' := Nat.two_pow_pos e'
      have hgrid : 2 ^ 53 * 2 ^ e' ≤ 2 ^ 52 * 2 ^ (e' + d + 1) := by
        rw [hpow]
        nlinarith
      have hs : s * 2 ^ e' < 2 ^ 53 * 2 ^ e' := Nat.mul_lt_mul_of_pos_right high he
      omega
    · obtain ⟨d, rfl⟩ := Nat.exists_eq_add_of_le hle
      exact ⟨s * 2 ^ d, by rw [Nat.pow_add]; ring⟩

/-! ## Rounding -/

/-- The remainder decides which neighbour of the quotient is taken. -/
theorem roundHalfEven_cases (num den : Nat) :
    roundHalfEven num den = num / den ∧ 2 * (num % den) < den ∨
      roundHalfEven num den = num / den + 1 ∧ den < 2 * (num % den) ∨
      (roundHalfEven num den = num / den ∨ roundHalfEven num den = num / den + 1) ∧
        2 * (num % den) = den ∧ roundHalfEven num den % 2 = 0 := by
  unfold roundHalfEven
  simp only
  split
  · exact .inl ⟨rfl, ‹_›⟩
  · split
    · exact .inr (.inl ⟨rfl, ‹_›⟩)
    · refine .inr (.inr ?_)
      split <;> simp <;> omega

/-- A whole number is nearest to the quotient when it is within half a unit of it. -/
theorem dist_roundHalfEven (num : Nat) {den : Nat} (positive : 0 < den) :
    2 * (roundHalfEven num den * den).dist num < den ∨
      2 * (roundHalfEven num den * den).dist num = den ∧ roundHalfEven num den % 2 = 0 := by
  have hdiv : num / den * den + num % den = num := by
    rw [Nat.mul_comm]
    exact Nat.div_add_mod num den
  have hlt : num % den < den := Nat.mod_lt _ positive
  have hsucc : (num / den + 1) * den = num / den * den + den := by rw [Nat.add_mul, Nat.one_mul]
  unfold Nat.dist
  rcases roundHalfEven_cases num den with ⟨heq, h⟩ | ⟨heq, h⟩ | ⟨heq | heq, h, heven⟩
  · left
    rw [heq]
    omega
  · left
    rw [heq, hsucc]
    omega
  · right
    refine ⟨?_, heven⟩
    rw [heq]
    omega
  · right
    refine ⟨?_, heven⟩
    rw [heq, hsucc]
    omega

/-- No whole number is nearer to the quotient than its rounding; where another one is as near, the
rounding is even. -/
theorem roundHalfEven_nearest (num : Nat) {den : Nat} (positive : 0 < den) (k : Nat) :
    (roundHalfEven num den * den).dist num ≤ (k * den).dist num ∧
      ((k * den).dist num = (roundHalfEven num den * den).dist num →
        k ≠ roundHalfEven num den → roundHalfEven num den % 2 = 0) := by
  have hclose := dist_roundHalfEven num positive
  generalize roundHalfEven num den = s at *
  by_cases heq : k = s
  · subst heq
    exact ⟨Nat.le_refl _, fun _ hne => absurd rfl hne⟩
  -- another whole number is at least a unit away
  · have hfar : s * den + den ≤ k * den ∨ k * den + den ≤ s * den := by
      rcases Nat.lt_or_gt_of_ne heq with hlt | hlt
      · right
        rw [← Nat.succ_mul]
        exact Nat.mul_le_mul_right den hlt
      · left
        rw [← Nat.succ_mul]
        exact Nat.mul_le_mul_right den hlt
    unfold Nat.dist at *
    omega

theorem le_roundHalfEven {num den k : Nat} (positive : 0 < den) (h : k * den ≤ num) :
    k ≤ roundHalfEven num den := by
  have hk : k ≤ num / den := (Nat.le_div_iff_mul_le positive).2 h
  rcases roundHalfEven_cases num den with ⟨heq, -⟩ | ⟨heq, -⟩ | ⟨heq | heq, -, -⟩ <;> omega

theorem roundHalfEven_le {num den k : Nat} (positive : 0 < den) (h : num < k * den) :
    roundHalfEven num den ≤ k := by
  have hk : num / den < k := (Nat.div_lt_iff_lt_mul positive).2 h
  rcases roundHalfEven_cases num den with ⟨heq, -⟩ | ⟨heq, -⟩ | ⟨heq | heq, -, -⟩ <;> omega

/-! ## Whole numbers -/

/-- How many units make one. -/
def unitsOfOne : Nat := 2 ^ 1074

theorem unitsOfOne_pos : 0 < unitsOfOne := by
  unfold unitsOfOne
  positivity

theorem cast_unitsOfOne_pos : (0 : Rat) < unitsOfOne := Nat.cast_pos.2 unitsOfOne_pos

theorem floorLog2_one {n : Nat} (h : n ≠ 0) : floorLog2 n 1 = n.log2 := by
  have hlow : 2 ^ n.log2 ≤ n := Nat.log2_self_le h
  have hone : Nat.log2 1 = 0 := by decide
  simp [floorLog2, hone, hlow]

/-- A whole number is a quotient with a leading part of 53 binary digits, scaled to units. -/
theorem magnitudeOfQuotient_one {n : Nat} (h : n ≠ 0) : ∃ e num den, 0 < den ∧
    2 ^ 52 * den ≤ num ∧ num < 2 ^ 53 * den ∧ n * unitsOfOne * den = num * 2 ^ e ∧
    e = n.log2 + 1022 ∧ magnitudeOfQuotient n 1 = e * 2 ^ 52 + roundHalfEven num den := by
  have hlow : 2 ^ n.log2 ≤ n := Nat.log2_self_le h
  have hhigh : n < 2 ^ (n.log2 + 1) := Nat.lt_log2_self
  have hmagnitude : magnitudeOfQuotient n 1 = (n.log2 + 1022) * 2 ^ 52 +
      roundHalfEven (n * 2 ^ (52 - n.log2)) (2 ^ (n.log2 - 52)) := by
    unfold magnitudeOfQuotient
    rw [if_neg h, floorLog2_one h]
    simp only [Nat.pow_eq, Nat.one_mul]
    rw [show (max ((n.log2 : Int) - 52) (-1074) + 1074).toNat = n.log2 + 1022 by omega,
      show (-max ((n.log2 : Int) - 52) (-1074)).toNat = 52 - n.log2 by omega,
      show (max ((n.log2 : Int) - 52) (-1074)).toNat = n.log2 - 52 by omega]
  refine ⟨_, _, _, Nat.two_pow_pos _, ?_, ?_, ?_, rfl, hmagnitude⟩
  · rw [← Nat.pow_add, show 52 + (n.log2 - 52) = n.log2 + (52 - n.log2) by omega, Nat.pow_add]
    exact Nat.mul_le_mul_right _ hlow
  · rw [← Nat.pow_add, show 53 + (n.log2 - 52) = n.log2 + 1 + (52 - n.log2) by omega, Nat.pow_add]
    exact Nat.mul_lt_mul_of_pos_right hhigh (Nat.two_pow_pos _)
  · unfold unitsOfOne
    rw [Nat.mul_assoc, Nat.mul_assoc, ← Nat.pow_add, ← Nat.pow_add,
      show 1074 + (n.log2 - 52) = 52 - n.log2 + (n.log2 + 1022) by omega]

/-- A whole number is rounded to the nearest magnitude; where another one is as near, the magnitude
is even. -/
theorem unitsOf_nearest (n m : Nat) :
    (unitsOf (magnitudeOfQuotient n 1)).dist (n * unitsOfOne) ≤
        (unitsOf m).dist (n * unitsOfOne) ∧
      ((unitsOf m).dist (n * unitsOfOne) =
          (unitsOf (magnitudeOfQuotient n 1)).dist (n * unitsOfOne) →
        m ≠ magnitudeOfQuotient n 1 → magnitudeOfQuotient n 1 % 2 = 0) := by
  by_cases hn : n = 0
  · subst hn
    have hzero : magnitudeOfQuotient 0 1 = 0 := rfl
    rw [hzero]
    simp
  obtain ⟨e, num, den, positive, hlow, hhigh, hscale, -, hmagnitude⟩ := magnitudeOfQuotient_one hn
  -- distances on the grid of the exponent are distances from the quotient
  have hgrid (k : Nat) :
      (k * 2 ^ e).dist (n * unitsOfOne) * den = (k * den).dist num * 2 ^ e := by
    rw [← Nat.dist_mul_right, ← Nat.dist_mul_right, hscale, Nat.mul_right_comm]
  have hunits : unitsOf (magnitudeOfQuotient n 1) = roundHalfEven num den * 2 ^ e := by
    rw [hmagnitude, unitsOf_add (le_roundHalfEven positive hlow) (roundHalfEven_le positive hhigh)]
  have hclosest (k : Nat) : (roundHalfEven num den * 2 ^ e).dist (n * unitsOfOne) ≤
      (k * 2 ^ e).dist (n * unitsOfOne) := by
    refine Nat.le_of_mul_le_mul_right ?_ positive
    rw [hgrid, hgrid]
    exact Nat.mul_le_mul_right _ (roundHalfEven_nearest num positive k).1
  rw [hunits]
  rcases Nat.lt_or_ge (unitsOf m) (2 ^ 52 * 2 ^ e) with hbelow | habove
  · -- the least number on the grid is nearer already
    have hleast : 2 ^ 52 * 2 ^ e ≤ n * unitsOfOne := by
      refine Nat.le_of_mul_le_mul_right ?_ positive
      rw [hscale, Nat.mul_right_comm]
      exact Nat.mul_le_mul_right _ hlow
    have hnearer := hclosest (2 ^ 52)
    unfold Nat.dist at *
    omega
  · obtain ⟨k, hk⟩ := exists_unitsOf_eq_mul habove
    rw [hk]
    refine ⟨hclosest k, fun htie hne => ?_⟩
    have heven : roundHalfEven num den % 2 = 0 := by
      refine (roundHalfEven_nearest num positive k).2 ?_ fun heq => hne ?_
      · refine Nat.eq_of_mul_eq_mul_right (Nat.two_pow_pos e) ?_
        rw [← hgrid, ← hgrid, htie]
      · apply unitsOf_strictMono.injective
        rw [hunits, hk, heq]
    rw [hmagnitude]
    omega

/-- Whole numbers of up to 53 binary digits have a magnitude. -/
theorem exists_unitsOf_eq {n : Nat} (h : n ≤ 2 ^ 53) :
    ∃ m < infiniteMagnitude, unitsOf m = n * unitsOfOne := by
  by_cases hn : n = 0
  · subst hn
    exact ⟨0, by decide, by simp⟩
  -- the number is shifted until its leading digit has its place in the significand
  have hlow : 2 ^ n.log2 ≤ n := Nat.log2_self_le hn
  have hhigh : n < 2 ^ (n.log2 + 1) := Nat.lt_log2_self
  obtain ⟨k, hk⟩ : ∃ k, k = 52 - n.log2 := ⟨_, rfl⟩
  have hsig : 2 ^ 52 ≤ n * 2 ^ k := by
    calc 2 ^ 52 ≤ 2 ^ (n.log2 + k) := Nat.pow_le_pow_right (by decide) (by omega)
      _ ≤ n * 2 ^ k := by rw [Nat.pow_add]; exact Nat.mul_le_mul_right _ hlow
  have hsig' : n * 2 ^ k ≤ 2 ^ 53 := by
    by_cases hlog : n.log2 ≤ 52
    · calc n * 2 ^ k ≤ 2 ^ (n.log2 + 1) * 2 ^ k := Nat.mul_le_mul_right _ hhigh.le
        _ = 2 ^ 53 := by rw [← Nat.pow_add]; congr 1; omega
    · rw [show k = 0 by omega]
      omega
  refine ⟨(1074 - k) * 2 ^ 52 + n * 2 ^ k, ?_, ?_⟩
  · unfold infiniteMagnitude
    rw [Nat.pow_eq]
    omega
  · unfold unitsOfOne
    rw [unitsOf_add hsig hsig', Nat.mul_assoc, ← Nat.pow_add]
    congr 2
    omega

/-! ## The numbers -/

namespace Binary64

/-- The number in units, with its sign. -/
def signedUnits (x : Binary64) : Int := if x.negative then -(x.units : Int) else x.units

/-- The number that is denoted. -/
def value (x : Binary64) : Rat := x.signedUnits / unitsOfOne

/-- The units of the number with a given key. -/
def unitsOfKey (k : Int) : Int := if k < 0 then -(unitsOf k.natAbs : Int) else unitsOf k.natAbs

theorem signedUnits_eq (x : Binary64) : x.signedUnits = unitsOfKey x.orderKey := by
  unfold signedUnits unitsOfKey orderKey units
  cases x.negative
  · simp
  · by_cases hzero : x.magnitude = 0
    · simp [hzero]
    · simp [Nat.pos_of_ne_zero hzero]

theorem unitsOfKey_lt_iff {k l : Int} : unitsOfKey k < unitsOfKey l ↔ k < l := by
  have hmono (a b : Nat) : a < b ↔ unitsOf a < unitsOf b := unitsOf_strictMono.lt_iff_lt.symm
  have hkl := hmono k.natAbs l.natAbs
  have hlk := hmono l.natAbs k.natAbs
  have hk := hmono 0 k.natAbs
  have hl := hmono 0 l.natAbs
  unfold unitsOfKey
  split <;> split <;> omega

/-- The order of keys is the order of the numbers. -/
theorem value_lt_iff {x y : Binary64} : x.value < y.value ↔ x.orderKey < y.orderKey := by
  unfold value
  rw [div_lt_div_iff_of_pos_right cast_unitsOfOne_pos, Int.cast_lt, signedUnits_eq, signedUnits_eq,
    unitsOfKey_lt_iff]

/-- Two numbers are the same when their keys are. -/
theorem value_eq_iff {x y : Binary64} : x.value = y.value ↔ x.orderKey = y.orderKey := by
  constructor
  · intro h
    have hxy := value_lt_iff (x := x) (y := y)
    have hyx := value_lt_iff (x := y) (y := x)
    rw [h] at hxy hyx
    simp only [lt_irrefl, false_iff] at hxy hyx
    omega
  · intro h
    unfold value
    rw [signedUnits_eq, signedUnits_eq, h]

theorem natAbs_orderKey (x : Binary64) : x.orderKey.natAbs = x.magnitude := by
  unfold orderKey
  split <;> omega

theorem magnitude_eq_of_value_eq {x y : Binary64} (h : x.value = y.value) :
    x.magnitude = y.magnitude := by
  rw [← natAbs_orderKey, value_eq_iff.1 h, natAbs_orderKey]

/-- Every key between those of two numbers is the key of a number. -/
theorem exists_orderKey_eq {x y : Binary64} {k : Int} (low : x.orderKey ≤ k)
    (high : k ≤ y.orderKey) : ∃ z : Binary64, z.orderKey = k := by
  have hx := natAbs_orderKey x
  have hy := natAbs_orderKey y
  have hfinite : k.natAbs < infiniteMagnitude := by
    have := x.isFinite
    have := y.isFinite
    omega
  refine ⟨⟨decide (k < 0), k.natAbs, hfinite⟩, ?_⟩
  unfold orderKey
  by_cases hk : k < 0
  · simp only [hk, decide_true, if_true]
    omega
  · simp only [hk, decide_false, Bool.false_eq_true, if_false]
    omega

/-! ## The nearest number -/

/-- No number is nearer to `r`; where another one is as near, the magnitude is even. -/
structure IsNearest (x : Binary64) (r : Rat) : Prop where
  closest : ∀ y : Binary64, |x.value - r| ≤ |y.value - r|
  tie : ∀ y : Binary64, |y.value - r| = |x.value - r| → y.value ≠ x.value → x.magnitude % 2 = 0

/-- Whether a number is nearest depends on its value only. -/
theorem IsNearest.of_value_eq {x y : Binary64} {r : Rat} (h : x.IsNearest r)
    (heq : y.value = x.value) : y.IsNearest r := by
  constructor
  · intro z
    rw [heq]
    exact h.closest z
  · intro z
    rw [heq, magnitude_eq_of_value_eq heq]
    exact h.tie z

/-- Two even magnitudes have a number between them, so that they cannot both be nearest. -/
theorem IsNearest.value_le {x y : Binary64} {r : Rat} (hx : x.IsNearest r) (hy : y.IsNearest r) :
    y.value ≤ x.value := by
  by_contra hlt
  rw [not_le] at hlt
  have hdist : |y.value - r| = |x.value - r| := le_antisymm (hy.closest x) (hx.closest y)
  have hxeven := hx.tie y hdist hlt.ne'
  have hyeven := hy.tie x hdist.symm hlt.ne
  have hkeys := value_lt_iff.1 hlt
  rw [← natAbs_orderKey] at hxeven hyeven
  obtain ⟨z, hz⟩ := exists_orderKey_eq (x := x) (y := y) (k := x.orderKey + 1)
    (by omega) (by omega)
  have hxz : x.value < z.value := value_lt_iff.2 (by omega)
  have hzy : z.value < y.value := value_lt_iff.2 (by omega)
  have hz := hx.closest z
  -- `r` lies halfway between the two, so the number between them is nearer
  grind

theorem IsNearest.value_eq {x y : Binary64} {r : Rat} (hx : x.IsNearest r) (hy : y.IsNearest r) :
    x.value = y.value :=
  le_antisymm (hy.value_le hx) (hx.value_le hy)

/-- A number that is denoted is its own rounding. -/
theorem isNearest_iff_of_value_eq {x y : Binary64} {r : Rat} (h : y.value = r) :
    x.IsNearest r ↔ x.value = r := by
  constructor
  · intro hx
    have hzero := hx.closest y
    rw [h, sub_self, abs_zero] at hzero
    exact sub_eq_zero.1 (abs_nonpos_iff.1 hzero)
  · intro hx
    have hdist : |x.value - r| = 0 := by rw [hx, sub_self, abs_zero]
    constructor
    · intro z
      rw [hdist]
      exact abs_nonneg _
    · intro z hz hne
      rw [hdist, abs_eq_zero, sub_eq_zero] at hz
      exact absurd (hz.trans hx.symm) hne

/-! ## Integers -/

theorem abs_value_sub (x : Binary64) (n : Int) :
    |x.value - n| = (x.signedUnits - n * unitsOfOne).natAbs / unitsOfOne := by
  have hsub : x.value - n = ((x.signedUnits - n * unitsOfOne : Int) : Rat) / unitsOfOne := by
    unfold value
    push_cast
    rw [sub_div, mul_div_cancel_right₀ _ cast_unitsOfOne_pos.ne']
  rw [hsub, abs_div, abs_of_pos cast_unitsOfOne_pos, Nat.cast_natAbs, Int.cast_abs]

theorem value_eq_intCast_iff {x : Binary64} {n : Int} :
    x.value = n ↔ x.signedUnits = n * unitsOfOne := by
  rw [← sub_eq_zero, ← abs_eq_zero, abs_value_sub, div_eq_zero_iff,
    or_iff_left cast_unitsOfOne_pos.ne', Nat.cast_eq_zero, Int.natAbs_eq_zero, Int.sub_eq_zero]

/--
Units of one sign are as far apart as their counts, and units of two signs as far as both counts
together.
-/
theorem natAbs_signedUnits_sub (x : Binary64) (n : Int) :
    (x.signedUnits - n * unitsOfOne).natAbs =
      if x.negative = decide (n < 0) then x.units.dist (n.natAbs * unitsOfOne)
      else x.units + n.natAbs * unitsOfOne := by
  have hscaled : n * unitsOfOne = if n < 0 then -((n.natAbs * unitsOfOne : Nat) : Int)
      else (n.natAbs * unitsOfOne : Nat) := by
    rw [Nat.cast_mul, ← Int.neg_mul]
    split <;> congr 1 <;> omega
  rw [hscaled]
  generalize n.natAbs * unitsOfOne = whole
  unfold signedUnits Nat.dist
  by_cases hn : n < 0 <;> cases x.negative <;> simp [hn] <;> omega

/-- The nearest number to an integer has the sign of the integer and the rounded magnitude. -/
theorem ofInt?_eq_some {n : Int} {x : Binary64} (h : ofInt? n = some x) :
    x.magnitude = magnitudeOfQuotient n.natAbs 1 ∧ x.negative = decide (n < 0) := by
  obtain ⟨y, hy, rfl⟩ := Option.map_eq_some_iff.1 h
  unfold ofQuotient? at hy
  by_cases hfinite : magnitudeOfQuotient n.natAbs 1 < infiniteMagnitude
  · simp only [hfinite, dif_pos, Option.some.injEq] at hy
    subst hy
    by_cases hn : n < 0
    · simp [hn, neg]
    · simp [hn]
  · simp [hfinite] at hy

/-- The rounding of an integer is the nearest number. -/
theorem isNearest_of_ofInt? {n : Int} {x : Binary64} (h : ofInt? n = some x) : x.IsNearest n := by
  obtain ⟨hmagnitude, hsign⟩ := ofInt?_eq_some h
  have hx : (x.signedUnits - n * unitsOfOne).natAbs = x.units.dist (n.natAbs * unitsOfOne) := by
    rw [natAbs_signedUnits_sub, if_pos hsign]
  have hunits (m : Nat) := unitsOf_nearest n.natAbs m
  rw [← hmagnitude] at hunits
  -- a number of the other sign is no nearer than zero
  have hzero := hunits 0
  rw [unitsOf_zero, Nat.dist_zero_left] at hzero
  constructor
  · intro y
    rw [abs_value_sub, abs_value_sub, div_le_div_iff_of_pos_right cast_unitsOfOne_pos,
      Nat.cast_le, hx, natAbs_signedUnits_sub]
    split
    · exact (hunits y.magnitude).1
    · exact hzero.1.trans (Nat.le_add_left _ _)
  · intro y htie hne
    rw [abs_value_sub, abs_value_sub, div_left_inj' cast_unitsOfOne_pos.ne', Nat.cast_inj, hx,
      natAbs_signedUnits_sub] at htie
    split at htie
    · next hsame =>
      refine (hunits y.magnitude).2 htie fun heq => hne ?_
      unfold value signedUnits units
      rw [hsame, hsign, heq]
    · have hx0 : x.units.dist (n.natAbs * unitsOfOne) ≤ n.natAbs * unitsOfOne := hzero.1
      by_cases hmag : x.magnitude = 0
      · rw [hmag]
      · exact hzero.2 (by unfold units at *; omega) (Ne.symm hmag)

/-- Every integer of at most 64 bits has a nearest number. -/
theorem exists_ofInt? {n : Int} (h : n.natAbs ≤ 2 ^ 64) : ∃ x, ofInt? n = some x := by
  have hfinite : magnitudeOfQuotient n.natAbs 1 < infiniteMagnitude := by
    unfold infiniteMagnitude
    by_cases hn : n.natAbs = 0
    · rw [hn]
      decide
    obtain ⟨e, num, den, positive, -, hhigh, -, he, hmagnitude⟩ := magnitudeOfQuotient_one hn
    have hround := roundHalfEven_le positive hhigh
    have hlog : n.natAbs.log2 < 65 := (Nat.log2_lt hn).2 (by omega)
    rw [hmagnitude, Nat.pow_eq]
    omega
  simp [ofInt?, ofQuotient?, hfinite]

/-- Integers of up to 53 binary digits are numbers. -/
theorem exists_value_eq {n : Int} (h : n.natAbs ≤ 2 ^ 53) : ∃ x : Binary64, x.value = n := by
  obtain ⟨m, hfinite, hunits⟩ := exists_unitsOf_eq h
  refine ⟨⟨decide (n < 0), m, hfinite⟩, value_eq_intCast_iff.2 ?_⟩
  have hdist := natAbs_signedUnits_sub ⟨decide (n < 0), m, hfinite⟩ n
  rw [if_pos rfl, units, hunits, Nat.dist_self] at hdist
  omega

end Binary64

end WorkflowRules.Number
