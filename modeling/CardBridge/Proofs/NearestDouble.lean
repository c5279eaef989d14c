import Mathlib.Algebra.Order.Field.Power
import Mathlib.Algebra.Order.Ring.Abs
import Mathlib.Algebra.Ring.Int.Parity
import Mathlib.Data.Rat.Cast.Order
import Mathlib.Tactic.Linarith
import Mathlib.Tactic.NormNum
import Mathlib.Tactic.Ring

/-!
# The nearest double

A double is an integer of at most 53 bits times a power of two (`IsDouble`). `Nearest q v` says that
`v` is the double nearest to `q`, of two equally near ones that with an even mantissa. There is at
most one (`Nearest.unique`). To find it, count in units of the last of the 53 bits, and take the
nearest integer (`nearest_of_nearestInt`).
-/

namespace CardBridge

/-- `m * 2 ^ e` is a double, with `m` for its mantissa. -/
structure IsDouble (m e : ℤ) : Prop where
  mantissa : |m| < 2 ^ 53
  least : -1074 ≤ e
  greatest : e ≤ 971
  normal : 2 ^ 52 ≤ |m| ∨ e = -1074

/-- Where the doubles end : the middle between the greatest of them and the next power of two. -/
def doubleLimit : ℚ :=
  (2 ^ 54 - 1) * 2 ^ (970 : ℤ)

/-- `v` is the double nearest to `q`, that with an even mantissa if another one is as near. Numbers
past the limit have none. -/
def Nearest (q v : ℚ) : Prop :=
  |q| < doubleLimit ∧ ∃ m e : ℤ, IsDouble m e ∧ v = m * 2 ^ e ∧
    ∀ k j : ℤ, IsDouble k j → |q - v| ≤ |q - k * 2 ^ j| ∧
      (|q - v| = |q - k * 2 ^ j| → k * 2 ^ j ≠ v → Even m)

/-- `n` is the integer nearest to `r`, the even one if another one is as near. -/
structure NearestInt (r : ℚ) (n : ℤ) : Prop where
  near : |r - n| ≤ 1 / 2
  even : |r - n| = 1 / 2 → Even n

/-! ## Powers -/

theorem two_zpow_pos (e : ℤ) : (0 : ℚ) < 2 ^ e :=
  zpow_pos (by norm_num) e

theorem two_zpow_succ (e : ℤ) : (2 : ℚ) ^ (e + 1) = 2 * 2 ^ e := by
  rw [zpow_add₀ (by norm_num), zpow_one, mul_comm]

theorem two_zpow_le {e e' : ℤ} (h : e ≤ e') : (2 : ℚ) ^ e ≤ 2 ^ e' :=
  zpow_le_zpow_right₀ (by norm_num) h

theorem two_pow_carry (t : ℤ) : ((2 ^ 53 : ℤ) : ℚ) * 2 ^ t = (2 ^ 52 : ℤ) * 2 ^ (t + 1) := by
  rw [two_zpow_succ]
  push_cast
  ring

/-- What is counted in greater units is counted in smaller ones. -/
theorem exists_refine (k : ℤ) {j t : ℤ} (h : t ≤ j) : ∃ n : ℤ, (k : ℚ) * 2 ^ j = n * 2 ^ t ∧
    n = k * 2 ^ (j - t).toNat := by
  refine ⟨_, ?_, rfl⟩
  have split : j = ((j - t).toNat : ℤ) + t := by omega
  conv_lhs => rw [split, zpow_add₀ (by norm_num), zpow_natCast, ← mul_assoc]
  push_cast
  rfl

/-! ## The nearest integer -/

namespace NearestInt

variable {r : ℚ} {n : ℤ}

theorem one_le_abs_sub {n k : ℤ} (other : k ≠ n) : (1 : ℚ) ≤ |(n : ℚ) - k| := by
  exact_mod_cast Int.one_le_abs (sub_ne_zero.mpr other.symm)

theorem le (h : NearestInt r n) (k : ℤ) : |r - n| ≤ |r - k| := by
  by_cases other : k = n
  · rw [other]
  · have apart := one_le_abs_sub other
    have triangle := abs_sub_le (n : ℚ) r k
    rw [abs_sub_comm (n : ℚ) r] at triangle
    linarith [h.near]

theorem tie (h : NearestInt r n) {k : ℤ} (same : |r - n| = |r - k|) (other : k ≠ n) : Even n := by
  have apart := one_le_abs_sub other
  have triangle := abs_sub_le (n : ℚ) r k
  rw [abs_sub_comm (n : ℚ) r] at triangle
  exact h.even (le_antisymm h.near (by linarith))

end NearestInt

/-! ## Doubles in order -/

namespace IsDouble

variable {m e m' e' : ℤ}

theorem neg (h : IsDouble m e) : IsDouble (-m) e := by
  refine ⟨?_, h.least, h.greatest, ?_⟩ <;> rw [abs_neg]
  exacts [h.mantissa, h.normal]

theorem zero : IsDouble 0 (-1074) :=
  ⟨by norm_num, le_refl _, by norm_num, .inr rfl⟩

theorem lt_two_pow (h : IsDouble m e) : (m : ℚ) < 2 ^ 53 := by
  exact_mod_cast (abs_lt.mp h.mantissa).2

/-- A double of smaller units is less than one of 53 bits. -/
theorem lt_of_lt (h : IsDouble m e) {t : ℤ} (smaller : e < t) :
    (m : ℚ) * 2 ^ e < 2 ^ 52 * 2 ^ t := by
  have unit : 2 * (2 : ℚ) ^ e ≤ 2 ^ t := two_zpow_succ e ▸ two_zpow_le (by omega)
  calc (m : ℚ) * 2 ^ e < 2 ^ 53 * 2 ^ e := mul_lt_mul_of_pos_right h.lt_two_pow (two_zpow_pos e)
    _ = 2 ^ 52 * (2 * 2 ^ e) := by ring
    _ ≤ 2 ^ 52 * 2 ^ t := mul_le_mul_of_nonneg_left unit (by norm_num)

/-- The next greater double is one unit away at least. -/
theorem succ_le (h : IsDouble m e) (h' : IsDouble m' e') (nonneg : 0 ≤ m)
    (less : (m : ℚ) * 2 ^ e < m' * 2 ^ e') : ((m + 1 : ℤ) : ℚ) * 2 ^ e ≤ m' * 2 ^ e' := by
  rcases lt_or_ge e' e with smaller | greater
  · -- a double of smaller units is not greater
    have normal : 2 ^ 52 ≤ m := by
      have normal := h.normal.resolve_right (by have := h'.least; omega)
      rwa [abs_of_nonneg nonneg] at normal
    have normal : (2 : ℚ) ^ 52 ≤ m := by exact_mod_cast normal
    have := mul_le_mul_of_nonneg_right normal (two_zpow_pos e).le
    exact absurd (h'.lt_of_lt smaller) (by linarith)
  · obtain ⟨n, same, -⟩ := exists_refine m' greater
    rw [same] at less ⊢
    have less : m < n := by exact_mod_cast lt_of_mul_lt_mul_right less (two_zpow_pos e).le
    have next : ((m + 1 : ℤ) : ℚ) ≤ n := by exact_mod_cast less
    exact mul_le_mul_of_nonneg_right next (two_zpow_pos e).le

theorem two_pow {e : ℤ} (least : -1074 ≤ e) (greatest : e ≤ 971) : IsDouble (2 ^ 52) e :=
  ⟨by norm_num, least, greatest, .inl (by norm_num)⟩

/-- A double has one exponent. -/
theorem exponent_unique (h : IsDouble m e) (h' : IsDouble m' e') (positive : 0 < m)
    (same : (m : ℚ) * 2 ^ e = m' * 2 ^ e') : e = e' := by
  -- an integer of 53 bits times two has more than 53 bits
  have key {a b c d : ℤ} (h : IsDouble a b) (h' : IsDouble c d) (positive : 0 < c)
      (same : (a : ℚ) * 2 ^ b = c * 2 ^ d) : ¬ b < d := by
    intro less
    have normal : 2 ^ 52 ≤ c := by
      have normal := h'.normal.resolve_right (by have := h.least; omega)
      rwa [abs_of_pos positive] at normal
    have normal : (2 : ℚ) ^ 52 ≤ c := by exact_mod_cast normal
    have := mul_le_mul_of_nonneg_right normal (two_zpow_pos d).le
    linarith [h.lt_of_lt less]
  have positive' : 0 < m' := by
    have : (0 : ℚ) < m' * 2 ^ e' :=
      same ▸ mul_pos (by exact_mod_cast positive) (two_zpow_pos e)
    exact_mod_cast (mul_pos_iff_of_pos_right (two_zpow_pos e')).mp this
  exact le_antisymm (not_lt.mp (key h' h positive same.symm)) (not_lt.mp (key h h' positive' same))

/-- One unit more is a double if the mantissa is even. -/
theorem succ (h : IsDouble m e) (nonneg : 0 ≤ m) (even : Even m) : IsDouble (m + 1) e := by
  have small := h.mantissa
  rw [abs_of_nonneg nonneg] at small
  have next : |m + 1| = m + 1 := abs_of_nonneg (by omega)
  refine ⟨?_, h.least, h.greatest, h.normal.imp_left fun normal => ?_⟩
  · obtain ⟨k, rfl⟩ := even
    rw [next]
    omega
  · rw [abs_of_nonneg nonneg] at normal
    rw [next]
    omega

end IsDouble

/-! ## The nearest double is unique -/

theorem Nearest.neg {q v : ℚ} (h : Nearest q v) : Nearest (-q) (-v) := by
  obtain ⟨inRange, m, e, double, rfl, nearest⟩ := h
  refine ⟨by rwa [abs_neg], -m, e, double.neg, by push_cast; ring, fun k j other => ?_⟩
  obtain ⟨near, even⟩ := nearest (-k) j other.neg
  have distance (a b : ℚ) : |-a - -b| = |a - b| := by rw [neg_sub_neg, abs_sub_comm]
  have opposite : (k : ℚ) * 2 ^ j = -(((-k : ℤ) : ℚ) * 2 ^ j) := by push_cast; ring
  rw [opposite, distance, distance]
  exact ⟨near, fun same differ => (even same (fun eq => differ (by rw [eq]))).neg⟩

/-- No number has two nearest doubles, the one less than the other. -/
theorem Nearest.not_lt_of_nonneg {q v v' : ℚ} (h : Nearest q v) (h' : Nearest q v')
    (nonneg : 0 ≤ v) : ¬ v < v' := by
  obtain ⟨-, m, e, double, rfl, nearest⟩ := h
  obtain ⟨-, m', e', double', rfl, nearest'⟩ := h'
  intro less
  have equal : |q - m * 2 ^ e| = |q - m' * 2 ^ e'| :=
    le_antisymm (nearest m' e' double').1 (nearest' m e double).1
  have even := (nearest m' e' double').2 equal less.ne'
  have even' := (nearest' m e double).2 equal.symm less.ne
  have nonneg : 0 ≤ m := by exact_mod_cast nonneg_of_mul_nonneg_left nonneg (two_zpow_pos e)
  have between := double.succ nonneg even
  have near := (nearest (m + 1) e between).1
  -- the double one unit after the lesser one is nearer, unless it is the greater one
  have unit : ((m + 1 : ℤ) : ℚ) * 2 ^ e = m * 2 ^ e + 2 ^ e := by push_cast; ring
  have step := two_zpow_pos e
  rcases (double.succ_le double' nonneg less).lt_or_eq with inside | same
  · have middle : q - m * 2 ^ e = m' * 2 ^ e' - q := by
      rcases abs_eq_abs.mp equal with eq | eq <;> linarith
    rw [unit] at near inside
    have outside : |q - (m * 2 ^ e + 2 ^ e)| < |q - m * 2 ^ e| := by
      rw [abs_of_nonneg (by linarith : 0 ≤ q - m * 2 ^ e)]
      exact abs_lt.mpr ⟨by linarith, by linarith⟩
    linarith
  · obtain rfl := between.exponent_unique double' (by omega) same
    have mantissa : m + 1 = m' := by
      exact_mod_cast mul_right_cancel₀ step.ne' same
    obtain ⟨a, rfl⟩ := even
    obtain ⟨b, rfl⟩ := even'
    omega

theorem Nearest.unique {q v v' : ℚ} (h : Nearest q v) (h' : Nearest q v') : v = v' := by
  -- two doubles of which neither is less, whatever their signs
  have key {q v v' : ℚ} (h : Nearest q v) (h' : Nearest q v') : ¬ v < v' := by
    intro less
    rcases le_or_gt 0 v with nonneg | negative
    · exact h.not_lt_of_nonneg h' nonneg less
    rcases le_or_gt v' 0 with nonpos | positive
    · exact h'.neg.not_lt_of_nonneg h.neg (by linarith) (by linarith)
    -- zero lies between
    obtain ⟨-, m, e, double, rfl, nearest⟩ := h
    obtain ⟨-, m', e', double', rfl, nearest'⟩ := h'
    have equal : |q - m * 2 ^ e| = |q - m' * 2 ^ e'| :=
      le_antisymm (nearest m' e' double').1 (nearest' m e double).1
    have middle : q - m * 2 ^ e = m' * 2 ^ e' - q := by
      rcases abs_eq_abs.mp equal with eq | eq <;> linarith
    have near := (nearest 0 (-1074) .zero).1
    rw [Int.cast_zero, zero_mul, sub_zero,
      abs_of_nonneg (by linarith : 0 ≤ q - m * 2 ^ e)] at near
    have nearer : |q| < q - m * 2 ^ e := abs_lt.mpr ⟨by linarith, by linarith⟩
    linarith
  exact le_antisymm (not_lt.mp (key h' h)) (not_lt.mp (key h h'))

/-! ## Finding it -/

namespace NearestInt

variable {r : ℚ} {n t : ℤ}

theorem nonneg (h : NearestInt r n) (nonneg : 0 ≤ r) : 0 ≤ n := by
  have := (abs_le.mp h.near).2
  have : (-1 : ℚ) < n := by linarith
  have : (-1 : ℤ) < n := by exact_mod_cast this
  omega

theorem le_of_lt (h : NearestInt r n) {a : ℤ} (less : r < a) : n ≤ a := by
  have := (abs_le.mp h.near).1
  have : (n : ℚ) < a + 1 := by linarith
  have : n < a + 1 := by exact_mod_cast this
  omega

theorem le_of_le (h : NearestInt r n) {a : ℤ} (least : a ≤ r) : a ≤ n := by
  have := (abs_le.mp h.near).2
  have : (a : ℚ) < n + 1 := by linarith
  have : a < n + 1 := by exact_mod_cast this
  omega

/-- A number of 53 bits is past the limit if its units are, or if it rounds up to the next power of
two in the greatest units. -/
theorem lt_doubleLimit_iff (h : NearestInt r n) (nonneg : 0 ≤ r) (small : r < 2 ^ 53)
    (normal : 2 ^ 52 ≤ r ∨ t = -1074) :
    r * 2 ^ t < doubleLimit ↔ t ≤ 970 ∨ t = 971 ∧ n < 2 ^ 53 := by
  have next : (2 : ℚ) ^ (971 : ℤ) = 2 * 2 ^ (970 : ℤ) := two_zpow_succ 970
  have greatest : doubleLimit = (2 ^ 53 - 1 / 2) * 2 ^ (971 : ℤ) := by
    rw [doubleLimit, next]
    ring
  have unit := two_zpow_pos 971
  constructor
  · intro less
    by_contra past
    push Not at past
    have normal := normal.resolve_right (by omega)
    rcases (by omega : t = 971 ∨ 972 ≤ t) with rfl | far
    · -- it is nearer to the power of two than the limit is
      have top : (2 : ℚ) ^ 53 ≤ n := by exact_mod_cast past.2 rfl
      have near := (abs_le.mp h.near).1
      rw [greatest, mul_lt_mul_iff_left₀ unit] at less
      linarith
    · have beyond : (2 : ℚ) ^ 52 * 2 ^ (972 : ℤ) ≤ r * 2 ^ t :=
        mul_le_mul normal (two_zpow_le far) (two_zpow_pos 972).le nonneg
      rw [show (2 : ℚ) ^ (972 : ℤ) = 2 * 2 ^ (971 : ℤ) from two_zpow_succ 971] at beyond
      rw [greatest] at less
      generalize (2 : ℚ) ^ (971 : ℤ) = u at unit less beyond
      linarith
  · rintro (far | ⟨rfl, less⟩)
    · have units : r * 2 ^ t ≤ r * 2 ^ (970 : ℤ) :=
        mul_le_mul_of_nonneg_left (two_zpow_le far) nonneg
      have unit := two_zpow_pos 970
      have below := mul_lt_mul_of_pos_right small unit
      rw [greatest, next]
      generalize (2 : ℚ) ^ (970 : ℤ) = u at unit units below ⊢
      linarith
    · have top : (n : ℚ) ≤ 2 ^ 53 - 1 := by exact_mod_cast Int.le_sub_one_of_lt less
      have near := (abs_le.mp h.near).2
      rw [greatest, mul_lt_mul_iff_left₀ unit]
      -- halfway below the power of two the even neighbour is that power
      refine lt_of_le_of_ne (by linarith) fun half => ?_
      have last : n = 2 ^ 53 - 1 := by
        have : (2 : ℚ) ^ 53 - 1 ≤ n := by linarith
        exact le_antisymm (by omega) (by exact_mod_cast this)
      obtain ⟨k, even⟩ := h.even (by rw [half, last]; norm_num)
      omega

/-- The nearest integer is the mantissa of a double if it has no more than 53 bits. -/
theorem isDouble (h : NearestInt r n) (least : -1074 ≤ t) (greatest : t ≤ 971) (nonneg : 0 ≤ r)
    (normal : 2 ^ 52 ≤ r ∨ t = -1074) (less : n < 2 ^ 53) : IsDouble n t := by
  have positive := h.nonneg nonneg
  have normal : 2 ^ 52 ≤ n ∨ t = -1074 :=
    normal.imp_left fun normal => h.le_of_le (by exact_mod_cast normal)
  refine ⟨?_, least, greatest, ?_⟩ <;> rwa [abs_of_nonneg positive]

/-- The nearest integer of 54 bits is a power of two, which is a double of units twice as great. -/
theorem exists_isDouble (h : NearestInt r n) (least : -1074 ≤ t) (nonneg : 0 ≤ r)
    (small : r < 2 ^ 53) (normal : 2 ^ 52 ≤ r ∨ t = -1074) (inRange : r * 2 ^ t < doubleLimit) :
    ∃ m e : ℤ, IsDouble m e ∧ (n : ℚ) * 2 ^ t = m * 2 ^ e ∧ (Even n → Even m) := by
  have range := (h.lt_doubleLimit_iff nonneg small normal).mp inRange
  have top : n ≤ 2 ^ 53 := h.le_of_lt (by exact_mod_cast small)
  rcases top.lt_or_eq with less | rfl
  · exact ⟨n, t, h.isDouble least (by omega) nonneg normal less, rfl, id⟩
  · exact ⟨2 ^ 52, t + 1, .two_pow (by omega) (by omega), two_pow_carry t,
      fun _ => ⟨2 ^ 51, by norm_num⟩⟩

/-- Rounding to integers of 53 bits, or of fewer in the least units, rounds to doubles. -/
theorem nearest (h : NearestInt r n) (least : -1074 ≤ t) (nonneg : 0 ≤ r) (small : r < 2 ^ 53)
    (normal : 2 ^ 52 ≤ r ∨ t = -1074) (inRange : r * 2 ^ t < doubleLimit) :
    Nearest (r * 2 ^ t) (n * 2 ^ t) := by
  have unit := two_zpow_pos t
  have distance (a b : ℚ) : |a * 2 ^ t - b * 2 ^ t| = |a - b| * 2 ^ t := by
    rw [← sub_mul, abs_mul, abs_of_pos unit]
  obtain ⟨m, e, double, same, even⟩ := h.exists_isDouble least nonneg small normal inRange
  refine ⟨by rwa [abs_of_nonneg (by positivity)], m, e, double, same, fun k j other => ?_⟩
  rcases lt_or_ge j t with smaller | greater
  · -- doubles of smaller units are all below, and the least of 53 bits is nearer
    have normal := normal.resolve_right (by have := other.least; omega)
    have below := other.lt_of_lt smaller
    have nearer := h.le (2 ^ 52)
    rw [Int.cast_pow, Int.cast_ofNat, abs_of_nonneg (by linarith : 0 ≤ r - 2 ^ 52)] at nearer
    have nearer := mul_le_mul_of_nonneg_right nearer unit.le
    have farther := le_abs_self (r * 2 ^ t - k * 2 ^ j)
    rw [distance]
    exact ⟨by linarith, fun tie => by linarith⟩
  · obtain ⟨N, refined, -⟩ := exists_refine k greater
    rw [refined, distance, distance]
    refine ⟨mul_le_mul_of_nonneg_right (h.le N) unit.le, fun tie differ => even ?_⟩
    exact h.tie (mul_right_cancel₀ unit.ne' tie) fun eq => differ (by rw [eq])

end NearestInt

end CardBridge
