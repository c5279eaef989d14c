import CardBridge.Proofs.DoubleBits

/-!
# Arithmetic on doubles rounds to the nearest

What is left of a number when its last bits are shifted out is an integer, the next bit, and whether
any bit after that was set. That says where the number lies (`Holds`), so the integer nearest to it
is known (`Holds.nearestInt`), and with it the nearest double (`roundsTo_roundWithAccuracy`).
Products and quotients are rounded in this way.
-/

namespace CardBridge.Binary64

open Float.Model Float.Model.UnpackedFloat

/-! ## The bits shifted out -/

/-- The integer with the next bit. -/
def position (em : ExtendedMantissa) : ℚ :=
  em.mantissa + em.roundBit.toNat / 2

/-- `r` has these bits, and others after them if the last bit is set. -/
structure Holds (r : ℚ) (em : ExtendedMantissa) : Prop where
  least : position em ≤ r
  less : r < position em + 1 / 2
  sticky : em.stickyBit = false ↔ r = position em

namespace Holds

variable {r : ℚ} {em : ExtendedMantissa}

theorem mantissa_le (h : Holds r em) : em.mantissa ≤ r := by
  have bit : (0 : ℚ) ≤ em.roundBit.toNat := Nat.cast_nonneg _
  have := h.least
  rw [position] at this
  linarith

theorem lt_mantissa_add_one (h : Holds r em) : r < em.mantissa + 1 := by
  have bit : (em.roundBit.toNat : ℚ) ≤ 1 := by exact_mod_cast Bool.toNat_le em.roundBit
  have := h.less
  rw [position] at this
  linarith

theorem eq_mantissa_iff (h : Holds r em) :
    (em.roundBit || em.stickyBit) = false ↔ r = em.mantissa := by
  have least := h.least
  rw [Bool.or_eq_false_iff, h.sticky, position]
  cases eq : em.roundBit <;> simp [position, eq] at least ⊢
  linarith

theorem position_shiftRightOne (em : ExtendedMantissa) :
    position em.shiftRightOne = em.mantissa / 2 := by
  have bit : (em.mantissa % 2 != 0).toNat = em.mantissa % 2 := by
    rcases Nat.mod_two_eq_zero_or_one em.mantissa with parity | parity <;> rw [parity] <;> rfl
  have split : (em.mantissa : ℚ) = 2 * (em.mantissa / 2 : ℕ) + (em.mantissa % 2 : ℕ) := by
    exact_mod_cast (Nat.div_add_mod em.mantissa 2).symm
  change ((em.mantissa / 2 : ℕ) : ℚ) + (em.mantissa % 2 != 0).toNat / 2 = em.mantissa / 2
  rw [bit]
  linarith

theorem shiftRightOne (h : Holds r em) : Holds (r / 2) em.shiftRightOne := by
  have := h.mantissa_le
  have := h.lt_mantissa_add_one
  constructor <;> rw [position_shiftRightOne]
  · linarith
  · linarith
  · rw [div_left_inj' two_ne_zero]
    exact h.eq_mantissa_iff

theorem shiftRight (h : Holds r em) (k : ℕ) : Holds (r / 2 ^ k) (em >>> k) := by
  change Holds (r / 2 ^ k) (k.repeat ExtendedMantissa.shiftRightOne em)
  induction k with
  | zero => simpa [Nat.repeat] using h
  | succ k ih =>
    rw [pow_succ, ← div_div]
    exact ih.shiftRightOne

theorem nearestInt (h : Holds r em) : NearestInt r em.roundedMantissa := by
  obtain ⟨m, round, sticky⟩ := em
  obtain ⟨least, less, exact⟩ := h
  cases round
  · -- nearer to the integer, whatever comes after
    have rounded : ExtendedMantissa.roundedMantissa ⟨m, false, sticky⟩ = m := by
      cases sticky <;> rfl
    simp only [position, Bool.toNat_false, Nat.cast_zero, zero_div, add_zero] at least less
    have distance : |r - m| < 1 / 2 := abs_lt.mpr ⟨by linarith, by linarith⟩
    rw [rounded]
    exact ⟨distance.le, fun same => absurd same distance.ne⟩
  simp only [position, Bool.toNat_true, Nat.cast_one] at least less exact
  cases sticky
  · -- in the middle
    have middle := exact.mp rfl
    change NearestInt r ((m + m % 2 : ℕ) : ℤ)
    refine ⟨?_, fun _ => by exact_mod_cast (Nat.even_iff.mpr (by omega))⟩
    rw [middle]
    rcases Nat.mod_two_eq_zero_or_one m with parity | parity <;> rw [parity] <;> push_cast <;>
      norm_num
  · have after : m + 1 / 2 < r :=
      lt_of_le_of_ne least fun middle => by simpa using exact.mpr middle.symm
    change NearestInt r ((m + 1 : ℕ) : ℤ)
    have distance : |r - ((m + 1 : ℕ) : ℤ)| < 1 / 2 := by
      push_cast
      exact abs_lt.mpr ⟨by linarith, by linarith⟩
    exact ⟨distance.le, fun same => absurd same distance.ne⟩

end Holds

/-! ## Rounding -/

/-- What remains of a mantissa, and the place of its last bit. -/
theorem shiftToTargetExponent_eq (m : ℕ) (e : ℤ) (a : Accuracy) :
    shiftToTargetExponent .binary64 m e a =
      (ExtendedMantissa.ofMantissaAndAccuracy m a >>> (max (m.log2 + 1 + e - 53) (-1074) - e).toNat,
        e + (max (m.log2 + 1 + e - 53) (-1074) - e).toNat) :=
  rfl

/-- Nothing is shifted out of 53 bits. -/
theorem shiftToTargetExponent_of_lt {m : ℕ} {e : ℤ} (least : -1074 ≤ e) (small : m < 2 ^ 53) :
    shiftToTargetExponent .binary64 m e .exact = (⟨m, false, false⟩, e) := by
  have bits : m.log2 ≤ 52 := by
    rcases Nat.eq_zero_or_pos m with rfl | positive
    · decide
    · have := (Nat.log2_lt positive.ne').mpr small
      omega
  rw [shiftToTargetExponent_eq,
    show (max ((m.log2 : ℤ) + 1 + e - 53) (-1074) - e).toNat = 0 by omega, Nat.cast_zero, add_zero]
  rfl

/-- A carry into the 54th bit is shifted back. -/
theorem shiftToTargetExponent_carry {e : ℤ} (least : -1074 ≤ e) :
    shiftToTargetExponent .binary64 (2 ^ 53) e .exact = (⟨2 ^ 52, false, false⟩, e + 1) := by
  rw [shiftToTargetExponent_eq, Nat.log2_two_pow,
    show (max (((53 : ℕ) : ℤ) + 1 + e - 53) (-1074) - e).toNat = 1 by omega]
  rfl

/-- A double holds a number of sign `s` and size `q` as well as a double can: as the nearest one, or
as an infinity if the number is past the limit. -/
def RoundsTo (s : Sign) (q : ℚ) : UnpackedFloat → Prop
  | .notANumber => False
  | .infinity s' => s' = s ∧ doubleLimit ≤ q
  | .zero s' => s' = s ∧ Nearest q 0
  | .finite s' m e _ => s' = s ∧ IsDouble m e ∧ Nearest q (m * 2 ^ e)

theorem RoundsTo.fits {s : Sign} {q : ℚ} {u : UnpackedFloat} (h : RoundsTo s q u) : Fits u := by
  cases u with
  | finite => exact h.2.1
  | _ => trivial

/-- What is past the greatest exponent is packed as an infinity. -/
theorem pack_of_overflow (s : Sign) {m : ℕ} {e : ℤ} (positive : 0 < m) (past : 972 ≤ e) :
    Float.Model.pack (.finite s m e positive) = Float.Model.pack (.infinity s) := by
  have field : 2 ^ 11 ≤ (e + (1023 : ℕ) + (52 : ℕ)).toNat + 1 := by omega
  have packed : UnpackedFloat.pack .binary64 (.finite s m e positive) =
      UnpackedFloat.packedInfinity .binary64 s := if_pos field
  rw [Float.Model.pack, Float.Model.mk.injEq, packed]
  rfl

/-- What is left to do once the mantissa is rounded. -/
def carried (s : Sign) (n : ℕ) (t : ℤ) : UnpackedFloat :=
  if h : n = 0 then .zero s
  else if n < 2 ^ 53 then .finite s n t (Nat.pos_of_ne_zero h)
  else .finite s (2 ^ 52) (t + 1) (by decide)

theorem roundsTo_carried (s : Sign) {r : ℚ} {n : ℕ} {t : ℤ} (near : NearestInt r n)
    (least : -1074 ≤ t) (nonneg : 0 ≤ r) (small : r < 2 ^ 53) (normal : 2 ^ 52 ≤ r ∨ t = -1074) :
    RoundsTo s (r * 2 ^ t) (Float.Model.pack (carried s n t)).unpack := by
  have limit := near.lt_doubleLimit_iff nonneg small normal
  have nearest := near.nearest least nonneg small normal
  have top : (n : ℤ) ≤ 2 ^ 53 := near.le_of_lt (by exact_mod_cast small)
  have nonzero : n ≠ 0 ∨ t = -1074 := normal.imp_left fun normal eq => by
    have : (2 : ℤ) ^ 52 ≤ n := near.le_of_le (by exact_mod_cast normal)
    omega
  by_cases zero : n = 0
  · have inRange := limit.mpr (by omega)
    rw [carried, dif_pos zero, unpack_pack (by trivial)]
    exact ⟨rfl, by simpa [zero] using nearest inRange⟩
  rw [carried, dif_neg zero]
  by_cases less : n < 2 ^ 53
  · rw [if_pos less]
    by_cases greatest : t ≤ 971
    · have double := near.isDouble least greatest nonneg normal (by exact_mod_cast less)
      have fits : Fits (.finite s n t (Nat.pos_of_ne_zero zero)) := double
      rw [unpack_pack fits]
      exact ⟨rfl, double, by exact_mod_cast nearest (limit.mpr (by omega))⟩
    · rw [pack_of_overflow s _ (by omega), unpack_pack (by trivial)]
      exact ⟨rfl, not_lt.mp (mt limit.mp (by omega))⟩
  · rw [if_neg less]
    obtain rfl : n = 2 ^ 53 := by omega
    by_cases greatest : t ≤ 970
    · have double : IsDouble (2 ^ 52) (t + 1) := .two_pow (by omega) (by omega)
      have fits : Fits (.finite s (2 ^ 52) (t + 1) (by decide)) := double
      rw [unpack_pack fits]
      exact ⟨rfl, double, two_pow_carry t ▸ nearest (limit.mpr (by omega))⟩
    · rw [pack_of_overflow s _ (by omega), unpack_pack (by trivial)]
      exact ⟨rfl, not_lt.mp (mt limit.mp (by omega))⟩

/-- The rounded mantissa is shifted again only for a carry. -/
theorem roundWithAccuracy_eq (s : Sign) {m : ℕ} {e : ℤ} {a : Accuracy} {em : ExtendedMantissa}
    {t : ℤ} (shifted : shiftToTargetExponent .binary64 m e a = (em, t)) (least : -1074 ≤ t)
    (top : em.roundedMantissa ≤ 2 ^ 53) :
    roundWithAccuracy .binary64 s m e a = carried s em.roundedMantissa t := by
  rw [roundWithAccuracy, shifted]
  dsimp only
  rcases top.lt_or_eq with less | carry
  · rw [shiftToTargetExponent_of_lt least less, carried]
    by_cases zero : em.roundedMantissa = 0
    · rw [dif_pos zero, dif_pos zero]
    · rw [dif_neg zero, dif_neg zero, if_pos less]
  · rw [carry, shiftToTargetExponent_carry least]
    rfl

theorem ofMantissaAndAccuracy_mantissa (m : ℕ) (a : Accuracy) :
    (ExtendedMantissa.ofMantissaAndAccuracy m a).mantissa = m := by
  rcases a with _ | ⟨_ | _ | _⟩ <;> rfl

/-- A mantissa of 53 bits and more is rounded to 53 bits, unless the units are less than the least
ones. -/
theorem roundsTo_roundWithAccuracy (s : Sign) {m : ℕ} {e : ℤ} {a : Accuracy} {r : ℚ}
    (h : Holds r (.ofMantissaAndAccuracy m a)) (enough : 52 ≤ m.log2 ∨ e ≤ -1074) :
    RoundsTo s (r * 2 ^ e)
      (Float.Model.pack (roundWithAccuracy .binary64 s m e a)).unpack := by
  obtain ⟨k, count⟩ : ∃ k : ℕ, k = (max ((m.log2 : ℤ) + 1 + e - 53) (-1074) - e).toNat := ⟨_, rfl⟩
  have place : e + k = max ((m.log2 : ℤ) + 1 + e - 53) (-1074) := by omega
  have shifted := h.shiftRight k
  have least := h.mantissa_le
  have less := h.lt_mantissa_add_one
  rw [ofMantissaAndAccuracy_mantissa] at least less
  have nonneg : 0 ≤ r := le_trans (Nat.cast_nonneg m) least
  have small : r / 2 ^ k < 2 ^ 53 := by
    rw [div_lt_iff₀ (by positivity), ← pow_add]
    have bits : m + 1 ≤ 2 ^ (53 + k) :=
      (Nat.lt_log2_self).trans_le (Nat.pow_le_pow_right (by decide) (by omega))
    exact less.trans_le (by exact_mod_cast bits)
  have normal : 2 ^ 52 ≤ r / 2 ^ k ∨ e + k = -1074 := by
    rcases eq_or_ne (e + k) (-1074) with subnormal | notLeast
    · exact .inr subnormal
    · left
      have positive : m ≠ 0 := by
        rintro rfl
        have := Nat.log2_zero
        omega
      have bits : 2 ^ (52 + k) ≤ m := by
        rw [show 52 + k = m.log2 by omega]
        exact Nat.log2_self_le positive
      rw [le_div_iff₀ (by positivity), ← pow_add]
      exact le_trans (by exact_mod_cast bits) least
  have value : r * 2 ^ e = r / 2 ^ k * 2 ^ (e + k) := by
    rw [zpow_add₀ (by norm_num), zpow_natCast, mul_comm ((2 : ℚ) ^ e), ← mul_assoc,
      div_mul_cancel₀ r (by positivity)]
  have top : ((ExtendedMantissa.ofMantissaAndAccuracy m a >>> k).roundedMantissa : ℤ) ≤ 2 ^ 53 :=
    shifted.nearestInt.le_of_lt (by push_cast; exact small)
  rw [roundWithAccuracy_eq s (by rw [shiftToTargetExponent_eq, ← count]) (by omega) (by omega),
    value]
  exact roundsTo_carried s shifted.nearestInt (by omega) (div_nonneg nonneg (by positivity)) small
    normal

theorem holds_exact (m : ℕ) : Holds m (.ofMantissaAndAccuracy m .exact) := by
  constructor <;> simp [ExtendedMantissa.ofMantissaAndAccuracy, position]

/-! ## Numbers in powers of two -/

theorem roundsTo_round (s : Sign) {m : ℕ} (positive : 0 < m) (e : ℤ) :
    RoundsTo s (m * 2 ^ e) (Float.Model.pack (round .binary64 s m e)).unpack := by
  obtain ⟨k, count⟩ : ∃ k : ℕ, k = (e - max ((m.log2 : ℤ) + 1 + e - 53) (-1074)).toNat := ⟨_, rfl⟩
  have shifted : round .binary64 s m e =
      roundWithAccuracy .binary64 s (m * 2 ^ k) (e - k) .exact := by
    rw [← Nat.shiftLeft_eq, count]
    rfl
  have value : (m * 2 ^ e : ℚ) = (m * 2 ^ k : ℕ) * 2 ^ (e - k) := by
    rw [zpow_sub₀ (by norm_num), zpow_natCast, Nat.cast_mul, Nat.cast_pow, Nat.cast_ofNat,
      mul_assoc, mul_div_cancel₀ _ (by positivity)]
  have enough : 52 ≤ (m * 2 ^ k).log2 ∨ e - k ≤ -1074 := by
    have bits : m.log2 + k ≤ (m * 2 ^ k).log2 := by
      rw [Nat.le_log2 (by positivity), pow_add]
      exact Nat.mul_le_mul_right _ (Nat.log2_self_le positive.ne')
    omega
  rw [shifted, value]
  exact roundsTo_roundWithAccuracy s (holds_exact (m * 2 ^ k)) enough

theorem doubleLimit_le {q : ℚ} (great : 2 ^ (1024 : ℤ) ≤ q) : doubleLimit ≤ q := by
  have units : (2 : ℚ) ^ (1024 : ℤ) = 2 ^ 54 * 2 ^ (970 : ℤ) := by
    rw [← zpow_natCast, ← zpow_add₀ (by norm_num)]
    rfl
  refine le_trans ?_ great
  rw [doubleLimit, units]
  exact mul_le_mul_of_nonneg_right (by norm_num) (two_zpow_pos 970).le

theorem nearest_zero {q : ℚ} (nonneg : 0 ≤ q) (little : q < 2 ^ (-1075 : ℤ)) : Nearest q 0 := by
  have unit := two_zpow_pos (-1074)
  have halved : (2 : ℚ) ^ (-1075 : ℤ) = 1 / 2 * 2 ^ (-1074 : ℤ) := by
    rw [show (-1074 : ℤ) = -1075 + 1 from rfl, two_zpow_succ]
    ring
  obtain ⟨r, units⟩ : ∃ r : ℚ, q = r * 2 ^ (-1074 : ℤ) := ⟨q / _, (div_mul_cancel₀ q unit.ne').symm⟩
  have half : r < 1 / 2 := lt_of_mul_lt_mul_right (units ▸ halved ▸ little) unit.le
  have nonneg : 0 ≤ r := nonneg_of_mul_nonneg_left (units ▸ nonneg) unit
  have near : NearestInt r 0 := by
    have distance : |r - (0 : ℤ)| < 1 / 2 := by
      rw [Int.cast_zero, sub_zero, abs_of_nonneg nonneg]
      exact half
    exact ⟨distance.le, fun same => absurd same distance.ne⟩
  have small : r < 2 ^ 53 := by linarith
  have inRange := (near.lt_doubleLimit_iff nonneg small (.inr rfl)).mpr (.inl (by norm_num))
  have nearest := near.nearest le_rfl nonneg small (.inr rfl) inRange
  rwa [Int.cast_zero, zero_mul, ← units] at nearest

/-- The double that is computed is the nearest one, past the limit an infinity. -/
theorem roundsTo_ofDyadic (m : ℕ) (e : ℤ) :
    RoundsTo .positive (m * 2 ^ e) (ofDyadic false m e).toModel.unpack := by
  rw [ofDyadic, if_neg (by decide)]
  rcases Nat.eq_zero_or_pos m with rfl | positive
  · rw [if_pos (.inl rfl), Nat.cast_zero, zero_mul]
    exact ⟨rfl, nearest_zero le_rfl (two_zpow_pos _)⟩
  have lower : (2 : ℚ) ^ (m.log2 : ℤ) ≤ m := by
    rw [zpow_natCast]
    exact_mod_cast Nat.log2_self_le positive.ne'
  have upper : (m : ℚ) < 2 ^ (m.log2 + 1 : ℤ) := by
    exact_mod_cast (Nat.lt_log2_self : m < 2 ^ (m.log2 + 1))
  have unit := two_zpow_pos e
  by_cases little : e + m.log2 < -1100
  · rw [if_pos (.inr little)]
    refine ⟨rfl, nearest_zero (by positivity) ?_⟩
    calc (m : ℚ) * 2 ^ e < 2 ^ (m.log2 + 1 : ℤ) * 2 ^ e := mul_lt_mul_of_pos_right upper unit
      _ = 2 ^ (m.log2 + 1 + e) := (zpow_add₀ (by norm_num) ..).symm
      _ ≤ 2 ^ (-1075 : ℤ) := two_zpow_le (by omega)
  rw [if_neg (by simp only [positive.ne', little, or_self, not_false_eq_true])]
  by_cases great : e + m.log2 > 1100
  · rw [if_pos great]
    refine ⟨rfl, doubleLimit_le ?_⟩
    calc (2 : ℚ) ^ (1024 : ℤ) ≤ 2 ^ (m.log2 + e) := two_zpow_le (by omega)
      _ = 2 ^ (m.log2 : ℤ) * 2 ^ e := zpow_add₀ (by norm_num) ..
      _ ≤ m * 2 ^ e := mul_le_mul_of_nonneg_right lower unit.le
  rw [if_neg great]
  exact roundsTo_round .positive positive e

/-! ## Products and quotients -/

/-- A part of a unit, told by how it compares with half of one. -/
theorem holds_inexact (m : ℕ) {x : ℚ} (positive : 0 < x) (less : x < 1) {o : Ordering}
    (half : o.Compares x (1 / 2)) : Holds (m + x) (.ofMantissaAndAccuracy m (.inexact o)) := by
  cases o with
  | lt =>
    have before : x < 1 / 2 := half
    constructor <;> simp only [ExtendedMantissa.ofMantissaAndAccuracy, position] <;> norm_num
    exacts [positive.le, by linarith, positive.ne']
  | eq =>
    obtain rfl : x = 1 / 2 := half
    constructor <;> simp only [ExtendedMantissa.ofMantissaAndAccuracy, position] <;> norm_num
  | gt =>
    have after : 1 / 2 < x := half
    constructor <;> simp only [ExtendedMantissa.ofMantissaAndAccuracy, position] <;> norm_num
    exacts [by linarith, by linarith, fun eq => by linarith]

/-- What is left of a division says where the quotient lies. -/
theorem holds_div (a : ℕ) {b : ℕ} (positive : 0 < b) :
    Holds (a / b) (.ofMantissaAndAccuracy (a / b) (accuracyOfFraction (a % b) b)) := by
  have divisor : (0 : ℚ) < b := by exact_mod_cast positive
  have split : (a / b : ℚ) = (a / b : ℕ) + (a % b : ℕ) / b := by
    have : (a : ℚ) = b * (a / b : ℕ) + (a % b : ℕ) := by exact_mod_cast (Nat.div_add_mod a b).symm
    rw [this, add_div, mul_div_cancel_left₀ _ divisor.ne']
  rw [split, accuracyOfFraction]
  by_cases zero : a % b = 0
  · rw [if_pos zero, zero, Nat.cast_zero, zero_div, add_zero]
    exact holds_exact (a / b)
  have below : 0 < a % b := Nat.pos_of_ne_zero zero
  rw [if_neg zero]
  refine holds_inexact _ (by positivity) ?_ ?_
  · rw [div_lt_one divisor]
    exact_mod_cast Nat.mod_lt a positive
  · rcases lt_trichotomy (2 * (a % b)) b with whole | whole | whole
    · have twice : (2 : ℚ) * (a % b : ℕ) < b := by exact_mod_cast whole
      rw [Nat.compare_eq_lt.mpr whole]
      change _ / (b : ℚ) < 1 / 2
      rw [div_lt_iff₀ divisor]
      linarith
    · have twice : (2 : ℚ) * (a % b : ℕ) = b := by exact_mod_cast whole
      rw [Nat.compare_eq_eq.mpr whole]
      change _ / (b : ℚ) = 1 / 2
      rw [div_eq_iff divisor.ne']
      linarith
    · have twice : (b : ℚ) < 2 * (a % b : ℕ) := by exact_mod_cast whole
      rw [Nat.compare_eq_gt.mpr whole]
      change 1 / 2 < _ / (b : ℚ)
      rw [lt_div_iff₀ divisor]
      linarith

theorem roundsTo_mul {m m' : ℕ} {e e' : ℤ} (p : 0 < m) (p' : 0 < m') (enough : 2 ^ 52 ≤ m * m') :
    RoundsTo .positive (m * 2 ^ e * (m' * 2 ^ e'))
      (Float.Model.pack (mul .binary64 (.finite .positive m e p)
        (.finite .positive m' e' p'))).unpack := by
  have bits : 52 ≤ (m * m').log2 := (Nat.le_log2 (by positivity)).mpr enough
  have value : (m * 2 ^ e * (m' * 2 ^ e') : ℚ) = (m * m' : ℕ) * 2 ^ (e + e') := by
    rw [zpow_add₀ (by norm_num)]
    push_cast
    ring
  rw [value]
  exact roundsTo_roundWithAccuracy .positive (holds_exact (m * m')) (.inl bits)

theorem roundsTo_div {m m' : ℕ} {e e' : ℤ} (p : 0 < m) (p' : 0 < m') :
    RoundsTo .positive (m * 2 ^ e / (m' * 2 ^ e'))
      (Float.Model.pack (div .binary64 (.finite .positive m e p)
        (.finite .positive m' e' p'))).unpack := by
  obtain ⟨t, target⟩ : ∃ t : ℤ, t = min (e - e')
      (max ((m.log2 + 1 + e : ℤ) - (m'.log2 + 1 + e') - 53) (-1074)) := ⟨_, rfl⟩
  obtain ⟨k, count⟩ : ∃ k : ℕ, k = (e - e' - t).toNat := ⟨_, rfl⟩
  have divided : div .binary64 (.finite .positive m e p) (.finite .positive m' e' p') =
      roundWithAccuracy .binary64 .positive (m * 2 ^ k / m') t
        (accuracyOfFraction (m * 2 ^ k % m') m') := by
    rw [← Nat.shiftLeft_eq, count, target]
    rfl
  have value : (m * 2 ^ e / (m' * 2 ^ e') : ℚ) = (m * 2 ^ k : ℕ) / m' * 2 ^ t := by
    rw [show e = e' + k + t by omega, zpow_add₀ (by norm_num), zpow_add₀ (by norm_num),
      zpow_natCast]
    have := two_zpow_pos e'
    push_cast
    field_simp
  have enough : 52 ≤ (m * 2 ^ k / m').log2 ∨ t ≤ -1074 := by
    by_cases least : t ≤ -1074
    · exact .inr least
    have more : m'.log2 + 53 ≤ m.log2 + k := by omega
    have quotient : 2 ^ 52 ≤ m * 2 ^ k / m' := by
      rw [Nat.le_div_iff_mul_le p']
      calc 2 ^ 52 * m' ≤ 2 ^ 52 * 2 ^ (m'.log2 + 1) :=
            Nat.mul_le_mul_left _ Nat.lt_log2_self.le
        _ = 2 ^ (m'.log2 + 53) := by rw [← pow_add]; congr 1; omega
        _ ≤ 2 ^ (m.log2 + k) := Nat.pow_le_pow_right (by decide) more
        _ = 2 ^ m.log2 * 2 ^ k := pow_add ..
        _ ≤ m * 2 ^ k := Nat.mul_le_mul_right _ (Nat.log2_self_le p.ne')
    exact .inl ((Nat.le_log2 (by omega)).mpr quotient)
  rw [divided, value]
  exact roundsTo_roundWithAccuracy .positive (holds_div _ p') enough

end CardBridge.Binary64
