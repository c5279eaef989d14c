import CardBridge.Coercion
import CardBridge.Proofs.DoubleRounding

/-!
# Decimal numerals round to the nearest double

`Decimal.toFloat` gives the double nearest to a decimal numeral, whichever way it is computed: by
one product or quotient of doubles, on whole numbers, or by the size of the numeral alone
(`Decimal.roundsTo_toFloat`). So the numeral counts as an integer exactly if that integer is the
double nearest to it (`floatToInteger?_eq_some_iff`).
-/

namespace CardBridge.Binary64

open Float.Model Float.Model.UnpackedFloat

/-! ## Signs and whole numbers -/

theorem RoundsTo.neg {s : Sign} {q : ℚ} {x : Float} (h : RoundsTo s q x.toModel.unpack) :
    RoundsTo (-s) q (-x).toModel.unpack := by
  have opposite : RoundsTo (-s) q x.toModel.unpack.neg := by
    cases eq : x.toModel.unpack <;> rw [eq] at h
    case notANumber => exact h
    all_goals exact ⟨congrArg _ h.1, h.2⟩
  change RoundsTo (-s) q (Float.Model.pack x.toModel.unpack.neg).unpack
  rwa [unpack_pack opposite.fits]

/-- A whole number of at most 53 bits is a double. -/
theorem unpack_toFloat {m : ℕ} (positive : 0 < m) (small : m < 2 ^ 53) :
    ∃ (n : ℕ) (k : ℕ) (p : 0 < n), m.toUInt64.toFloat.toModel.unpack = .finite .positive n (-k) p ∧
      2 ^ 52 ≤ n ∧ n = m * 2 ^ k := by
  have bits : m.log2 < 53 := (Nat.log2_lt positive.ne').mpr small
  have lower : 2 ^ m.log2 ≤ m := Nat.log2_self_le positive.ne'
  have upper : m < 2 ^ (m.log2 + 1) := Nat.lt_log2_self
  obtain ⟨k, count⟩ : ∃ k : ℕ, k = 52 - m.log2 := ⟨_, rfl⟩
  have same : m.toUInt64.toNat = m := by
    rw [Nat.toUInt64, UInt64.toNat_ofNat']
    exact Nat.mod_eq_of_lt (by omega)
  have least : 2 ^ 52 ≤ m * 2 ^ k := by
    calc 2 ^ 52 = 2 ^ m.log2 * 2 ^ k := by rw [← pow_add]; congr 1; omega
      _ ≤ m * 2 ^ k := Nat.mul_le_mul_right _ lower
  have less : m * 2 ^ k < 2 ^ 53 := by
    calc m * 2 ^ k < 2 ^ (m.log2 + 1) * 2 ^ k := Nat.mul_lt_mul_of_pos_right upper (by positivity)
      _ = 2 ^ 53 := by rw [← pow_add]; congr 1; omega
  have shifted : UnpackedFloat.normalize .binary64 m 0 .positive =
      roundWithAccuracy .binary64 .positive (m * 2 ^ k) (-k) .exact := by
    have target : (0 - max ((m.log2 : ℤ) + 1 + 0 - 53) (-1074)).toNat = k := by omega
    rw [UnpackedFloat.normalize, Int.compare_eq_gt.mpr (by exact_mod_cast positive)]
    change roundWithAccuracy .binary64 .positive
      ((m : ℤ).toNat <<< (0 - max (((m : ℤ).toNat.log2 : ℤ) + 1 + 0 - 53) (-1074)).toNat)
      (0 - ((0 - max (((m : ℤ).toNat.log2 : ℤ) + 1 + 0 - 53) (-1074)).toNat : ℤ)) .exact = _
    rw [Int.toNat_natCast, target, Nat.shiftLeft_eq, zero_sub]
  have rounded : UnpackedFloat.normalize .binary64 m 0 .positive =
      .finite .positive (m * 2 ^ k) (-k) (by positivity) := by
    rw [shifted, roundWithAccuracy_eq .positive (shiftToTargetExponent_of_lt (by omega) less)
      (by omega) less.le]
    change carried .positive (m * 2 ^ k) (-k) = _
    rw [carried, dif_neg (by positivity), if_pos less]
  have fits : Fits (.finite .positive (m * 2 ^ k) (-k) (by positivity)) := by
    refine ⟨?_, by omega, by omega, .inl ?_⟩ <;> rw [Nat.abs_cast]
    · exact_mod_cast less
    · exact_mod_cast least
  refine ⟨m * 2 ^ k, k, by positivity, ?_, least, rfl⟩
  change (Float.Model.pack
    (UnpackedFloat.normalize .binary64 (m.toUInt64.toNat : ℤ) 0 .positive)).unpack = _
  rw [same, rounded, unpack_pack fits]

/-- Whether an unpacked double is a power of ten. -/
def isPowerOfTen (e : ℕ) : UnpackedFloat → Bool
  | .finite .positive m k _ => 2 ^ 52 ≤ m && m * 2 ^ k.toNat == 10 ^ e * 2 ^ (-k).toNat
  | _ => false

theorem isPowerOfTen_table : ∀ e : Fin 23,
    isPowerOfTen e Float.exactlyRepresentablePowersOfTen[e].toModel.unpack := by
  decide +kernel

theorem exists_of_isPowerOfTen {e : ℕ} {u : UnpackedFloat} (h : isPowerOfTen e u = true) :
    ∃ (m : ℕ) (k : ℤ) (p : 0 < m), u = .finite .positive m k p ∧ 2 ^ 52 ≤ m ∧
      (m * 2 ^ k : ℚ) = 10 ^ e := by
  rcases u with _ | _ | _ | ⟨_ | _, m, k, p⟩ <;> simp only [isPowerOfTen, Bool.false_eq_true] at h
  simp only [Bool.and_eq_true, decide_eq_true_eq, beq_iff_eq] at h
  obtain ⟨least, same⟩ := h
  refine ⟨m, k, p, rfl, least, ?_⟩
  have same : (m * 2 ^ k.toNat : ℚ) = 10 ^ e * 2 ^ (-k).toNat := by exact_mod_cast same
  rw [← zpow_natCast, ← zpow_natCast 2 (-k).toNat] at same
  have split : k = (k.toNat : ℤ) - ((-k).toNat : ℤ) := by omega
  rw [split, zpow_sub₀ (by norm_num), ← mul_div_assoc, same,
    mul_div_cancel_right₀ _ (by positivity)]

/-! ## Numbers out of range -/

/-- The digits of a number and a power of ten after them tell its size. -/
theorem doubleLimit_le_mul_pow {m k : ℕ} {e : ℤ} (digits : 10 ^ k ≤ m) (great : 309 ≤ k + e) :
    doubleLimit ≤ m * 10 ^ e := by
  have digits : (10 : ℚ) ^ (k : ℤ) ≤ m := by
    rw [zpow_natCast]
    exact_mod_cast digits
  have powers : (2 : ℚ) ^ (1024 : ℤ) ≤ 10 ^ (309 : ℤ) := by
    exact_mod_cast (by decide +kernel : 2 ^ 1024 ≤ 10 ^ 309)
  refine doubleLimit_le ?_
  calc (2 : ℚ) ^ (1024 : ℤ) ≤ 10 ^ (309 : ℤ) := powers
    _ ≤ 10 ^ (k + e) := zpow_le_zpow_right₀ (by norm_num) great
    _ = 10 ^ (k : ℤ) * 10 ^ e := zpow_add₀ (by norm_num) ..
    _ ≤ m * 10 ^ e := mul_le_mul_of_nonneg_right digits (by positivity)

theorem nearest_zero_mul_pow {m k : ℕ} {e : ℤ} (digits : m < 10 ^ k) (little : k + e ≤ -324) :
    Nearest (m * 10 ^ e) 0 := by
  have digits : (m : ℚ) < 10 ^ (k : ℤ) := by
    rw [zpow_natCast]
    exact_mod_cast digits
  have powers : (10 : ℚ) ^ (-324 : ℤ) ≤ 2 ^ (-1075 : ℤ) := by
    rw [zpow_neg, zpow_neg]
    exact inv_anti₀ (by positivity) (by exact_mod_cast (by decide +kernel : 2 ^ 1075 ≤ 10 ^ 324))
  refine nearest_zero (by positivity) ?_
  calc (m : ℚ) * 10 ^ e < 10 ^ (k : ℤ) * 10 ^ e := mul_lt_mul_of_pos_right digits (by positivity)
    _ = 10 ^ (k + e) := (zpow_add₀ (by norm_num) ..).symm
    _ ≤ 10 ^ (-324 : ℤ) := zpow_le_zpow_right₀ (by norm_num) little
    _ ≤ 2 ^ (-1075 : ℤ) := powers

/-! ## Powers of ten -/

theorem roundsTo_ofScientific {m : ℕ} (positive : 0 < m) (e : ℤ) :
    RoundsTo .positive (m * 10 ^ e)
      (Float.Model.pack (UnpackedFloat.ofScientific .binary64 m e)).unpack := by
  rw [UnpackedFloat.ofScientific, dif_neg positive.ne']
  by_cases great : e > 2 ^ 11
  · rw [if_pos great, unpack_pack (by trivial)]
    exact ⟨rfl, doubleLimit_le_mul_pow (k := 0) positive (by omega)⟩
  rw [if_neg great]
  by_cases little : e < -((2 : ℤ) ^ 11 + m.log2)
  · have digits : m < 10 ^ (m.log2 + 1) :=
      Nat.lt_log2_self.trans_le (Nat.pow_le_pow_left (by decide) _)
    rw [if_pos little, unpack_pack (by trivial)]
    exact ⟨rfl, nearest_zero_mul_pow digits (by omega)⟩
  rw [if_neg little]
  by_cases sign : 0 ≤ e
  · obtain ⟨k, rfl⟩ := Int.eq_ofNat_of_zero_le sign
    have value : (m * 10 ^ (k : ℤ) : ℚ) =
        (m * 2 ^ 53 : ℕ) * 2 ^ (-53 : ℤ) * ((10 ^ k : ℕ) * 2 ^ (0 : ℤ)) := by
      have cancel : ((2 ^ 53 : ℕ) : ℚ) * 2 ^ (-53 : ℤ) = 1 := by norm_num
      rw [Nat.cast_mul, mul_assoc (m : ℚ), cancel, mul_one, zpow_natCast, zpow_zero, mul_one,
        Nat.cast_pow, Nat.cast_ofNat]
    have enough : 2 ^ 52 ≤ m * 2 ^ 53 * 10 ^ k :=
      Nat.le_trans (by omega) (Nat.le_mul_of_pos_right (m * 2 ^ 53) (by positivity))
    rw [if_pos sign, value]
    simp only [Nat.shiftLeft_eq]
    exact roundsTo_mul _ _ enough
  · obtain ⟨k, rfl⟩ : ∃ k : ℕ, e = -k := ⟨(-e).toNat, by omega⟩
    have value : (m * 10 ^ (-k : ℤ) : ℚ) = m * 2 ^ (0 : ℤ) / ((10 ^ k : ℕ) * 2 ^ (0 : ℤ)) := by
      rw [zpow_neg, zpow_natCast, zpow_zero, mul_one, mul_one, Nat.cast_pow, div_eq_mul_inv]
      rfl
    rw [if_neg sign, value]
    simp only [neg_neg, Int.toNat_natCast]
    exact roundsTo_div _ _

/-- A power of ten that is a double gives the same result as whole numbers do. -/
theorem roundsTo_floatOfScientific {m : ℕ} (positive : 0 < m) (negative : Bool) (e : ℕ) :
    RoundsTo .positive (m * 10 ^ (if negative then -(e : ℤ) else e))
      (Float.ofScientific m negative e).toModel.unpack := by
  rw [Float.ofScientific]
  by_cases fast : m < 2 ^ 53 ∧ e ≤ 22
  · let i : Fin 23 := ⟨e, by omega⟩
    obtain ⟨n, k, p, unpacked, least, same⟩ := unpack_toFloat positive fast.1
    obtain ⟨n', k', p', unpacked', -, power⟩ := exists_of_isPowerOfTen (isPowerOfTen_table i)
    have whole : (n * 2 ^ (-k : ℤ) : ℚ) = m := by
      rw [same, Nat.cast_mul, Nat.cast_pow, Nat.cast_ofNat, zpow_neg, zpow_natCast,
        mul_inv_cancel_right₀ (by positivity)]
    rw [dif_pos fast]
    cases negative
    · change RoundsTo _ _ (Float.Model.pack (mul .binary64 m.toUInt64.toFloat.toModel.unpack
        Float.exactlyRepresentablePowersOfTen[i].toModel.unpack)).unpack
      have enough : 2 ^ 52 ≤ n * n' := least.trans (Nat.le_mul_of_pos_right n p')
      have value : (m * 10 ^ (e : ℤ) : ℚ) = n * 2 ^ (-k : ℤ) * (n' * 2 ^ k') := by
        rw [whole, power, zpow_natCast]
      rw [unpacked, unpacked', if_neg (by decide), value]
      exact roundsTo_mul p p' enough
    · change RoundsTo _ _ (Float.Model.pack (div .binary64 m.toUInt64.toFloat.toModel.unpack
        Float.exactlyRepresentablePowersOfTen[i].toModel.unpack)).unpack
      have value : (m * 10 ^ (-e : ℤ) : ℚ) = n * 2 ^ (-k : ℤ) / (n' * 2 ^ k') := by
        rw [whole, power, zpow_neg, zpow_natCast, div_eq_mul_inv]
      rw [unpacked, unpacked', if_pos rfl, value]
      exact roundsTo_div p p'
  · rw [dif_neg fast]
    cases negative
    · exact roundsTo_ofScientific positive e
    · have negated : Int.negOfNat e = -e := Int.negOfNat_eq
      change RoundsTo .positive (m * 10 ^ (-e : ℤ))
        (Float.Model.pack (UnpackedFloat.ofScientific .binary64 m (Int.negOfNat e))).unpack
      rw [negated]
      exact roundsTo_ofScientific positive (-e)

end CardBridge.Binary64

namespace CardBridge

open Float.Model.UnpackedFloat Binary64

/-- A number has that many digits. -/
theorem Decimal.digitCount_spec {m : ℕ} (positive : 0 < m) :
    10 ^ (digitCount m - 1) ≤ m ∧ m < 10 ^ digitCount m := by
  have one : 0 < digitCount m := Nat.length_toDigits_pos
  refine ⟨?_, (Nat.length_toDigits_le_iff (by decide) one).mp le_rfl⟩
  by_contra less
  rcases Nat.eq_zero_or_pos (digitCount m - 1) with zero | more
  · rw [zero] at less
    omega
  · have := (Nat.length_toDigits_le_iff (by decide) more).mpr (not_le.mp less)
    rw [digitCount] at *
    omega

/-- A decimal numeral is read as the double nearest to it, past the limit as an infinity. -/
theorem Decimal.roundsTo_toFloat (d : Decimal) :
    RoundsTo .positive (d.mantissa * 10 ^ d.exponent) d.toFloat.toModel.unpack := by
  obtain ⟨m, e⟩ := d
  rw [Decimal.toFloat]
  dsimp only
  rcases Nat.eq_zero_or_pos m with rfl | positive
  · rw [if_pos (.inl rfl), Nat.cast_zero, zero_mul]
    exact ⟨rfl, nearest_zero le_rfl (by positivity)⟩
  obtain ⟨leading, digits⟩ := digitCount_spec positive
  by_cases little : e + digitCount m < -400
  · rw [if_pos (.inr little)]
    exact ⟨rfl, nearest_zero_mul_pow digits (by omega)⟩
  rw [if_neg (by simp only [positive.ne', little, or_self, not_false_eq_true])]
  by_cases great : e + digitCount m > 400
  · rw [if_pos great]
    exact ⟨rfl, doubleLimit_le_mul_pow leading (by omega)⟩
  rw [if_neg great]
  cases e with
  | ofNat e => exact roundsTo_floatOfScientific positive false e
  | negSucc e => exact roundsTo_floatOfScientific positive true (e + 1)

/-! ## Doubles that are integers -/

theorem narrow?_eq_some_iff {k : ℤ} {n : Int64} : narrow? k = some n ↔ n.toInt = k := by
  have least : -(2 : ℤ) ^ 63 ≤ n.toInt := n.le_toInt
  have greatest : n.toInt < (2 : ℤ) ^ 63 := n.toInt_lt
  constructor
  · intro h
    rw [narrow?, Option.ite_none_right_eq_some, Option.some.injEq] at h
    obtain ⟨⟨low, high⟩, rfl⟩ := h
    exact Int64.toInt_ofInt_of_le low high
  · rintro rfl
    rw [narrow?, if_pos ⟨least, greatest⟩, Int64.ofInt_toInt]

/-- A number with a sign. -/
def withSign (negative : Bool) (q : ℚ) : ℚ :=
  if negative then -q else q

namespace Binary64

theorem cast_signed (negative : Bool) (m : ℕ) : (signed negative m : ℚ) = withSign negative m := by
  cases negative <;> simp [signed, withSign]

theorem withSign_mul (negative : Bool) (q r : ℚ) :
    withSign negative (q * r) = withSign negative q * r := by
  cases negative <;> simp [withSign]

/-- A finite double is an integer if its value is. -/
theorem exactInt?_finite_eq_some_iff {negative : Bool} {m : ℕ} {e k : ℤ} :
    exactInt? (.finite negative m e) = some k ↔ (k : ℚ) = withSign negative (m * 2 ^ e) := by
  cases e with
  | ofNat e =>
    have value : withSign negative (m * 2 ^ (Int.ofNat e)) = signed negative (m * 2 ^ e) := by
      rw [cast_signed]
      push_cast
      rfl
    rw [value, Int.cast_inj, eq_comm, exactInt?, Option.some.injEq]
    rfl
  | negSucc e =>
    obtain ⟨d, divisor⟩ : ∃ d : ℕ, d = 2 ^ (e + 1) := ⟨_, rfl⟩
    have positive : (d : ℚ) ≠ 0 := by
      rw [divisor]
      positivity
    have unit : (2 : ℚ) ^ (Int.negSucc e) = (d : ℚ)⁻¹ := by
      rw [zpow_negSucc, divisor, Nat.cast_pow, Nat.cast_ofNat]
    change (if m % Nat.pow 2 (e + 1) = 0 then some (signed negative (m / Nat.pow 2 (e + 1)))
      else none) = some k ↔ _
    rw [unit, withSign_mul, ← div_eq_mul_inv, eq_div_iff positive, ← cast_signed,
      show Nat.pow 2 (e + 1) = d from divisor.symm]
    by_cases divides : d ∣ m
    · obtain ⟨n, rfl⟩ := divides
      have nonzero : 0 < d := Nat.pos_of_ne_zero (by exact_mod_cast positive)
      rw [Nat.mul_mod_right, if_pos rfl, Nat.mul_div_cancel_left n nonzero, Option.some.injEq,
        cast_signed, Nat.cast_mul, mul_comm (d : ℚ), withSign_mul, ← cast_signed,
        mul_left_inj' positive, Int.cast_inj, eq_comm]
    · rw [if_neg (mt Nat.dvd_of_mod_eq_zero divides)]
      refine ⟨nofun, fun same => absurd ?_ divides⟩
      have same : k * d = signed negative m := by exact_mod_cast same
      have divides : (d : ℤ) ∣ signed negative m := ⟨k, by rw [← same, mul_comm]⟩
      cases negative
      · exact Int.natCast_dvd_natCast.mp divides
      · exact Int.natCast_dvd_natCast.mp (Int.dvd_neg.mp divides)

end Binary64

theorem abs_withSign (negative : Bool) (q : ℚ) : |withSign negative q| = |q| := by
  cases negative
  · rfl
  · exact abs_neg q

theorem nearest_withSign {q v : ℚ} (negative : Bool) (h : Nearest q v) :
    Nearest (withSign negative q) (withSign negative v) := by
  cases negative
  · exact h
  · exact h.neg

/-- A finite double that is nearest to a number counts as the integer that is nearest to it. -/
theorem bind_narrow?_eq_some_iff {negative : Bool} {q : ℚ} {m : ℕ} {e : ℤ} {n : Int64}
    (h : Nearest q (m * 2 ^ e)) :
    (exactInt? (.finite negative m e)).bind narrow? = some n ↔
      Nearest (withSign negative q) n.toInt := by
  have nearest := nearest_withSign negative h
  rw [Option.bind_eq_some_iff]
  constructor
  · rintro ⟨k, exact, narrow⟩
    rwa [narrow?_eq_some_iff.mp narrow, exactInt?_finite_eq_some_iff.mp exact]
  · intro other
    exact ⟨n.toInt, exactInt?_finite_eq_some_iff.mpr (other.unique nearest),
      narrow?_eq_some_iff.mpr rfl⟩

/-- A rounded number counts as the integer that is the double nearest to it, if there is one. -/
theorem floatToInteger?_eq_some_iff {s : Sign} {q : ℚ} {x : Float} {n : Int64}
    (h : RoundsTo s q x.toModel.unpack) :
    floatToInteger? x = some n ↔ Nearest (withSign (isMinus s) q) n.toInt := by
  rw [floatToInteger?, Binary64.toInt?, decode_eq]
  cases unpacked : x.toModel.unpack <;> rw [unpacked] at h
  case notANumber => exact h.elim
  case infinity =>
    obtain ⟨rfl, past⟩ := h
    refine ⟨nofun, fun near => absurd near.1 (not_lt.mpr (past.trans ?_))⟩
    rw [abs_withSign]
    exact le_abs_self q
  case zero =>
    obtain ⟨rfl, near⟩ := h
    exact bind_narrow?_eq_some_iff (by simpa using near)
  case finite =>
    obtain ⟨rfl, -, near⟩ := h
    exact bind_narrow?_eq_some_iff near

/-- A rounded number with a sign counts as the integer that is the double nearest to it. -/
theorem floatToInteger?_signed_eq_some_iff {q : ℚ} {x : Float}
    (h : RoundsTo .positive q x.toModel.unpack)
    (negative : Bool) {n : Int64} : floatToInteger? (if negative then -x else x) = some n ↔
      Nearest (withSign negative q) n.toInt := by
  cases negative
  · rw [if_neg (by decide), floatToInteger?_eq_some_iff h, isMinus]
  · have negative : RoundsTo .negative _ (-x).toModel.unpack := h.neg
    rw [if_pos rfl, floatToInteger?_eq_some_iff negative, isMinus]

end CardBridge
