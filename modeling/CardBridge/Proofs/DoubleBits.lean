import CardBridge.Numeral.Binary64
import CardBridge.Proofs.NearestDouble
import Mathlib

/-!
# The bits of a double

Arithmetic on doubles unpacks the bits, rounds what it computes and packs the result.
`Binary64.decode` takes a double apart as unpacking does (`decode_eq`), and nothing that is a double
is lost when it is packed (`unpack_pack`).
-/

namespace CardBridge.Binary64

open Float.Model Float.Model.UnpackedFloat

/-! ## Unpacking -/

/-- Whether a sign is a minus. -/
def isMinus : Sign → Bool
  | .negative => true
  | .positive => false

/-- What an unpacked double stands for. -/
def ofUnpacked : UnpackedFloat → Binary64
  | .notANumber => nan
  | .infinity s => infinite (isMinus s)
  | .zero s => finite (isMinus s) 0 (-1074)
  | .finite s m e _ => finite (isMinus s) m e

section Fields

variable (b : BitVec Format.binary64.numBits)

theorem toNat_unpackMantissa : (unpackMantissa b).toNat = b.toNat % 2 ^ 52 := by
  simp [unpackMantissa, BitVec.extractLsb_toNat]

theorem toNat_unpackExponent : (unpackExponent b).toNat = b.toNat / 2 ^ 52 % 2 ^ 11 := by
  simp [unpackExponent, BitVec.extractLsb_toNat, Nat.shiftRight_eq_div_pow]

theorem isMinus_unpackSign :
    isMinus (Sign.ofBitVec (unpackSign b)) = decide (2 ^ 63 ≤ b.toNat) := by
  have bound : b.toNat < 2 ^ 64 := b.isLt
  have sign : (unpackSign b).toNat = b.toNat / 2 ^ 63 % 2 := by
    simp [unpackSign, BitVec.extractLsb_toNat, Nat.shiftRight_eq_div_pow]
  have zero : unpackSign b = 0#1 ↔ b.toNat / 2 ^ 63 % 2 = 0 := by
    rw [← BitVec.toNat_inj, sign]
    rfl
  by_cases plus : unpackSign b = 0#1
  · have := zero.mp plus
    rw [Sign.ofBitVec, if_pos plus, eq_comm, isMinus, decide_eq_false_iff_not]
    omega
  · have := mt zero.mpr plus
    rw [Sign.ofBitVec, if_neg plus, eq_comm, isMinus, decide_eq_true_eq]
    omega

end Fields

theorem toNat_one_append (m : BitVec 52) : (1#1 ++ m).toNat = 2 ^ 52 + m.toNat := by
  rw [BitVec.toNat_append, ← Nat.shiftLeft_add_eq_or_of_lt m.isLt]
  rfl

/-- A double is taken apart as it is unpacked. -/
theorem decode_eq (x : Float) : decode x = ofUnpacked x.toModel.unpack := by
  obtain ⟨bits, valid⟩ := x
  let b : BitVec Format.binary64.numBits := bits.toBitVec
  have sign := isMinus_unpackSign b
  have field := toNat_unpackExponent b
  have fraction := toNat_unpackMantissa b
  have greatest : unpackExponent b = -1#11 ↔ b.toNat / 2 ^ 52 % 2 ^ 11 = 2047 := by
    rw [← field, ← BitVec.toNat_inj]
    rfl
  have least : unpackExponent b = 0#11 ↔ b.toNat / 2 ^ 52 % 2 ^ 11 = 0 := by
    rw [← field, ← BitVec.toNat_inj]
    rfl
  have none : unpackMantissa b = 0#52 ↔ b.toNat % 2 ^ 52 = 0 := by
    rw [← fraction, ← BitVec.toNat_inj]
    rfl
  change (if b.toNat / 2 ^ 52 % 2 ^ 11 = 2047 then
      if b.toNat % 2 ^ 52 = 0 then infinite (decide (2 ^ 63 ≤ b.toNat)) else nan
    else if b.toNat / 2 ^ 52 % 2 ^ 11 = 0 then
      finite (decide (2 ^ 63 ≤ b.toNat)) (b.toNat % 2 ^ 52) (-1074)
    else finite (decide (2 ^ 63 ≤ b.toNat)) (2 ^ 52 + b.toNat % 2 ^ 52)
      (((b.toNat / 2 ^ 52 % 2 ^ 11 : ℕ) : ℤ) - 1075)) =
        ofUnpacked (UnpackedFloat.unpack .binary64 b)
  rw [UnpackedFloat.unpack, ← sign]
  by_cases special : unpackExponent b = -1#11
  · rw [if_pos special, if_pos (greatest.mp special)]
    by_cases whole : unpackMantissa b = 0#52
    · rw [if_pos whole, if_pos (none.mp whole), ofUnpacked]
    · rw [if_neg whole, if_neg (mt none.mpr whole), ofUnpacked]
  rw [if_neg special, if_neg (mt greatest.mpr special)]
  by_cases tiny : unpackExponent b = 0#11
  · rw [if_pos tiny, if_pos (least.mp tiny)]
    by_cases zero : unpackMantissa b = 0#52
    · rw [dif_pos zero, none.mp zero, ofUnpacked]
    · rw [dif_neg zero, ofUnpacked, fraction, field, least.mp tiny]
      rfl
  · rw [if_neg tiny, if_neg (mt least.mpr tiny), ofUnpacked, toNat_one_append, fraction, field]
    rfl

/-! ## Packing -/

/-- A double before it is packed. -/
def Fits : UnpackedFloat → Prop
  | .finite _ m e _ => IsDouble m e
  | _ => True

theorem log2_eq_iff {m : ℕ} (small : m < 2 ^ 53) :
    m.log2 + 1 = Format.binary64.mantissaBits ↔ 2 ^ 52 ≤ m := by
  change m.log2 + 1 = 53 ↔ 2 ^ 52 ≤ m
  rcases Nat.eq_zero_or_pos m with rfl | positive
  · simp
  · have := Nat.log2_lt (k := 53) positive.ne'
    have := Nat.le_log2 (k := 52) positive.ne'
    omega

/-- The field of an exponent, and the bits of a mantissa. -/
theorem pack_finite (s : Sign) {m : ℕ} {e : ℤ} (positive : 0 < m) (double : IsDouble m e) :
    UnpackedFloat.pack .binary64 (.finite s m e positive) =
      packComponents .binary64 s
        (if 2 ^ 52 ≤ m then BitVec.ofNat 11 (e + 1075).toNat else 0#11) (BitVec.ofNat 52 m) := by
  have small : m < 2 ^ 53 := by exact_mod_cast (abs_lt.mp double.mantissa).2
  have field :
      (e + Format.binary64.exponentBias + Format.binary64.mantissaBitsWithoutImplicit).toNat =
      (e + 1075).toNat := by
    change (e + (1023 : ℕ) + (52 : ℕ)).toNat = _
    omega
  have := double.greatest
  rw [UnpackedFloat.pack, field]
  dsimp only
  rw [if_neg (by omega)]
  by_cases normal : 2 ^ 52 ≤ m
  · rw [if_pos normal, if_pos ((log2_eq_iff small).mpr normal)]
  · rw [if_neg normal, if_neg (mt (log2_eq_iff small).mp normal)]

/-- Nothing is lost when a double is packed. -/
theorem unpack_pack {u : UnpackedFloat} (fits : Fits u) : (Float.Model.pack u).unpack = u := by
  change UnpackedFloat.unpack .binary64 (UnpackedFloat.pack .binary64 u) = u
  cases u with
  | notANumber => rfl
  | infinity s => cases s <;> rfl
  | zero s => cases s <;> rfl
  | finite s m e positive =>
    have double : IsDouble m e := fits
    have small : m < 2 ^ 53 := by exact_mod_cast (abs_lt.mp double.mantissa).2
    have := double.least
    have := double.greatest
    rw [pack_finite s positive double, UnpackedFloat.unpack, unpackSign_packComponents,
      Sign.ofBitVec_toBitVec]
    simp only [unpackExponent_packComponents, unpackMantissa_packComponents]
    by_cases normal : 2 ^ 52 ≤ m
    · have field : (BitVec.ofNat 11 (e + 1075).toNat).toNat = (e + 1075).toNat := by
        rw [BitVec.toNat_ofNat]
        omega
      have notLeast : BitVec.ofNat 11 (e + 1075).toNat ≠ 0#11 := fun eq => by
        have := field.symm.trans (congrArg BitVec.toNat eq)
        simp at this
        omega
      have notGreatest : BitVec.ofNat 11 (e + 1075).toNat ≠ -1#11 := fun eq => by
        have := field.symm.trans (congrArg BitVec.toNat eq)
        simp at this
        omega
      rw [if_pos normal, if_neg notGreatest, if_neg notLeast]
      congr 1
      · rw [toNat_one_append, BitVec.toNat_ofNat]
        omega
      · rw [field]
        change ((e + 1075).toNat : ℤ) - ((1023 : ℕ) + (52 : ℕ)) = e
        omega
    · have same : (BitVec.ofNat 52 m).toNat = m := by
        rw [BitVec.toNat_ofNat]
        omega
      have nonzero : BitVec.ofNat 52 m ≠ 0#52 := fun eq => by
        have := same.symm.trans (congrArg BitVec.toNat eq)
        simp at this
        omega
      rw [if_neg normal, if_neg (by decide), if_pos rfl, dif_neg nonzero]
      have subnormal : e = -1074 := double.normal.resolve_left (by
        rw [Nat.abs_cast]
        exact_mod_cast normal)
      congr 1
      rw [subnormal]
      rfl

end CardBridge.Binary64
