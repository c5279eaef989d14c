import CardBridge.Object

/-!
# The alias window

A card shares the script of its alias if the two codes are closer than a window. The distance is not
computed : each code is compared with the sum of the other one and the window, and a sum stops at
the greatest code. Below that a sum is as good as the distance (`lt_addUpTo_iff`), so the greatest
code is the only one that is near nothing, not even where it is next to the other code
(`CardInfo.alias_window`). Both sums are compared alike, so a code and its alias can change places.
-/

namespace CardBridge

/-- The greatest code. -/
def greatestCode : UInt32 := 0xFFFFFFFF

theorem toNat_addUpTo (a b : UInt32) :
    (addUpTo a b).toNat = min (a.toNat + b.toNat) greatestCode.toNat := by
  have greatest : greatestCode.toNat + 1 = UInt32.size := rfl
  unfold addUpTo
  split
  case isTrue fits =>
    rw [UInt32.toNat_add, Nat.mod_eq_of_lt fits]
    omega
  case isFalse stops =>
    change greatestCode.toNat = _
    omega

/-- A code is below a sum that stops exactly if it is below the sum and is not the greatest one. -/
theorem lt_addUpTo_iff {a b window : UInt32} :
    a < addUpTo b window ↔ a.toNat < b.toNat + window.toNat ∧ a ≠ greatestCode := by
  have greatest : greatestCode.toNat + 1 = UInt32.size := rfl
  have bound : a.toNat < UInt32.size := a.toNat_lt
  rw [UInt32.lt_iff_toNat_lt, toNat_addUpTo, Ne, ← UInt32.toNat_inj]
  omega

namespace CardInfo

/-- How far the code and the alias of a card are from each other. -/
def distance (c : CardInfo) : Nat :=
  ((c.code.toNat : Int) - c.aliasCode.toNat).natAbs

/-- The code whose script a card would run if only the distance decided : its alias if that is
closer than `window`. -/
def codeWithin (c : CardInfo) (window : UInt32) : UInt32 :=
  if c.aliasCode ≠ 0 ∧ c.distance < window.toNat then c.aliasCode else c.code

/-- The card whose code and alias have changed places. -/
def swapped (c : CardInfo) : CardInfo :=
  { c with code := c.aliasCode, aliasCode := c.code }

variable (c : CardInfo) (window : UInt32)

@[simp] theorem distance_swapped : c.swapped.distance = c.distance := by
  simp only [distance, swapped]
  omega

/-- Each of the codes is below the sum of the other one and the window exactly if they are closer
than the window and neither is the greatest code. -/
theorem near_iff : c.aliasCode < addUpTo c.code window ∧ c.code < addUpTo c.aliasCode window ↔
    c.distance < window.toNat ∧ c.code ≠ greatestCode ∧ c.aliasCode ≠ greatestCode := by
  have closer : c.distance < window.toNat ↔
      c.aliasCode.toNat < c.code.toNat + window.toNat ∧
        c.code.toNat < c.aliasCode.toNat + window.toNat := by
    unfold distance
    omega
  rw [lt_addUpTo_iff, lt_addUpTo_iff, closer]
  constructor
  · rintro ⟨⟨above, other⟩, below, code⟩
    exact ⟨⟨above, below⟩, code, other⟩
  · rintro ⟨⟨above, below⟩, code, other⟩
    exact ⟨⟨above, other⟩, below, code⟩

/-- The alias of a card wins exactly if it is not zero, it is closer to the code than the window,
and neither is the greatest code. -/
theorem scriptCode_eq : c.scriptCode window =
    if c.aliasCode ≠ 0 ∧ c.distance < window.toNat ∧ c.code ≠ greatestCode ∧
      c.aliasCode ≠ greatestCode then c.aliasCode else c.code := by
  simp only [scriptCode, near_iff]

/-- A card shares the script of its alias exactly if the alias wins or is its code. -/
theorem scriptCode_eq_aliasCode_iff : c.scriptCode window = c.aliasCode ↔
    c.code = c.aliasCode ∨ c.aliasCode ≠ 0 ∧ c.distance < window.toNat ∧ c.code ≠ greatestCode ∧
      c.aliasCode ≠ greatestCode := by
  rw [scriptCode_eq]
  split
  case isTrue near => exact iff_of_true rfl (.inr near)
  case isFalse far => exact (or_iff_left far).symm

/-- **The alias window.** A card runs the script of its alias if it has one that is closer to its
code than the window and neither of the two is the greatest code, and its own script otherwise. That
is what the distance says, except where a code next to the greatest one or the greatest one itself
has the other for its alias. Whether a card shares the script of the other code does not depend on
which of the two is the alias. -/
theorem alias_window :
    (c.scriptCode window =
      if c.aliasCode ≠ 0 ∧ c.distance < window.toNat ∧ c.code ≠ greatestCode ∧
        c.aliasCode ≠ greatestCode then c.aliasCode else c.code) ∧
    (c.scriptCode window = c.codeWithin window ↔
      ¬ (c.aliasCode ≠ 0 ∧ c.distance < window.toNat ∧ c.code ≠ c.aliasCode ∧
        (c.code = greatestCode ∨ c.aliasCode = greatestCode))) ∧
    (c.code ≠ 0 → c.aliasCode ≠ 0 →
      (c.scriptCode window = c.aliasCode ↔ c.swapped.scriptCode window = c.swapped.aliasCode)) := by
  refine ⟨c.scriptCode_eq window, ?_, fun coded aliased => ?_⟩
  · rw [scriptCode_eq, codeWithin]
    by_cases near : c.aliasCode ≠ 0 ∧ c.distance < window.toNat
    · rw [if_pos near]
      by_cases same : c.code = c.aliasCode
      · simp [same]
      · simp only [near.1, near.2, same, not_false_eq_true, ne_eq, true_and, not_or]
        split
        case isTrue inner => exact iff_of_true rfl inner
        case isFalse outer => exact iff_of_false same outer
    · rw [if_neg near, if_neg fun wins => near ⟨wins.1, wins.2.1⟩]
      exact iff_of_true rfl fun differs => near ⟨differs.1, differs.2.1⟩
  · rw [scriptCode_eq_aliasCode_iff, scriptCode_eq_aliasCode_iff, distance_swapped]
    have places : c.swapped.code = c.aliasCode ∧ c.swapped.aliasCode = c.code := ⟨rfl, rfl⟩
    rw [places.1, places.2, eq_comm]
    refine or_congr_right ?_
    constructor
    · rintro ⟨-, near, code, other⟩
      exact ⟨coded, near, other, code⟩
    · rintro ⟨-, near, other, code⟩
      exact ⟨aliased, near, code, other⟩

/-- The two codes below the greatest one share a script, whichever is the alias. -/
theorem alias_window_below :
    let c : CardInfo := ⟨⟨1⟩, greatestCode - 1, greatestCode - 2, true⟩
    c.code ≠ 0 ∧ c.aliasCode ≠ 0 ∧ c.scriptCode 5 = c.aliasCode ∧
      c.swapped.scriptCode 5 = c.swapped.aliasCode := by
  intro c
  have shares : c.scriptCode 5 = c.aliasCode := by decide
  exact ⟨by decide, by decide, shares,
    ((c.alias_window 5).2.2 (by decide) (by decide)).mp shares⟩

/-- The greatest code has the code next to it for its alias, and a card does not share that
script. -/
theorem not_codeWithin :
    let c : CardInfo := ⟨⟨1⟩, greatestCode, greatestCode - 1, true⟩
    c.aliasCode ≠ 0 ∧ c.distance = 1 ∧ c.codeWithin 5 = c.aliasCode ∧ c.scriptCode 5 = c.code ∧
      c.scriptCode 5 ≠ c.codeWithin 5 := by
  decide

end CardInfo

end CardBridge
