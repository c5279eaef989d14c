import CardBridge.Proofs.NumericStrings

/-!
# Integers written and read back

An integer of 64 bits is read back from its decimal digits and from the hexadecimal digits of its
bits, whatever zeros are in front and white space is around them (`notations_read`).
-/

namespace CardBridge.Numerals

open Binary64

/-- `n` in decimal, with zeros between the sign and the digits, and with a plus sign or none if it
is not negative. -/
inductive DecimalNotation (n : Int64) : List Char → Prop
  | plain (zeros : ℕ) : 0 ≤ n.toInt →
      DecimalNotation n (List.replicate zeros '0' ++ Nat.toDigits 10 n.toInt.natAbs)
  | plus (zeros : ℕ) : 0 ≤ n.toInt →
      DecimalNotation n ('+' :: (List.replicate zeros '0' ++ Nat.toDigits 10 n.toInt.natAbs))
  | minus (zeros : ℕ) : n.toInt < 0 →
      DecimalNotation n ('-' :: (List.replicate zeros '0' ++ Nat.toDigits 10 n.toInt.natAbs))

/-- The bits of `n` in hexadecimal, with the digits in either case and zeros in front. -/
inductive HexadecimalNotation (n : Int64) : List Char → Prop
  | mk {x : Char} {ds : List Char} (zeros : ℕ) : x ∈ ['x', 'X'] →
      ds.map Char.toLower = Nat.toDigits 16 n.toUInt64.toNat →
        HexadecimalNotation n ('0' :: x :: (List.replicate zeros '0' ++ ds))

/-! ## Digits written -/

/-- Digits that are written are read as the number they are written for. -/
theorem run_of_toDigits {b : ℕ} {value? : Char → Option ℕ} (base : 1 < b) {spelling : Char → Char}
    (digit : ∀ d < b, ∀ c, spelling c = d.digitChar → value? c = some d) {cs : List Char} {m : ℕ}
    (written : cs.map spelling = Nat.toDigits b m) : Run b value? cs m := by
  induction m using Nat.strong_induction_on generalizing cs with
  | h m ih =>
    rw [Nat.toDigits_eq_if base] at written
    split at written
    case isTrue small =>
      obtain ⟨c, rfl, spelled⟩ := List.map_eq_singleton_iff.mp written
      simpa using Run.nil.snoc (digit m small c spelled)
    case isFalse large =>
      obtain ⟨before, last, rfl, front, back⟩ := List.map_eq_append_iff.mp written
      obtain ⟨c, rfl, spelled⟩ := List.map_eq_singleton_iff.mp back
      have fewer := ih (m / b) (Nat.div_lt_self (by omega) base) front
      have value := fewer.snoc (digit (m % b) (Nat.mod_lt m (by omega)) c spelled)
      rwa [Nat.div_add_mod'] at value

/-- Zeros in front count for nothing. -/
theorem run_replicate_append {b : ℕ} {value? : Char → Option ℕ} (zero : value? '0' = some 0)
    (zeros : ℕ) {cs : List Char} {m : ℕ} (run : Run b value? cs m) :
    Run b value? (List.replicate zeros '0' ++ cs) m := by
  induction run with
  | nil =>
    rw [List.append_nil]
    induction zeros with
    | zero => exact .nil
    | succ zeros ih => simpa [List.replicate_succ'] using ih.snoc zero
  | snoc _ digit ih =>
    rw [← List.append_assoc]
    exact ih.snoc digit

theorem decimalRun_written (zeros m : ℕ) :
    DecimalRun (List.replicate zeros '0' ++ Nat.toDigits 10 m) m := by
  have digit : ∀ d < 10, Digits.decimalValue? d.digitChar = some d := by decide
  exact run_replicate_append rfl zeros (run_of_toDigits (by decide)
    (fun d small c (spelled : id c = _) => by rw [← digit d small, ← spelled, id_eq])
    (List.map_id _))

/-- A letter is in lower case or in upper case. -/
theorem eq_of_toLower {c c' : Char} (h : c.toLower = c') : c = c' ∨ c = c'.toUpper := by
  by_cases upper : c.isUpper
  · rw [← h, Char.toUpper_toLower_eq_toUpper]
    exact .inr (Char.toUpper_eq_of_not_isLower (Char.not_isLower_of_isUpper upper)).symm
  · exact .inl ((Char.toLower_eq_of_not_isUpper upper).symm.trans h)

theorem hexadecimalRun_written (zeros : ℕ) {ds : List Char} {m : ℕ}
    (written : ds.map Char.toLower = Nat.toDigits 16 m) :
    HexadecimalRun (List.replicate zeros '0' ++ ds) m := by
  have digit : ∀ d < 16, Digits.hexadecimalValue? d.digitChar = some d ∧
      Digits.hexadecimalValue? d.digitChar.toUpper = some d := by decide
  refine run_replicate_append rfl zeros
    (run_of_toDigits (by decide) (fun d small c spelled => ?_) written)
  rcases eq_of_toLower spelled with rfl | rfl
  · exact (digit d small).1
  · exact (digit d small).2

theorem toDigits_append_ne_nil {b m : ℕ} {zeros : List Char} : zeros ++ Nat.toDigits b m ≠ [] := by
  simp

/-- What scripts write for an integer is a decimal notation of it. -/
theorem decimalNotation_writeInt (n : Int64) :
    DecimalNotation n (Script.Numeral.writeInt n).toList := by
  rw [Script.Numeral.writeInt, Int.toString_eq_repr, Int.repr_eq_if]
  split
  case isTrue nonneg =>
    have size : n.toInt.toNat = n.toInt.natAbs := by omega
    rw [size, Nat.toList_repr]
    exact .plain 0 nonneg
  case isFalse negative =>
    have size : (-n.toInt).toNat = n.toInt.natAbs := by omega
    rw [size, String.toList_append, Nat.toList_repr]
    exact .minus 0 (not_le.mp negative)

/-! ## Reading back -/

theorem parseInteger?_of_common {w w' t : List Char} {negative : Bool} {a : Amount} {n : Int64}
    (before : ∀ c ∈ w, isBlank c = true) (behind : ∀ c ∈ w', isBlank c = true)
    (common : CommonNumeral t negative a) (integer : a.IsInteger negative n) :
    parseInteger? (String.ofList (w ++ t ++ w')) = some n := by
  rw [parseInteger?, String.toList_ofList,
    trim_of_padded ⟨w, w', rfl, before, behind⟩ common.visible]
  exact parseTrimmed?_eq_some_iff.mpr (.inl ⟨negative, a, common, integer⟩)

theorem isInteger_whole {n : Int64} {negative : Bool} {m : ℕ}
    (value : signed negative m = n.toInt) : (Amount.whole m).IsInteger negative n := by
  have least := n.le_toInt
  have greatest := n.toInt_lt
  rw [Amount.IsInteger, value, if_pos ⟨least, greatest⟩]

theorem DecimalNotation.exists_common {n : Int64} {d : List Char} (h : DecimalNotation n d) :
    ∃ negative a, CommonNumeral d negative a ∧ a.IsInteger negative n := by
  have common (sign : List Char) {negative : Bool} (zeros m : ℕ) (known : Sign sign negative)
      (value : signed negative m = n.toInt) :
      ∃ negative a,
        CommonNumeral (sign ++ (List.replicate zeros '0' ++ Nat.toDigits 10 m)) negative a ∧
          a.IsInteger negative n :=
    ⟨negative, .whole m,
      .decimal known (.whole toDigits_append_ne_nil (decimalRun_written zeros m)),
      isInteger_whole value⟩
  cases h with
  | plain zeros nonneg =>
    refine common [] zeros _ .none ?_
    rw [signed, if_neg (by decide), Int.natAbs_of_nonneg nonneg]
  | plus zeros nonneg =>
    refine common ['+'] zeros _ .plus ?_
    rw [signed, if_neg (by decide), Int.natAbs_of_nonneg nonneg]
  | minus zeros negative =>
    refine common ['-'] zeros _ .minus ?_
    rw [signed, if_pos rfl]
    omega

/-- The bits of an integer stand for it, and for its negation with a minus sign. -/
theorem isInteger_bits (n : Int64) :
    (Amount.bits n.toUInt64.toNat).IsInteger false n ∧
      (Amount.bits n.toUInt64.toNat).IsInteger true (-n) := by
  have same : Int64.ofNat n.toUInt64.toNat = n :=
    Int64.toBitVec.inj (by simp [← Int64.toBitVec_toUInt64])
  rw [isInteger_bits_iff, isInteger_bits_iff, same]
  exact ⟨rfl, rfl⟩

theorem HexadecimalNotation.common {n : Int64} {d : List Char} (h : HexadecimalNotation n d) :
    CommonNumeral d false (.bits n.toUInt64.toNat) ∧
      CommonNumeral ('-' :: d) true (.bits n.toUInt64.toNat) := by
  obtain @⟨x, ds, zeros, mark, written⟩ := h
  have run := hexadecimalRun_written zeros written
  have nonempty : List.replicate zeros '0' ++ ds ≠ [] := fun empty => by
    rw [(List.append_eq_nil_iff.mp empty).2] at written
    exact absurd written.symm Nat.toDigits_ne_nil
  have narrow : n.toUInt64.toNat < 2 ^ 64 := n.toUInt64.toNat_lt
  exact ⟨.hexadecimal (.mk .none (by simp) mark nonempty run narrow),
    .hexadecimal (.mk .minus (by simp) mark nonempty run narrow)⟩

/-- An integer is read back from its decimal digits and from the hexadecimal digits of its bits,
with white space around. A minus sign before the bits negates, which gives the least integer
itself. -/
theorem notations_read {w w' : List Char} (before : ∀ c ∈ w, isBlank c = true)
    (behind : ∀ c ∈ w', isBlank c = true) :
    (∀ n d, DecimalNotation n d → parseInteger? (String.ofList (w ++ d ++ w')) = some n) ∧
    (∀ n d, HexadecimalNotation n d →
      parseInteger? (String.ofList (w ++ d ++ w')) = some n ∧
      parseInteger? (String.ofList (w ++ '-' :: d ++ w')) = some (-n)) ∧
    ∀ d, HexadecimalNotation Int64.minValue d →
      parseInteger? (String.ofList (w ++ '-' :: d ++ w')) = some Int64.minValue := by
  have bits (n : Int64) (d : List Char) (h : HexadecimalNotation n d) :
      parseInteger? (String.ofList (w ++ d ++ w')) = some n ∧
      parseInteger? (String.ofList (w ++ '-' :: d ++ w')) = some (-n) := by
    obtain ⟨plain, minus⟩ := h.common
    obtain ⟨same, negated⟩ := isInteger_bits n
    exact ⟨parseInteger?_of_common before behind plain same,
      parseInteger?_of_common before behind minus negated⟩
  refine ⟨fun n d decimal => ?_, bits, fun d hexadecimal => ?_⟩
  · obtain ⟨negative, a, common, integer⟩ := decimal.exists_common
    exact parseInteger?_of_common before behind common integer
  · rw [(bits _ d hexadecimal).2]
    decide

theorem notations_read_least :
    (∀ c ∈ ['\u2003', ' '], isBlank c = true) ∧ (∀ c ∈ ['\n'], isBlank c = true) ∧
      parseInteger? "\u2003 -09223372036854775808\n" = some Int64.minValue ∧
      parseInteger? "\u2003 -0X008000000000000000\n" = some Int64.minValue := by
  have before : ∀ c ∈ ['\u2003', ' '], isBlank c = true :=
    List.all_iff_forall_prop.mp (by decide)
  have behind : ∀ c ∈ ['\n'], isBlank c = true :=
    List.all_iff_forall_prop.mp (by decide)
  obtain ⟨decimal, -, bits⟩ := notations_read before behind
  have digits :
      Nat.toDigits 10 Int64.minValue.toInt.natAbs = "9223372036854775808".toList := by decide
  have hexadecimal : "8000000000000000".toList.map Char.toLower =
      Nat.toDigits 16 Int64.minValue.toUInt64.toNat := by decide
  have read := decimal Int64.minValue _ (.minus 1 (by decide))
  have bitsRead := bits _ (.mk 2 (List.mem_cons_of_mem 'x' List.mem_cons_self) hexadecimal)
  rw [digits] at read
  exact ⟨before, behind, read, bitsRead⟩

end CardBridge.Numerals
