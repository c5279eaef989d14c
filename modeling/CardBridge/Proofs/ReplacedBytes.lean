import CardBridge.Proofs.LossyText

/-!
# Bytes that are replaced

What the lossy reading makes of bytes that are no text is never mistaken for them. U+FFFD has three
bytes, and so may a piece that it stands for, so their number does not tell. But a piece of three
bytes is the beginning of a character of four, so it has a first byte that occurs in no shorter one.
With such bytes counted once and all others twice (`Utf8.weight`), a reading is heavier for each
U+FFFD that it puts (`Utf8.weight_lossy`). Weights add up where strings are joined.
-/

namespace CardBridge.Utf8

/-- Bytes are those of a text. -/
def IsText (s : Bytes) : Prop :=
  ∃ t : String, bytes t = s

theorem isText_iff {s : Bytes} : IsText s ↔ bytes (lossy s) = s := by
  constructor
  · rintro ⟨t, rfl⟩
    rw [lossy_bytes]
  · exact fun h => ⟨_, h⟩

theorem IsText.append {s u : Bytes} (hs : IsText s) (hu : IsText u) : IsText (s ++ u) := by
  obtain ⟨t, rfl⟩ := hs
  obtain ⟨v, rfl⟩ := hu
  exact ⟨t ++ v, by simp [bytes]⟩

/-! ## Weights -/

/-- The weight of bytes : one for a byte that can only begin a character of four bytes, or none, and
two for any other. -/
def weight : Bytes → Nat
  | [] => 0
  | b :: s => (if b < 0xF0 then 2 else 1) + weight s

@[simp] theorem weight_append (s u : Bytes) : weight (s ++ u) = weight s + weight u := by
  induction s with
  | nil => exact (Nat.zero_add _).symm
  | cons b s ih => rw [List.cons_append, weight, weight, ih, Nat.add_assoc]

theorem weight_cons_le (b : UInt8) (s : Bytes) : weight (b :: s) ≤ 2 + weight s := by
  rw [weight]
  split <;> omega

theorem weight_replacement : weight (String.utf8EncodeChar replacement) = 6 := by
  decide

/-- Bytes begin with a light piece for which U+FFFD is put. -/
def Broken (s : Bytes) : Prop :=
  ∃ piece rest, s = piece ++ rest ∧ piece ≠ [] ∧ weight piece < 6 ∧
    lossyFrom none s = replacement :: lossyFrom none rest

section Broken

variable {b b₁ b₂ : UInt8} {s : Bytes}

theorem broken_one (h : lossyFrom none (b :: s) = replacement :: lossyFrom none s) :
    Broken (b :: s) := by
  have light := weight_cons_le b []
  exact ⟨[b], s, rfl, List.cons_ne_nil b [], Nat.lt_of_le_of_lt light (by decide), h⟩

theorem broken_two (h : lossyFrom none (b :: b₁ :: s) = replacement :: lossyFrom none s) :
    Broken (b :: b₁ :: s) := by
  have light : weight [b, b₁] ≤ 4 :=
    Nat.le_trans (weight_cons_le b [b₁]) (Nat.add_le_add_left (weight_cons_le b₁ []) 2)
  exact ⟨[b, b₁], s, rfl, List.cons_ne_nil b [b₁], Nat.lt_of_le_of_lt light (by decide), h⟩

/-- Three bytes are light enough if the first one begins a character of four. -/
theorem broken_three (four : ¬ b < 0xF0)
    (h : lossyFrom none (b :: b₁ :: b₂ :: s) = replacement :: lossyFrom none s) :
    Broken (b :: b₁ :: b₂ :: s) := by
  have light : weight [b₁, b₂] ≤ 4 :=
    Nat.le_trans (weight_cons_le b₁ [b₂]) (Nat.add_le_add_left (weight_cons_le b₂ []) 2)
  have first : weight [b, b₁, b₂] = 1 + weight [b₁, b₂] := by rw [weight, if_neg four]
  refine ⟨[b, b₁, b₂], s, rfl, List.cons_ne_nil b [b₁, b₂], ?_, h⟩
  rw [first]
  exact Nat.lt_of_le_of_lt (Nat.add_le_add_left light 1) (by decide)

end Broken

/-- A character that is begun goes on, or it is replaced and what follows is read for itself. -/
theorem next_or_replaced {p : Pending} {whole s : Bytes}
    (read : lossyFrom none whole = lossyFrom (some p) s) :
    (∃ n rest, s = UInt8.ofNat n :: rest ∧ p.low.toNat ≤ n ∧ n ≤ p.high.toNat) ∨
      lossyFrom none whole = replacement :: lossyFrom none s := by
  cases s with
  | nil => exact .inr read
  | cons b rest =>
    by_cases range : p.low ≤ b ∧ b ≤ p.high
    · exact .inl ⟨b.toNat, rest, by simp, range.1, range.2⟩
    · refine .inr (read.trans ?_)
      rw [lossyFrom_pending, if_neg range]

/-- Bytes begin with a character, or with a piece that is replaced. -/
theorem char_or_broken (b : UInt8) (s : Bytes) :
    (∃ c rest, b :: s = String.utf8EncodeChar c ++ rest) ∨ Broken (b :: s) := by
  obtain ⟨n, small, rfl⟩ : ∃ n, n < 256 ∧ b = UInt8.ofNat n := ⟨b.toNat, b.toNat_lt, by simp⟩
  obtain ⟨lead, ascii⟩ | lead | ⟨lead, first⟩ | ⟨l, r, lead, first, least, greatest, long, valid⟩ |
    ⟨l, r, lead, first, least, greatest, long, valid⟩ := lead_cases small
  · refine .inl ⟨Char.ofNat n, s, ?_⟩
    rw [utf8EncodeChar_ofNat (by omega), if_pos (by omega), List.singleton_append]
  · exact .inr (broken_one (lossyFrom_lead_char lead))
  all_goals
    have read : lossyFrom none (UInt8.ofNat n :: s) = _ := lossyFrom_lead_pending lead
    obtain ⟨n₁, s, rfl, low, high⟩ | replaced := next_or_replaced read
    rotate_left
    · exact .inr (broken_one replaced)
    dsimp only at low high
  · exact .inl ⟨_, s, by rw [utf8EncodeChar_of_two first ⟨low, high⟩]; rfl⟩
  · rw [lossyFrom_further ⟨low, high⟩] at read
    obtain ⟨n₂, s, rfl, third⟩ | replaced := next_or_replaced read
    · have second : 0x80 ≤ n₁ ∧ n₁ ≤ 0xBF := by omega
      have encoded := utf8EncodeChar_of_three first second (by omega) (by omega) third
      exact .inl ⟨_, s, by rw [encoded]; rfl⟩
    · exact .inr (broken_two replaced)
  · rw [lossyFrom_further ⟨low, high⟩] at read
    obtain ⟨n₂, s, rfl, third⟩ | replaced := next_or_replaced read
    · rw [lossyFrom_further third] at read
      obtain ⟨n₃, s, rfl, fourth⟩ | replaced := next_or_replaced read
      · have second : 0x80 ≤ n₁ ∧ n₁ ≤ 0xBF := by omega
        have encoded := utf8EncodeChar_of_four first second (by omega) (by omega) third fourth
        exact .inl ⟨_, s, by rw [encoded]; rfl⟩
      · have four : ¬ UInt8.ofNat n < 0xF0 := by
          rw [UInt8.lt_iff_toNat_lt, toNat_ofNat_of_lt small]
          exact Nat.not_lt.mpr first.1
        exact .inr (broken_three four replaced)
    · exact .inr (broken_two replaced)

/-- The bytes of a reading weigh at least as much as what is read, and more if that is no text. -/
theorem weight_lossy (s : Bytes) :
    weight s ≤ weight (bytes (lossy s)) ∧ (weight (bytes (lossy s)) ≤ weight s → IsText s) := by
  rw [isText_iff, lossy, bytes_ofList]
  induction size : s.length using Nat.strongRecOn generalizing s with
  | ind k ih =>
    cases s with
    | nil => exact ⟨Nat.le_refl _, fun _ => rfl⟩
    | cons b s =>
      obtain ⟨c, rest, split⟩ | ⟨piece, rest, split, some, light, read⟩ := char_or_broken b s
      · have shorter : rest.length < k := by
          rw [← size, split, List.length_append, String.length_utf8EncodeChar]
          have := c.utf8Size_pos
          omega
        obtain ⟨heavier, text⟩ := ih _ shorter rest rfl
        rw [split, lossyFrom_utf8EncodeChar, List.flatMap_cons, weight_append, weight_append]
        refine ⟨Nat.add_le_add_left heavier _, fun same => ?_⟩
        rw [text (Nat.le_of_add_le_add_left same)]
      · have shorter : rest.length < k := by
          rw [← size, split, List.length_append]
          have := List.length_pos_iff.mpr some
          omega
        obtain ⟨heavier, -⟩ := ih _ shorter rest rfl
        rw [read, List.flatMap_cons, weight_append, weight_replacement, split, weight_append]
        exact ⟨by omega, fun same => by omega⟩

end CardBridge.Utf8
