import CardBridge.Text.Utf8
import Mathlib.Data.List.Basic

/-!
# Text in script strings

Scripts hold bytes. The bytes of a text are read back as that text (`lossy_bytes`), and bytes that
are read without U+FFFD are the bytes of what is read (`bytes_lossy`).
-/

namespace CardBridge.Utf8

/-! ## Text read back -/

variable {n code : Nat} {low high : UInt8} {rest : Bytes}

theorem toNat_ofNat_of_lt (h : n < 256) : (UInt8.ofNat n).toNat = n := by
  simp [Nat.mod_eq_of_lt h]

/-- What a first byte says, by its number. -/
theorem lead_ofNat (h : n < 256) : lead (UInt8.ofNat n) =
    if n < 0x80 then .inl (Char.ofNat n)
    else if n < 0xC2 then .inl replacement
    else if n < 0xE0 then .inr ⟨1, n % 0x20, 0x80, 0xBF⟩
    else if n = 0xE0 then .inr ⟨2, n % 0x10, 0xA0, 0xBF⟩
    else if n = 0xED then .inr ⟨2, n % 0x10, 0x80, 0x9F⟩
    else if n < 0xF0 then .inr ⟨2, n % 0x10, 0x80, 0xBF⟩
    else if n = 0xF0 then .inr ⟨3, n % 0x08, 0x90, 0xBF⟩
    else if n < 0xF4 then .inr ⟨3, n % 0x08, 0x80, 0xBF⟩
    else if n = 0xF4 then .inr ⟨3, n % 0x08, 0x80, 0x8F⟩
    else .inl replacement := by
  simp only [lead, UInt8.lt_iff_toNat_lt, ← UInt8.toNat_inj, toNat_ofNat_of_lt h]
  rfl

theorem between_ofNat (h : low.toNat ≤ n ∧ n ≤ high.toNat) :
    low ≤ UInt8.ofNat n ∧ UInt8.ofNat n ≤ high := by
  have small : n < 256 := Nat.lt_of_le_of_lt h.2 high.toNat_lt
  rwa [UInt8.le_iff_toNat_le, UInt8.le_iff_toNat_le, toNat_ofNat_of_lt small]

/-- A first byte is read by what it says. -/
theorem lossyFrom_lead (b : UInt8) (rest : Bytes) :
    lossyFrom none (b :: rest) =
      match lead b with
      | .inl c => c :: lossyFrom none rest
      | .inr p => lossyFrom (some p) rest :=
  rfl

/-- A byte behind a character begun goes on with it if it is in its range, and is a first byte if
not. -/
theorem lossyFrom_pending (p : Pending) (b : UInt8) (rest : Bytes) :
    lossyFrom (some p) (b :: rest) =
      if p.low ≤ b ∧ b ≤ p.high then
        match p.missing with
        | 0 | 1 => Char.ofNat (p.code * 64 + b.toNat % 64) :: lossyFrom none rest
        | n + 2 => lossyFrom (some ⟨n + 1, p.code * 64 + b.toNat % 64, 0x80, 0xBF⟩) rest
      else replacement :: lossyFrom none (b :: rest) := by
  change ite _ _ (match lead b with
    | .inl c => replacement :: c :: lossyFrom none rest
    | .inr q => replacement :: lossyFrom (some q) rest) = _
  rw [lossyFrom_lead]
  cases lead b <;> rfl

/-- The last byte of a character ends it. -/
theorem lossyFrom_last (h : low.toNat ≤ n ∧ n ≤ high.toNat) :
    lossyFrom (some ⟨1, code, low, high⟩) (UInt8.ofNat n :: rest) =
      Char.ofNat (code * 64 + n % 64) :: lossyFrom none rest := by
  have small : n < 256 := Nat.lt_of_le_of_lt h.2 high.toNat_lt
  rw [lossyFrom_pending, if_pos (between_ofNat h), toNat_ofNat_of_lt small]

/-- Any other byte of a character, after the first one, adds six bits. -/
theorem lossyFrom_further (h : low.toNat ≤ n ∧ n ≤ high.toNat) (k : Nat) :
    lossyFrom (some ⟨k + 2, code, low, high⟩) (UInt8.ofNat n :: rest) =
      lossyFrom (some ⟨k + 1, code * 64 + n % 64, 0x80, 0xBF⟩) rest := by
  have small : n < 256 := Nat.lt_of_le_of_lt h.2 high.toNat_lt
  rw [lossyFrom_pending, if_pos (between_ofNat h), toNat_ofNat_of_lt small]

theorem lossyFrom_lead_char {c : Char} (h : lead (UInt8.ofNat n) = .inl c) :
    lossyFrom none (UInt8.ofNat n :: rest) = c :: lossyFrom none rest := by
  rw [lossyFrom_lead, h]

theorem lossyFrom_lead_pending {p : Pending} (h : lead (UInt8.ofNat n) = .inr p) :
    lossyFrom none (UInt8.ofNat n :: rest) = lossyFrom (some p) rest := by
  rw [lossyFrom_lead, h]

/-- The first of three bytes allows the second one. -/
theorem lead_of_three {v : Nat} (low : 0x7FF < v) (high : v ≤ 0xFFFF)
    (valid : v < 0xD800 ∨ 0xDFFF < v) :
    ∃ l h, lead (UInt8.ofNat (v / 4096 % 16 + 224)) = .inr ⟨2, v / 4096, l, h⟩ ∧
      l.toNat ≤ v / 64 % 64 + 128 ∧ v / 64 % 64 + 128 ≤ h.toNat := by
  have code : (v / 4096 % 16 + 224) % 0x10 = v / 4096 := by omega
  have first := lead_ofNat (n := v / 4096 % 16 + 224) (by omega)
  rw [if_neg (by omega), if_neg (by omega), if_neg (by omega), code] at first
  by_cases smallest : v < 0x1000
  · rw [if_pos (by omega)] at first
    exact ⟨_, _, first, by simp; omega, by simp; omega⟩
  · rw [if_neg (by omega)] at first
    by_cases surrogates : 0xD000 ≤ v ∧ v < 0xE000
    · rw [if_pos (by omega)] at first
      exact ⟨_, _, first, by simp, by simp; omega⟩
    · rw [if_neg (by omega), if_pos (by omega)] at first
      exact ⟨_, _, first, by simp, by simp; omega⟩

/-- The first of four bytes allows the second one. -/
theorem lead_of_four {v : Nat} (low : 0xFFFF < v) (high : v < 0x110000) :
    ∃ l h, lead (UInt8.ofNat (v / 262144 % 8 + 240)) = .inr ⟨3, v / 262144, l, h⟩ ∧
      l.toNat ≤ v / 4096 % 64 + 128 ∧ v / 4096 % 64 + 128 ≤ h.toNat := by
  have code : (v / 262144 % 8 + 240) % 0x08 = v / 262144 := by omega
  have first := lead_ofNat (n := v / 262144 % 8 + 240) (by omega)
  rw [if_neg (by omega), if_neg (by omega), if_neg (by omega), if_neg (by omega), if_neg (by omega),
    if_neg (by omega), code] at first
  by_cases smallest : v < 0x40000
  · rw [if_pos (by omega)] at first
    exact ⟨_, _, first, by simp; omega, by simp; omega⟩
  · rw [if_neg (by omega)] at first
    by_cases between : v < 0x100000
    · rw [if_pos (by omega)] at first
      exact ⟨_, _, first, by simp, by simp; omega⟩
    · rw [if_neg (by omega), if_pos (by omega)] at first
      exact ⟨_, _, first, by simp, by simp; omega⟩

/-- A character is read back from its bytes. -/
theorem lossyFrom_utf8EncodeChar (c : Char) (rest : Bytes) :
    lossyFrom none (String.utf8EncodeChar c ++ rest) = c :: lossyFrom none rest := by
  have valid : c.val.toNat < 0xD800 ∨ 0xDFFF < c.val.toNat ∧ c.val.toNat < 0x110000 := c.valid
  have read : Char.ofNat c.val.toNat = c := Char.ofNat_toNat c
  unfold String.utf8EncodeChar
  dsimp only
  generalize c.val.toNat = v at valid read
  split
  case isTrue one =>
    have first : lead (UInt8.ofNat v) = .inl (Char.ofNat v) := by
      rw [lead_ofNat (by omega), if_pos (by omega)]
    simp only [List.cons_append, List.nil_append]
    rw [lossyFrom_lead_char first, read]
  case isFalse =>
    split
    case isTrue two =>
      have code : (v / 64 % 32 + 192) % 0x20 = v / 64 := by omega
      have value : v / 64 * 64 + (v % 64 + 128) % 64 = v := by omega
      have first := lead_ofNat (n := v / 64 % 32 + 192) (by omega)
      rw [if_neg (by omega), if_neg (by omega), if_pos (by omega), code] at first
      simp only [List.cons_append, List.nil_append]
      rw [lossyFrom_lead_pending first, lossyFrom_last (by simp; omega), value, read]
    case isFalse =>
      split
      case isTrue three =>
        obtain ⟨l, h, first, second⟩ := lead_of_three (v := v) (by omega) three (by omega)
        have value : (v / 4096 * 64 + (v / 64 % 64 + 128) % 64) * 64 + (v % 64 + 128) % 64 = v := by
          omega
        simp only [List.cons_append, List.nil_append]
        rw [lossyFrom_lead_pending first, lossyFrom_further second, lossyFrom_last (by simp; omega),
          value, read]
      case isFalse four =>
        obtain ⟨l, h, first, second⟩ := lead_of_four (v := v) (by omega) (by omega)
        have value : ((v / 262144 * 64 + (v / 4096 % 64 + 128) % 64) * 64 +
            (v / 64 % 64 + 128) % 64) * 64 + (v % 64 + 128) % 64 = v := by omega
        simp only [List.cons_append, List.nil_append]
        rw [lossyFrom_lead_pending first, lossyFrom_further second,
          lossyFrom_further (by simp; omega), lossyFrom_last (by simp; omega), value, read]

theorem lossyFrom_flatMap (cs : List Char) :
    lossyFrom none (cs.flatMap String.utf8EncodeChar) = cs := by
  induction cs with
  | nil => rfl
  | cons c cs ih => rw [List.flatMap_cons, lossyFrom_utf8EncodeChar, ih]

theorem bytes_ofList (cs : List Char) :
    bytes (String.ofList cs) = cs.flatMap String.utf8EncodeChar := by
  rw [bytes, String.toUTF8, ← String.utf8Encode_toList, String.toList_ofList, List.utf8Encode]
  simp

/-- The bytes of a text are read back as that text. -/
theorem lossy_bytes (s : String) : lossy (bytes s) = s := by
  rw [← String.ofList_toList (s := s), bytes_ofList, lossy, lossyFrom_flatMap]

/-! ## Bytes that are text -/

/-- What a first byte says about the bytes behind. -/
theorem lead_cases (small : n < 256) :
    (lead (UInt8.ofNat n) = .inl (Char.ofNat n) ∧ n < 0x80) ∨
    lead (UInt8.ofNat n) = .inl replacement ∨
    (lead (UInt8.ofNat n) = .inr ⟨1, n % 0x20, 0x80, 0xBF⟩ ∧ 0xC2 ≤ n ∧ n < 0xE0) ∨
    (∃ low high, lead (UInt8.ofNat n) = .inr ⟨2, n % 0x10, low, high⟩ ∧
      (0xE0 ≤ n ∧ n < 0xF0) ∧ 0x80 ≤ low.toNat ∧ high.toNat ≤ 0xBF ∧
      (n = 0xE0 → 0xA0 ≤ low.toNat) ∧ (n = 0xED → high.toNat ≤ 0x9F)) ∨
    ∃ low high, lead (UInt8.ofNat n) = .inr ⟨3, n % 0x08, low, high⟩ ∧
      (0xF0 ≤ n ∧ n ≤ 0xF4) ∧ 0x80 ≤ low.toNat ∧ high.toNat ≤ 0xBF ∧
      (n = 0xF0 → 0x90 ≤ low.toNat) ∧ (n = 0xF4 → high.toNat ≤ 0x8F) := by
  have first := lead_ofNat small
  by_cases ascii : n < 0x80
  · rw [if_pos ascii] at first
    exact .inl ⟨first, ascii⟩
  rw [if_neg ascii] at first
  by_cases overlong : n < 0xC2
  · rw [if_pos overlong] at first
    exact .inr (.inl first)
  rw [if_neg overlong] at first
  by_cases two : n < 0xE0
  · rw [if_pos two] at first
    exact .inr (.inr (.inl ⟨first, by omega, two⟩))
  rw [if_neg two] at first
  by_cases three : n < 0xF0
  · refine .inr (.inr (.inr (.inl ?_)))
    by_cases long : n = 0xE0
    · rw [if_pos long] at first
      exact ⟨_, _, first, by omega, by decide, by decide, fun _ => by decide, by omega⟩
    rw [if_neg long] at first
    by_cases valid : n = 0xED
    · rw [if_pos valid] at first
      exact ⟨_, _, first, by omega, by decide, by decide, by omega, fun _ => by decide⟩
    rw [if_neg valid, if_pos three] at first
    exact ⟨_, _, first, by omega, by decide, by decide, by omega, by omega⟩
  rw [if_neg (by omega), if_neg (by omega), if_neg three] at first
  by_cases four : n ≤ 0xF4
  · refine .inr (.inr (.inr (.inr ?_)))
    by_cases long : n = 0xF0
    · rw [if_pos long] at first
      exact ⟨_, _, first, by omega, by decide, by decide, fun _ => by decide, by omega⟩
    rw [if_neg long] at first
    by_cases valid : n = 0xF4
    · rw [if_neg (by omega), if_pos valid] at first
      exact ⟨_, _, first, by omega, by decide, by decide, by omega, fun _ => by decide⟩
    rw [if_pos (by omega)] at first
    exact ⟨_, _, first, by omega, by decide, by decide, by omega, by omega⟩
  rw [if_neg (by omega), if_neg (by omega), if_neg (by omega)] at first
  exact .inr (.inl first)

/-- A character begun goes on, if no U+FFFD is read. -/
theorem exists_next {p : Pending} {s : Bytes} (h : replacement ∉ lossyFrom (some p) s) :
    ∃ n rest, s = UInt8.ofNat n :: rest ∧ p.low.toNat ≤ n ∧ n ≤ p.high.toNat := by
  cases s with
  | nil => exact absurd (List.mem_singleton_self replacement) h
  | cons b rest =>
    by_cases range : p.low ≤ b ∧ b ≤ p.high
    · exact ⟨b.toNat, rest, by simp, range.1, range.2⟩
    · rw [lossyFrom_pending, if_neg range] at h
      exact absurd List.mem_cons_self h

theorem toNat_charOfNat {v : Nat} (valid : v < 0xD800 ∨ 0xDFFF < v ∧ v < 0x110000) :
    (Char.ofNat v).toNat = v := by
  rw [Char.ofNat, dif_pos valid]
  rfl

theorem utf8EncodeChar_ofNat {v : Nat} (valid : v < 0xD800 ∨ 0xDFFF < v ∧ v < 0x110000) :
    String.utf8EncodeChar (Char.ofNat v) =
      if v ≤ 0x7F then [UInt8.ofNat v]
      else if v ≤ 0x7FF then [UInt8.ofNat (v / 64 % 32 + 192), UInt8.ofNat (v % 64 + 128)]
      else if v ≤ 0xFFFF then
        [UInt8.ofNat (v / 4096 % 16 + 224), UInt8.ofNat (v / 64 % 64 + 128),
          UInt8.ofNat (v % 64 + 128)]
      else
        [UInt8.ofNat (v / 262144 % 8 + 240), UInt8.ofNat (v / 4096 % 64 + 128),
          UInt8.ofNat (v / 64 % 64 + 128), UInt8.ofNat (v % 64 + 128)] := by
  have value : (Char.ofNat v).val.toNat = v := toNat_charOfNat valid
  rw [String.utf8EncodeChar, value]

theorem utf8EncodeChar_of_two {n n₁ : Nat} (first : 0xC2 ≤ n ∧ n < 0xE0)
    (second : 0x80 ≤ n₁ ∧ n₁ ≤ 0xBF) :
    String.utf8EncodeChar (Char.ofNat (n % 32 * 64 + n₁ % 64)) =
      [UInt8.ofNat n, UInt8.ofNat n₁] := by
  generalize value : n % 32 * 64 + n₁ % 64 = v
  have byte : v / 64 % 32 + 192 = n := by omega
  have byte₁ : v % 64 + 128 = n₁ := by omega
  rw [utf8EncodeChar_ofNat (by omega), if_neg (by omega), if_pos (by omega), byte, byte₁]

/-- The second byte keeps overlong forms and surrogates out. -/
theorem utf8EncodeChar_of_three {n n₁ n₂ : Nat} (first : 0xE0 ≤ n ∧ n < 0xF0)
    (second : 0x80 ≤ n₁ ∧ n₁ ≤ 0xBF) (long : n = 0xE0 → 0xA0 ≤ n₁) (valid : n = 0xED → n₁ ≤ 0x9F)
    (third : 0x80 ≤ n₂ ∧ n₂ ≤ 0xBF) :
    String.utf8EncodeChar (Char.ofNat ((n % 16 * 64 + n₁ % 64) * 64 + n₂ % 64)) =
      [UInt8.ofNat n, UInt8.ofNat n₁, UInt8.ofNat n₂] := by
  generalize value : (n % 16 * 64 + n₁ % 64) * 64 + n₂ % 64 = v
  have byte : v / 4096 % 16 + 224 = n := by omega
  have byte₁ : v / 64 % 64 + 128 = n₁ := by omega
  have byte₂ : v % 64 + 128 = n₂ := by omega
  rw [utf8EncodeChar_ofNat (by omega), if_neg (by omega), if_neg (by omega), if_pos (by omega),
    byte, byte₁, byte₂]

/-- The second byte keeps overlong forms and codes past U+10FFFF out. -/
theorem utf8EncodeChar_of_four {n n₁ n₂ n₃ : Nat} (first : 0xF0 ≤ n ∧ n ≤ 0xF4)
    (second : 0x80 ≤ n₁ ∧ n₁ ≤ 0xBF) (long : n = 0xF0 → 0x90 ≤ n₁) (valid : n = 0xF4 → n₁ ≤ 0x8F)
    (third : 0x80 ≤ n₂ ∧ n₂ ≤ 0xBF) (fourth : 0x80 ≤ n₃ ∧ n₃ ≤ 0xBF) :
    String.utf8EncodeChar (Char.ofNat (((n % 8 * 64 + n₁ % 64) * 64 + n₂ % 64) * 64 + n₃ % 64)) =
      [UInt8.ofNat n, UInt8.ofNat n₁, UInt8.ofNat n₂, UInt8.ofNat n₃] := by
  generalize value : ((n % 8 * 64 + n₁ % 64) * 64 + n₂ % 64) * 64 + n₃ % 64 = v
  have byte : v / 262144 % 8 + 240 = n := by omega
  have byte₁ : v / 4096 % 64 + 128 = n₁ := by omega
  have byte₂ : v / 64 % 64 + 128 = n₂ := by omega
  have byte₃ : v % 64 + 128 = n₃ := by omega
  rw [utf8EncodeChar_ofNat (by omega), if_neg (by omega), if_neg (by omega), if_neg (by omega),
    byte, byte₁, byte₂, byte₃]

/-- Bytes that are read without U+FFFD begin with those of a character. -/
theorem exists_utf8EncodeChar {b : UInt8} {s : Bytes} (h : replacement ∉ lossyFrom none (b :: s)) :
    ∃ c rest, b :: s = String.utf8EncodeChar c ++ rest := by
  obtain ⟨n, small, rfl⟩ : ∃ n, n < 256 ∧ b = UInt8.ofNat n := ⟨b.toNat, b.toNat_lt, by simp⟩
  obtain ⟨lead, ascii⟩ | lead | ⟨lead, first⟩ | ⟨l, r, lead, first, least, greatest, long, valid⟩ |
    ⟨l, r, lead, first, least, greatest, long, valid⟩ := lead_cases small
  · refine ⟨Char.ofNat n, s, ?_⟩
    rw [utf8EncodeChar_ofNat (by omega), if_pos (by omega), List.singleton_append]
  · rw [lossyFrom_lead_char lead] at h
    exact absurd List.mem_cons_self h
  all_goals
    rw [lossyFrom_lead_pending lead] at h
    obtain ⟨n₁, s, rfl, low, high⟩ := exists_next h
    dsimp only at low high
  · exact ⟨_, s, by rw [utf8EncodeChar_of_two first ⟨low, high⟩]; rfl⟩
  · rw [lossyFrom_further ⟨low, high⟩] at h
    obtain ⟨n₂, s, rfl, third⟩ := exists_next h
    have second : 0x80 ≤ n₁ ∧ n₁ ≤ 0xBF := by omega
    have encoded := utf8EncodeChar_of_three first second (by omega) (by omega) third
    exact ⟨_, s, by rw [encoded]; rfl⟩
  · rw [lossyFrom_further ⟨low, high⟩] at h
    obtain ⟨n₂, s, rfl, third⟩ := exists_next h
    rw [lossyFrom_further third] at h
    obtain ⟨n₃, s, rfl, fourth⟩ := exists_next h
    have second : 0x80 ≤ n₁ ∧ n₁ ≤ 0xBF := by omega
    have encoded := utf8EncodeChar_of_four first second (by omega) (by omega) third fourth
    exact ⟨_, s, by rw [encoded]; rfl⟩

/-- Bytes that are read without U+FFFD are those of the text that is read. -/
theorem bytes_lossy {s : Bytes} (h : replacement ∉ lossyFrom none s) : bytes (lossy s) = s := by
  rw [lossy, bytes_ofList]
  induction size : s.length using Nat.strongRecOn generalizing s with
  | ind k ih =>
    cases s with
    | nil => rfl
    | cons b s =>
      obtain ⟨c, rest, split⟩ := exists_utf8EncodeChar h
      rw [split, lossyFrom_utf8EncodeChar] at h ⊢
      have shorter : rest.length < k := by
        rw [← size, split, List.length_append, String.length_utf8EncodeChar]
        have := c.utf8Size_pos
        omega
      rw [List.flatMap_cons, ih _ shorter (fun member => h (List.mem_cons_of_mem c member)) rfl]

/-! ## ASCII -/

theorem toChars_utf8EncodeChar {c : Char} (ascii : c.toNat < 0x80) :
    Bytes.toChars (String.utf8EncodeChar c) = [c] := by
  have encoded := utf8EncodeChar_ofNat (v := c.toNat) (by omega)
  rw [Char.ofNat_toNat, if_pos (by omega)] at encoded
  rw [encoded, Bytes.toChars, List.map_singleton, toNat_ofNat_of_lt (by omega), Char.ofNat_toNat]

theorem exists_mem_utf8EncodeChar {c : Char} (high : 0x80 ≤ c.toNat) :
    ∃ b ∈ String.utf8EncodeChar c, 0x80 ≤ b.toNat := by
  have last : UInt8.ofNat (c.toNat % 64 + 128) ∈ String.utf8EncodeChar c := by
    have encoded := utf8EncodeChar_ofNat (v := c.toNat) c.valid
    rw [Char.ofNat_toNat, if_neg (by omega)] at encoded
    rw [encoded]
    split_ifs <;> simp
  exact ⟨_, last, by rw [toNat_ofNat_of_lt (by omega)]; omega⟩

/-- ASCII strings can be told by their bytes. -/
theorem toChars_bytes_iff {p : List Char → Prop} (ascii : ∀ cs, p cs → ∀ c ∈ cs, c.toNat < 0x80)
    (text : String) : p (bytes text).toChars ↔ p text.toList := by
  have encoded : (bytes text).toChars =
      text.toList.flatMap fun c => Bytes.toChars (String.utf8EncodeChar c) := by
    rw [← String.ofList_toList (s := text), bytes_ofList, Bytes.toChars, List.map_flatMap,
      String.toList_ofList]
    rfl
  by_cases simple : ∀ c ∈ text.toList, c.toNat < 0x80
  · have same : (bytes text).toChars = text.toList := by
      rw [encoded, List.flatMap_congr fun c member => toChars_utf8EncodeChar (simple c member),
        List.flatMap_singleton']
    rw [same]
  · refine iff_of_false (fun h => simple fun c member => ?_) fun h => simple (ascii _ h)
    by_contra high
    obtain ⟨b, inside, great⟩ := exists_mem_utf8EncodeChar (Nat.le_of_not_lt high)
    have read : Char.ofNat b.toNat ∈ (bytes text).toChars := by
      rw [encoded, List.mem_flatMap]
      exact ⟨c, member, List.mem_map_of_mem inside⟩
    have small := ascii _ h _ read
    have byte := b.toNat_lt
    rw [toNat_charOfNat (by omega)] at small
    omega

end CardBridge.Utf8
