import CardBridge.Proofs.DecimalRounding
import CardBridge.Proofs.LossyText
import CardBridge.Proofs.Numerals
import CardBridge.Script.Arithmetic

/-!
# Numbers that scripts read

The numerals of the script language (`ScriptNumeral`), and which of them stand exactly for an
integer (`ScriptReads`). Scripts convert a string just so (`integer_read?_iff`, `isSome_read?_iff`).
-/

namespace CardBridge.Numerals

open Binary64

/-! ## Numerals and their amounts -/

/-- What a numeral stands for: a whole number, the bits of an integer or a real number. -/
inductive Amount
  | whole (n : ℕ)
  | bits (n : ℕ)
  | real (q : ℚ)

/-- A decimal numeral without sign: an integer, or a float, which has a point or an exponent. -/
inductive DecimalNumeral : List Char → Amount → Prop
  | whole {cs : List Char} {n : ℕ} : cs ≠ [] → DecimalRun cs n → DecimalNumeral cs (.whole n)
  | real {ms es : List Char} {n places : ℕ} {e : ℤ} :
      Mantissa 10 Digits.decimalValue? ms n places → Exponent ['e', 'E'] es e → '.' ∈ ms ∨ es ≠ [] →
        DecimalNumeral (ms ++ es) (.real (n * 10 ^ (-(places : ℤ) + e)))

/-- A hexadecimal numeral without sign and mark. The exponent of a float is one of two. -/
inductive HexadecimalNumeral : List Char → Amount → Prop
  | bits {cs : List Char} {n : ℕ} : cs ≠ [] → HexadecimalRun cs n → HexadecimalNumeral cs (.bits n)
  | real {ms es : List Char} {n places : ℕ} {e : ℤ} :
      Mantissa 16 Digits.hexadecimalValue? ms n places → Exponent ['p', 'P'] es e →
        '.' ∈ ms ∨ es ≠ [] → HexadecimalNumeral (ms ++ es) (.real (n * 2 ^ (-4 * (places : ℤ) + e)))

/-- A numeral of the script language, with its sign. -/
inductive ScriptNumeral : List Char → Bool → Amount → Prop
  | decimal {sign cs : List Char} {negative : Bool} {a : Amount} :
      Sign sign negative → DecimalNumeral cs a → ScriptNumeral (sign ++ cs) negative a
  | hexadecimal {sign cs : List Char} {x : Char} {negative : Bool} {a : Amount} :
      Sign sign negative → x ∈ ['x', 'X'] → HexadecimalNumeral cs a →
        ScriptNumeral (sign ++ '0' :: x :: cs) negative a

/-- Whether an amount with a sign is exactly the integer `n`. A whole number that is none of 64 bits
is read as a float, and bits are counted modulo `2 ^ 64`. -/
def Amount.IsInteger (negative : Bool) (n : Int64) : Amount → Prop
  | .whole m =>
    if -2 ^ 63 ≤ signed negative m ∧ signed negative m < 2 ^ 63 then n.toInt = signed negative m
    else Nearest (withSign negative m) n.toInt
  | .bits m => n.toInt ≡ signed negative m [ZMOD 2 ^ 64]
  | .real q => Nearest (withSign negative q) n.toInt

/-- `cs` is `t` with blanks around it. -/
def Padded (blank : Char → Bool) (cs t : List Char) : Prop :=
  ∃ w w' : List Char, cs = w ++ t ++ w' ∧ (∀ c ∈ w, blank c = true) ∧ ∀ c ∈ w', blank c = true

/-- Scripts convert `cs` to a number. -/
def IsNumeric (cs : List Char) : Prop :=
  ∃ t negative a, Padded Script.Numeral.isSpace cs t ∧ ScriptNumeral t negative a

/-- Scripts convert `cs` to a number that is exactly the integer `n`. -/
def ScriptReads (cs : List Char) (n : Int64) : Prop :=
  ∃ t negative a, Padded Script.Numeral.isSpace cs t ∧ ScriptNumeral t negative a ∧
    a.IsInteger negative n

/-! ## Decimal numerals -/

/-- The characters of decimal numerals. -/
theorem DecimalNumeral.chars {cs : List Char} {a : Amount} (h : DecimalNumeral cs a) :
    ∀ c ∈ cs, (Digits.decimalValue? c).isSome ∨ c ∈ ['.', 'e', 'E', '+', '-'] := by
  intro c member
  cases h with
  | whole _ run => exact .inl (run.isSome c member)
  | real mantissa exponent =>
    rcases List.mem_append.mp member with member | member
    · exact (mantissa.isSome c member).imp_right fun point => by simp [point]
    · exact (exponent.chars c member).imp_right fun other => List.mem_cons_of_mem '.' other

/-- The amount of a decimal numeral as a number. -/
def Amount.value : Amount → ℚ
  | .whole n | .bits n => n
  | .real q => q

theorem Mantissa.whole_or_point {b : ℕ} {value? : Char → Option ℕ} {cs : List Char} {n places : ℕ}
    (h : Mantissa b value? cs n places) : Run b value? cs n ∧ places = 0 ∨ '.' ∈ cs := by
  cases h with
  | whole _ run => exact .inl ⟨run, rfl⟩
  | pointed => exact .inr (by simp)

/-- Decimal numerals are what is read as one. -/
theorem exists_decimalNumeral_iff {cs : List Char} {d : Decimal}
    (read : Decimal.read? cs = some d) :
    ∃ a, DecimalNumeral cs a ∧ a.value = d.mantissa * 10 ^ d.exponent := by
  obtain ⟨ms, es, n, places, e, rfl, mantissa, exponent, rfl⟩ := read?_eq_some_iff.mp read
  by_cases float : '.' ∈ ms ∨ es ≠ []
  · exact ⟨_, .real mantissa exponent float, rfl⟩
  · obtain ⟨plain, without⟩ := not_or.mp float
    obtain rfl := not_not.mp without
    obtain ⟨run, rfl⟩ := mantissa.whole_or_point.resolve_right plain
    obtain rfl : e = 0 := by
      rcases exponent_iff.mp exponent with ⟨-, zero⟩ | ⟨_, _, _, impossible, _⟩
      · exact zero
      · exact absurd impossible nofun
    rw [List.append_nil]
    exact ⟨_, .whole mantissa.ne_nil run, by simp [Amount.value]⟩

theorem DecimalNumeral.read? {cs : List Char} {a : Amount} (h : DecimalNumeral cs a) :
    ∃ d, Decimal.read? cs = some d ∧ a.value = d.mantissa * 10 ^ d.exponent := by
  cases h with
  | whole nonempty run =>
    refine ⟨_, read?_eq_some_iff.mpr
      ⟨cs, [], _, 0, 0, by simp, .whole nonempty run, .none, rfl⟩, by simp [Amount.value]⟩
  | real mantissa exponent =>
    exact ⟨_, read?_eq_some_iff.mpr ⟨_, _, _, _, _, rfl, mantissa, exponent, rfl⟩, rfl⟩

/-- A decimal numeral begins with a digit or the point. -/
theorem DecimalNumeral.bare {cs : List Char} {a : Amount} (h : DecimalNumeral cs a) :
    cs.head? ≠ some '+' ∧ cs.head? ≠ some '-' := by
  cases h with
  | whole _ run => exact decimalRun_bare run
  | @real ms es n places e mantissa =>
    rw [List.head?_append_of_ne_nil _ mantissa.ne_nil]
    constructor <;> intro head <;>
      exact absurd (mantissa.isSome _ (List.mem_of_mem_head? head)) (by decide)

theorem not_mem_decimal {x : Char} (mark : x ∈ ['x', 'X']) {cs : List Char} {a : Amount}
    (h : DecimalNumeral cs a) : x ∉ cs := by
  have noDecimal : ∀ x ∈ ['x', 'X'],
      ¬ ((Digits.decimalValue? x).isSome ∨ x ∈ ['.', 'e', 'E', '+', '-']) :=
    List.all_iff_forall_prop.mp (by decide)
  exact fun member => noDecimal x mark (h.chars x member)

/-- A hexadecimal numeral begins with a digit or the point. -/
theorem HexadecimalNumeral.head?_ne_plus {cs : List Char} {a : Amount}
    (h : HexadecimalNumeral cs a) : cs.head? ≠ some '+' := by
  intro head
  cases h with
  | bits _ run => exact absurd (run.isSome '+' (List.mem_of_mem_head? head)) (by decide)
  | @real ms es n places e mantissa =>
    rw [List.head?_append_of_ne_nil _ mantissa.ne_nil] at head
    exact absurd (mantissa.isSome '+' (List.mem_of_mem_head? head)) (by decide)

/-- A float is no run of digits. -/
theorem not_run_of_float {b k : ℕ} {value? : Char → Option ℕ} {marks ms es : List Char} {e : ℤ}
    (exponent : Exponent marks es e) (noDigit : ∀ c ∈ '.' :: marks, ¬ (value? c).isSome)
    (float : '.' ∈ ms ∨ es ≠ []) : ¬ Run b value? (ms ++ es) k := by
  intro run
  have digits := run.isSome
  rcases float with point | nonempty
  · exact noDigit '.' List.mem_cons_self (digits '.' (List.mem_append_left es point))
  · cases exponent with
    | none => exact nonempty rfl
    | @some c _ _ _ _ mark => exact noDigit c (List.mem_cons_of_mem '.' mark) (digits c (by simp))

theorem decimal?_of_float {ms es : List Char} {e : ℤ} (exponent : Exponent ['e', 'E'] es e)
    (float : '.' ∈ ms ∨ es ≠ []) : Digits.decimal? (ms ++ es) = none := by
  have noDigit : ∀ c ∈ ['.', 'e', 'E'], ¬ (Digits.decimalValue? c).isSome :=
    List.all_iff_forall_prop.mp (by decide)
  exact Option.eq_none_iff_forall_ne_some.mpr fun k read =>
    not_run_of_float exponent noDigit float (decimal?_eq_some_iff.mp read).2

theorem HexadecimalNumeral.not_run {cs : List Char} {q : ℚ} (h : HexadecimalNumeral cs (.real q))
    {k : ℕ} : ¬ HexadecimalRun cs k := by
  have noDigit : ∀ c ∈ ['.', 'p', 'P'], ¬ (Digits.hexadecimalValue? c).isSome :=
    List.all_iff_forall_prop.mp (by decide)
  cases h with
  | real _ exponent float => exact not_run_of_float exponent noDigit float

theorem isInteger_bits_iff {negative : Bool} {m : ℕ} {n : Int64} :
    (Amount.bits m).IsInteger negative n ↔
      n = if negative then -Int64.ofNat m else Int64.ofNat m := by
  have wrapped (k : ℤ) : n.toInt ≡ k [ZMOD 2 ^ 64] ↔ n = Int64.ofInt k := by
    have least := n.le_toInt
    have greatest := n.toInt_lt
    rw [eq_comm (a := n), Int64.ofInt_eq_iff_bmod_eq_toInt, Int.ModEq, Int.bmod_def]
    omega
  rw [Amount.IsInteger, wrapped]
  cases negative
  · rw [if_neg (by decide), ← Int64.ofInt_eq_ofNat]
    rfl
  · rw [if_pos rfl, ← Int64.ofInt_eq_ofNat, ← Int64.ofInt_neg]
    rfl

/-! ## White space around numerals -/

/-- A character of ASCII that is neither a control character nor a space. -/
def Visible (c : Char) : Prop :=
  0x20 < c.toNat ∧ c.toNat < 0x7F

instance (c : Char) : Decidable (Visible c) :=
  inferInstanceAs (Decidable (_ ∧ _))

theorem Visible.not_blank {c : Char} (h : Visible c) : isBlank c = false := by
  obtain ⟨low, high⟩ := h
  simp [isBlank]
  omega

theorem Visible.of_between {a b c : Char} (range : a ≤ c ∧ c ≤ b) (low : Visible a)
    (high : Visible b) : Visible c :=
  ⟨low.1.trans_le range.1, Nat.lt_of_le_of_lt range.2 high.2⟩

theorem strip_of_padded {blank : Char → Bool} {cs t : List Char} (padded : Padded blank cs t)
    (solid : ∀ c ∈ t, blank c = false) :
    ((cs.dropWhile blank).reverse.dropWhile blank).reverse = t := by
  obtain ⟨w, w', rfl, before, behind⟩ := padded
  rw [List.append_assoc, List.dropWhile_append_of_pos before]
  cases t with
  | nil => simp [List.dropWhile_eq_nil_iff.mpr behind]
  | cons c t =>
    have first : ((c :: t) ++ w').dropWhile blank = (c :: t) ++ w' :=
      List.dropWhile_cons_of_neg (by simp [solid c List.mem_cons_self])
    have last :=
      span_append (c :: t).reverse (fun c member => behind c (List.mem_reverse.mp member))
      fun c head => solid c (List.mem_reverse.mp (List.mem_of_mem_head? head))
    rw [first, List.reverse_append, last.2, List.reverse_reverse]

theorem padded_strip (blank : Char → Bool) (cs : List Char) :
    Padded blank cs ((cs.dropWhile blank).reverse.dropWhile blank).reverse := by
  obtain ⟨w, rest, rfl, -, dropped, before, -⟩ := exists_span blank cs
  obtain ⟨w', t, reversed, -, dropped', behind, -⟩ := exists_span blank rest.reverse
  refine ⟨w, w'.reverse, ?_, before, fun c member => behind c (List.mem_reverse.mp member)⟩
  rw [dropped, dropped', List.append_assoc, ← List.reverse_append, ← reversed, List.reverse_reverse]

theorem trim_of_padded {cs t : List Char} (padded : Padded isBlank cs t)
    (visible : ∀ c ∈ t, Visible c) : trim cs = t :=
  strip_of_padded padded fun c member => (visible c member).not_blank

theorem isSpace_iff {c : Char} :
    Script.Numeral.isSpace c = true ↔ c = ' ' ∨ 0x9 ≤ c.toNat ∧ c.toNat ≤ 0xD := by
  simp only [Script.Numeral.isSpace, Bool.or_eq_true, beq_iff_eq, Bool.and_eq_true,
    decide_eq_true_eq, Char.le_def, UInt32.le_iff_toNat_le]
  rfl

theorem isBlank_of_isSpace {c : Char} (space : Script.Numeral.isSpace c = true) :
    isBlank c = true := by
  rcases isSpace_iff.mp space with rfl | range
  · rfl
  · simp [isBlank, range]

theorem Padded.blank {cs t : List Char} (h : Padded Script.Numeral.isSpace cs t) :
    Padded isBlank cs t := by
  obtain ⟨w, w', split, before, behind⟩ := h
  exact ⟨w, w', split, fun c member => isBlank_of_isSpace (before c member),
    fun c member => isBlank_of_isSpace (behind c member)⟩

theorem visible_of_hexadecimal {c : Char} (digit : (Digits.hexadecimalValue? c).isSome) :
    Visible c := by
  unfold Digits.hexadecimalValue? at digit
  split at digit
  case isTrue range => exact Visible.of_between range (by decide) (by decide)
  split at digit
  case isTrue range => exact Visible.of_between range (by decide) (by decide)
  split at digit
  case isTrue range => exact Visible.of_between range (by decide) (by decide)
  · exact absurd digit (by decide)

theorem visible_of_decimal {c : Char} (digit : (Digits.decimalValue? c).isSome) : Visible c := by
  unfold Digits.decimalValue? at digit
  split at digit
  case isTrue range => exact Visible.of_between range (by decide) (by decide)
  · exact absurd digit (by decide)

/-- The characters of a numeral are visible. -/
theorem Sign.visible {sign : List Char} {negative : Bool} (h : Sign sign negative) :
    ∀ c ∈ sign, Visible c := fun c member =>
  (List.all_iff_forall_prop.mp (by decide) : ∀ c ∈ ['+', '-'], Visible c) c (h.mem c member)

theorem DecimalNumeral.visible {cs : List Char} {a : Amount} (h : DecimalNumeral cs a) :
    ∀ c ∈ cs, Visible c := fun c member =>
  (h.chars c member).elim visible_of_decimal
    ((List.all_iff_forall_prop.mp (by decide) : ∀ c ∈ ['.', 'e', 'E', '+', '-'], Visible c) c)

theorem HexadecimalNumeral.visible {cs : List Char} {a : Amount} (h : HexadecimalNumeral cs a) :
    ∀ c ∈ cs, Visible c := by
  intro c member
  cases h with
  | bits _ run => exact visible_of_hexadecimal (run.isSome c member)
  | real mantissa exponent =>
    rcases List.mem_append.mp member with member | member
    · rcases mantissa.isSome c member with digit | rfl
      · exact visible_of_hexadecimal digit
      · decide
    · exact (exponent.chars c member).elim visible_of_decimal
        ((List.all_iff_forall_prop.mp (by decide) : ∀ c ∈ ['p', 'P', '+', '-'], Visible c) c)

/-- So is what stands before the digits of a hexadecimal numeral. -/
theorem visible_of_marked {sign cs : List Char} {x : Char} {negative : Bool}
    (signed : Sign sign negative) (mark : x ∈ ['x', 'X']) (visible : ∀ c ∈ cs, Visible c) :
    ∀ c ∈ sign ++ '0' :: x :: cs, Visible c := by
  intro c member
  rcases List.mem_append.mp member with member | member
  · exact signed.visible c member
  rcases List.mem_cons.mp member with rfl | member
  · decide
  rcases List.mem_cons.mp member with rfl | member
  · exact (List.all_iff_forall_prop.mp (by decide) : ∀ c ∈ ['x', 'X'], Visible c) c mark
  · exact visible c member

theorem DecimalNumeral.visible_append {sign cs : List Char} {negative : Bool} {a : Amount}
    (signed : Sign sign negative) (h : DecimalNumeral cs a) : ∀ c ∈ sign ++ cs, Visible c :=
  fun c member => (List.mem_append.mp member).elim (signed.visible c) (h.visible c)

theorem ScriptNumeral.visible {t : List Char} {negative : Bool} {a : Amount}
    (h : ScriptNumeral t negative a) : ∀ c ∈ t, Visible c := by
  cases h with
  | decimal signed numeral => exact numeral.visible_append signed
  | hexadecimal signed mark numeral => exact visible_of_marked signed mark numeral.visible

/-! ## What scripts read -/

/-- The digits of a hexadecimal float are read if they are a mantissa. -/
theorem hexMantissa?_eq_some_iff {cs : List Char} {n places : ℕ} :
    Script.Numeral.hexMantissa? cs = some (n, places) ↔
      Mantissa 16 Digits.hexadecimalValue? cs n places := by
  obtain ⟨whole, after, -, taken, dropped, -⟩ := exists_span Digits.isHexadecimal cs
  rw [mantissa_iff (by decide) taken dropped, Script.Numeral.hexMantissa?, taken, dropped]
  constructor
  · intro read
    match after with
    | [] =>
      obtain ⟨m, digits, same⟩ := Option.map_eq_some_iff.mp read
      obtain ⟨rfl, rfl⟩ := Prod.mk.inj same
      exact .inl ⟨rfl, rfl, hexadecimal?_eq_some_iff.mp digits⟩
    | c :: rest =>
      by_cases point : c = '.'
      · subst point
        obtain ⟨-, read⟩ := Option.ite_none_right_eq_some.mp read
        obtain ⟨m, digits, same⟩ := Option.map_eq_some_iff.mp read
        obtain ⟨rfl, rfl⟩ := Prod.mk.inj same
        exact .inr ⟨rest, rfl, rfl, hexadecimal?_eq_some_iff.mp digits⟩
      · simp [point] at read
  · rintro (⟨rfl, rfl, digits⟩ | ⟨rest, rfl, rfl, digits⟩)
    · rw [hexadecimal?_eq_some_iff.mpr digits]
      rfl
    · have places : rest.all Digits.isHexadecimal = true :=
        List.all_eq_true.mpr fun c member => digits.2.isSome c (List.mem_append_right whole member)
      simp only [places, if_true, hexadecimal?_eq_some_iff.mpr digits, Option.map_some]

theorem hexFloat?_eq (cs : List Char) : Script.Numeral.hexFloat? cs =
    numeral? (fun c => c == 'p' || c == 'P') Script.Numeral.hexMantissa?
      (fun m e => ofDyadic false m.1 (e - 4 * (m.2 : ℤ))) cs := by
  rw [Script.Numeral.hexFloat?, numeral?]
  cases Script.Numeral.hexMantissa? (cs.takeWhile fun c => !(c == 'p' || c == 'P')) with
  | none => rfl
  | some m => cases cs.dropWhile fun c => !(c == 'p' || c == 'P') <;> simp [exponentOr0?]

/-- A hexadecimal float is read if it is one: a mantissa and an exponent. -/
theorem hexFloat?_eq_some_iff {cs : List Char} {x : Float} :
    Script.Numeral.hexFloat? cs = some x ↔ ∃ ms es n places e, cs = ms ++ es ∧
      Mantissa 16 Digits.hexadecimalValue? ms n places ∧ Exponent ['p', 'P'] es e ∧
        x = ofDyadic false n (-4 * (places : ℤ) + e) := by
  have known (c : Char) : (c == 'p' || c == 'P') = true ↔ c ∈ ['p', 'P'] := by simp
  have noDigit : ∀ c ∈ ['p', 'P'], ¬ ((Digits.hexadecimalValue? c).isSome ∨ c = '.') :=
    List.all_iff_forall_prop.mp (by decide)
  have bare (ms : List Char) (m : ℕ × ℕ) (read : Script.Numeral.hexMantissa? ms = some m) :
      ∀ c ∈ ms, c ∉ ['p', 'P'] := fun c member mark =>
    noDigit c mark ((hexMantissa?_eq_some_iff.mp read).isSome c member)
  rw [hexFloat?_eq, numeral?_eq_some_iff known bare]
  simp only [Prod.exists, hexMantissa?_eq_some_iff, neg_mul, neg_add_eq_sub]

theorem toInteger?_num (x : Float) : (Script.Value.num x).toInteger? = floatToInteger? x := by
  rw [Script.Value.toInteger?, floatToInteger?]
  cases Binary64.toInt? x with
  | none => rfl
  | some k => simp [narrow?, Script.Value.inRange]

theorem unsigned_of_unmarked {cs : List Char}
    (unmarked : ∀ x ∈ ['x', 'X'], ∀ rest, cs ≠ '0' :: x :: rest) (negative : Bool) :
    Script.Numeral.unsignedInt? negative cs = (Digits.decimal? cs).bind (fun m =>
      if m < Nat.pow 2 63 ∨ (negative ∧ m = Nat.pow 2 63) then some (Int64.ofNat m) else none) ∧
    Script.Numeral.unsignedFloat? cs = (Decimal.read? cs).map Decimal.toFloat := by
  constructor
  · unfold Script.Numeral.unsignedInt?
    split
    case h_1 rest => exact absurd rfl (unmarked 'x' (by simp) rest)
    case h_2 rest => exact absurd rfl (unmarked 'X' (by simp) rest)
    case h_3 => cases Digits.decimal? cs <;> rfl
  · unfold Script.Numeral.unsignedFloat?
    split
    case h_1 rest => exact absurd rfl (unmarked 'x' (by simp) rest)
    case h_2 rest => exact absurd rfl (unmarked 'X' (by simp) rest)
    case h_3 => rfl

/-- A decimal numeral that is a float, or too great for an integer. -/
theorem signed?_of_float {cs : List Char} {a : Amount} (h : DecimalNumeral cs a) {negative : Bool}
    (noInteger : Script.Numeral.unsignedInt? negative cs = none) :
    ∃ v, Script.Numeral.signed? negative cs = some v ∧
      ∀ n, v.toInteger? = some n ↔ Nearest (withSign negative a.value) n.toInt := by
  have unmarked : ∀ x ∈ ['x', 'X'], ∀ rest, cs ≠ '0' :: x :: rest := fun x mark rest marked =>
    not_mem_decimal mark h (by simp [marked])
  obtain ⟨d, read, value⟩ := h.read?
  refine ⟨.num (if negative then -d.toFloat else d.toFloat), ?_, fun n => ?_⟩
  · rw [Script.Numeral.signed?, noInteger, (unsigned_of_unmarked unmarked negative).2, read]
    rfl
  · rw [toInteger?_num, floatToInteger?_signed_eq_some_iff d.roundsTo_toFloat, value]

theorem signed?_of_decimal {cs : List Char} {a : Amount} (h : DecimalNumeral cs a)
    (negative : Bool) : ∃ v, Script.Numeral.signed? negative cs = some v ∧
      ∀ n, v.toInteger? = some n ↔ a.IsInteger negative n := by
  have unmarked : ∀ x ∈ ['x', 'X'], ∀ rest, cs ≠ '0' :: x :: rest := fun x mark rest marked =>
    not_mem_decimal mark h (by simp [marked])
  have integer := (unsigned_of_unmarked unmarked negative).1
  cases h with
  | @whole _ m nonempty run =>
    rw [decimal?_eq_some_iff.mpr ⟨nonempty, run⟩, Option.bind_some] at integer
    have range : (m < Nat.pow 2 63 ∨ (negative ∧ m = Nat.pow 2 63)) ↔
        -2 ^ 63 ≤ signed negative m ∧ signed negative m < 2 ^ 63 := by
      cases negative
      · simp [signed]
      · simp [signed]
        omega
    simp only [range] at integer
    simp only [Amount.IsInteger]
    by_cases inRange : -2 ^ 63 ≤ signed negative m ∧ signed negative m < 2 ^ 63
    · rw [if_pos inRange] at integer
      refine ⟨.int (if negative then -Int64.ofNat m else Int64.ofNat m), ?_, fun n => ?_⟩
      · rw [Script.Numeral.signed?, integer]
      · have least := n.le_toInt
        have greatest := n.toInt_lt
        rw [if_pos inRange, Script.Value.toInteger?, Option.some.injEq, eq_comm,
          ← isInteger_bits_iff, Amount.IsInteger, Int.ModEq]
        omega
    · rw [if_neg inRange] at integer
      simp only [if_neg inRange]
      exact signed?_of_float (.whole nonempty run) integer
  | real mantissa exponent float =>
    rw [decimal?_of_float exponent float, Option.bind_none] at integer
    exact signed?_of_float (.real mantissa exponent float) integer

theorem unsigned_of_marked {x : Char} (mark : x ∈ ['x', 'X']) (negative : Bool) (cs : List Char) :
    Script.Numeral.unsignedInt? negative ('0' :: x :: cs) =
      (Digits.hexadecimal? cs).map Int64.ofNat ∧
    Script.Numeral.unsignedFloat? ('0' :: x :: cs) = Script.Numeral.hexFloat? cs := by
  have wrapped : (fun n => Int64.ofNat (n % UInt64.size)) = Int64.ofNat :=
    funext fun n => Int64.toBitVec_inj.mp (BitVec.eq_of_toNat_eq (by simp [UInt64.size]))
  rw [← wrapped]
  obtain rfl | rfl : x = 'x' ∨ x = 'X' := by simpa using mark
  all_goals exact ⟨rfl, rfl⟩

theorem signed?_of_hexadecimal {cs : List Char} {x : Char} {a : Amount} (mark : x ∈ ['x', 'X'])
    (h : HexadecimalNumeral cs a) (negative : Bool) :
    ∃ v, Script.Numeral.signed? negative ('0' :: x :: cs) = some v ∧
      ∀ n, v.toInteger? = some n ↔ a.IsInteger negative n := by
  obtain ⟨integer, float⟩ := unsigned_of_marked mark negative cs
  rw [Script.Numeral.signed?, integer, float]
  cases h with
  | @bits _ m nonempty run =>
    rw [hexadecimal?_eq_some_iff.mpr ⟨nonempty, run⟩]
    refine ⟨_, rfl, fun n => ?_⟩
    rw [Script.Value.toInteger?, Option.some.injEq, eq_comm, isInteger_bits_iff]
  | @real ms es n places e mantissa exponent point =>
    have noDigits : Digits.hexadecimal? (ms ++ es) = none :=
      Option.eq_none_iff_forall_ne_some.mpr fun k read =>
        (HexadecimalNumeral.real mantissa exponent point).not_run
          (hexadecimal?_eq_some_iff.mp read).2
    rw [noDigits, hexFloat?_eq_some_iff.mpr ⟨ms, es, n, places, e, rfl, mantissa, exponent, rfl⟩]
    refine ⟨_, rfl, fun k => ?_⟩
    rw [toInteger?_num, floatToInteger?_signed_eq_some_iff (roundsTo_ofDyadic n _)]
    rfl

/-- Without point and exponent, a mantissa is a run of digits. -/
theorem Mantissa.run_or_float {b n places : ℕ} {value? : Char → Option ℕ} {marks ms es : List Char}
    {e : ℤ} (mantissa : Mantissa b value? ms n places) (exponent : Exponent marks es e) :
    (ms ++ es ≠ [] ∧ Run b value? (ms ++ es) n) ∨ '.' ∈ ms ∨ es ≠ [] := by
  rcases mantissa.whole_or_point with ⟨run, -⟩ | point
  · cases es with
    | nil => exact .inl (by simpa using ⟨mantissa.ne_nil, run⟩)
    | cons => exact .inr (.inr (by simp))
  · exact .inr (.inl point)

/-- Only numerals are read. -/
theorem exists_numeral_of_signed? {negative : Bool} {cs : List Char} {v : Script.Value}
    (read : Script.Numeral.signed? negative cs = some v) :
    (∃ a, DecimalNumeral cs a) ∨
      ∃ x ∈ ['x', 'X'], ∃ ds a, cs = '0' :: x :: ds ∧ HexadecimalNumeral ds a := by
  by_cases marked : ∃ x ∈ ['x', 'X'], ∃ rest, cs = '0' :: x :: rest
  · obtain ⟨x, mark, ds, rfl⟩ := marked
    refine .inr ⟨x, mark, ds, ?_⟩
    obtain ⟨integer, float⟩ := unsigned_of_marked mark negative ds
    cases digits : Digits.hexadecimal? ds with
    | some m =>
      obtain ⟨nonempty, run⟩ := hexadecimal?_eq_some_iff.mp digits
      exact ⟨_, rfl, .bits nonempty run⟩
    | none =>
      rw [Script.Numeral.signed?, integer, float, digits] at read
      obtain ⟨x, read, -⟩ := Option.map_eq_some_iff.mp read
      obtain ⟨ms, es, n, places, e, rfl, mantissa, exponent, -⟩ := hexFloat?_eq_some_iff.mp read
      rcases mantissa.run_or_float exponent with run | point
      · rw [hexadecimal?_eq_some_iff.mpr run] at digits
        exact absurd digits nofun
      · exact ⟨_, rfl, .real mantissa exponent point⟩
  · left
    have unmarked : ∀ x ∈ ['x', 'X'], ∀ rest, cs ≠ '0' :: x :: rest := fun x mark rest eq =>
      marked ⟨x, mark, rest, eq⟩
    obtain ⟨integer, float⟩ := unsigned_of_unmarked unmarked negative
    cases digits : Digits.decimal? cs with
    | some m =>
      obtain ⟨nonempty, run⟩ := decimal?_eq_some_iff.mp digits
      exact ⟨_, .whole nonempty run⟩
    | none =>
      rw [digits, Option.bind_none] at integer
      rw [Script.Numeral.signed?, integer, float] at read
      obtain ⟨x, read, -⟩ := Option.map_eq_some_iff.mp read
      obtain ⟨d, read, -⟩ := Option.map_eq_some_iff.mp read
      obtain ⟨a, numeral, -⟩ := exists_decimalNumeral_iff read
      exact ⟨a, numeral⟩

theorem sign_eq (cs : List Char) : Script.Numeral.sign cs = splitSign cs :=
  rfl

/-- A numeral with its sign is read as what it stands for. -/
theorem ScriptNumeral.signed? {t : List Char} {negative : Bool} {a : Amount}
    (h : ScriptNumeral t negative a) :
    ∃ v, Script.Numeral.signed? (splitSign t).1 (splitSign t).2 = some v ∧
      ∀ n, v.toInteger? = some n ↔ a.IsInteger negative n := by
  cases h with
  | decimal signed numeral =>
    rw [splitSign_append signed numeral.bare]
    exact signed?_of_decimal numeral negative
  | hexadecimal signed mark numeral =>
    rw [splitSign_append signed (by simp)]
    exact signed?_of_hexadecimal mark numeral negative

theorem exists_scriptNumeral_of_signed? {t : List Char} {v : Script.Value}
    (read : Script.Numeral.signed? (splitSign t).1 (splitSign t).2 = some v) :
    ∃ negative a, ScriptNumeral t negative a := by
  obtain ⟨sign, negative, cs, rfl, signed, split⟩ := exists_splitSign t
  rw [split] at read
  obtain ⟨a, numeral⟩ | ⟨x, mark, ds, a, rfl, numeral⟩ := exists_numeral_of_signed? read
  · exact ⟨negative, a, .decimal signed numeral⟩
  · exact ⟨negative, a, .hexadecimal signed mark numeral⟩

theorem Visible.not_space {c : Char} (h : Visible c) : Script.Numeral.isSpace c = false := by
  rw [← Bool.not_eq_true]
  exact fun space => absurd (isBlank_of_isSpace space) (by simp [h.not_blank])

/-- A numeral is read with white space around it. -/
theorem read?_of_padded {s : Bytes} {t : List Char} {negative : Bool} {a : Amount}
    (padded : Padded Script.Numeral.isSpace s.toChars t) (numeral : ScriptNumeral t negative a) :
    ∃ v, Script.Numeral.read? s = some v ∧ ∀ n, v.toInteger? = some n ↔ a.IsInteger negative n := by
  have trimmed : Script.Numeral.trim s.toChars = t :=
    strip_of_padded padded fun c member => (numeral.visible c member).not_space
  rw [Script.Numeral.read?, trimmed, sign_eq]
  exact numeral.signed?

theorem exists_padded_of_read? {s : Bytes} {v : Script.Value}
    (read : Script.Numeral.read? s = some v) :
    ∃ t negative a, Padded Script.Numeral.isSpace s.toChars t ∧ ScriptNumeral t negative a := by
  obtain ⟨negative, a, numeral⟩ := exists_scriptNumeral_of_signed? read
  exact ⟨_, negative, a, padded_strip Script.Numeral.isSpace s.toChars, numeral⟩

/-- Scripts convert a string to a number if it is numeric. -/
theorem isSome_read?_iff (s : Bytes) : (Script.Numeral.read? s).isSome ↔ IsNumeric s.toChars := by
  rw [Option.isSome_iff_exists]
  constructor
  · rintro ⟨v, read⟩
    exact exists_padded_of_read? read
  · rintro ⟨t, negative, a, padded, numeral⟩
    obtain ⟨v, read, -⟩ := read?_of_padded padded numeral
    exact ⟨v, read⟩

/-- Scripts convert a string to a number that is exactly `n`, if it reads so. -/
theorem integer_read?_iff (s : Bytes) (n : Int64) :
    (Script.Numeral.read? s).bind Script.Value.toInteger? = some n ↔ ScriptReads s.toChars n := by
  rw [Option.bind_eq_some_iff]
  constructor
  · rintro ⟨v, read, value⟩
    obtain ⟨t, negative, a, padded, numeral⟩ := exists_padded_of_read? read
    obtain ⟨v', read', integer⟩ := read?_of_padded padded numeral
    obtain rfl := Option.some.inj (read.symm.trans read')
    exact ⟨t, negative, a, padded, numeral, (integer n).mp value⟩
  · rintro ⟨t, negative, a, padded, numeral, integer⟩
    obtain ⟨v, read, value⟩ := read?_of_padded padded numeral
    exact ⟨v, read, (value n).mpr integer⟩

theorem IsNumeric.ascii {cs : List Char} (h : IsNumeric cs) : ∀ c ∈ cs, c.toNat < 0x80 := by
  have space {c : Char} (blank : Script.Numeral.isSpace c = true) : c.toNat < 0x80 := by
    rcases isSpace_iff.mp blank with rfl | range
    · decide
    · omega
  obtain ⟨t, negative, a, ⟨w, w', rfl, before, behind⟩, numeral⟩ := h
  intro c member
  rcases List.mem_append.mp member with member | member
  · rcases List.mem_append.mp member with member | member
    · exact space (before c member)
    · exact (numeral.visible c member).2.trans (by decide)
  · exact space (behind c member)

theorem ScriptReads.isNumeric {cs : List Char} {n : Int64} (h : ScriptReads cs n) :
    IsNumeric cs := by
  obtain ⟨t, negative, a, padded, numeral, -⟩ := h
  exact ⟨t, negative, a, padded, numeral⟩

end CardBridge.Numerals
