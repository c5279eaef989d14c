import CardBridge.Coercion
import Mathlib.Data.Bool.AllAny
import Mathlib.Data.List.Induction
import Mathlib.Data.Rat.Defs

/-!
# How numerals are written

The grammar of numerals as relations between a text and what it stands for: runs of digits,
mantissas with a point or without, exponents. For each reader there is one theorem that says it
reads exactly what the grammar derives.
-/

namespace CardBridge.Numerals

/-! ## Runs of digits -/

/-- Digits in base `b`, and what they are worth together. -/
inductive Run (b : ℕ) (value? : Char → Option ℕ) : List Char → ℕ → Prop
  | nil : Run b value? [] 0
  | snoc {cs : List Char} {n : ℕ} {c : Char} {d : ℕ} :
      Run b value? cs n → value? c = some d → Run b value? (cs ++ [c]) (n * b + d)

abbrev DecimalRun : List Char → ℕ → Prop :=
  Run 10 Digits.decimalValue?

abbrev HexadecimalRun : List Char → ℕ → Prop :=
  Run 16 Digits.hexadecimalValue?

section Run

variable {b : ℕ} {value? : Char → Option ℕ} {cs ds : List Char} {m n : ℕ}

theorem readFrom_append : Digits.readFrom b value? m (cs ++ ds) =
    (Digits.readFrom b value? m cs).bind fun n => Digits.readFrom b value? n ds := by
  induction cs generalizing m with
  | nil => rfl
  | cons c cs ih =>
    rw [List.cons_append, Digits.readFrom, Digits.readFrom]
    cases value? c with
    | none => rfl
    | some d => exact ih

theorem readFrom_eq_some_iff : Digits.readFrom b value? 0 cs = some n ↔ Run b value? cs n := by
  constructor
  · intro read
    induction cs using List.reverseRecOn generalizing n with
    | nil =>
      obtain rfl := Option.some.inj read
      exact .nil
    | append_singleton cs c ih =>
      rw [readFrom_append, Option.bind_eq_some_iff] at read
      obtain ⟨m, before, last⟩ := read
      rw [Digits.readFrom] at last
      cases digit : value? c <;> rw [digit] at last
      · exact absurd last nofun
      · obtain rfl := Option.some.inj last
        exact .snoc (ih before) digit
  · intro run
    induction run with
    | nil => rfl
    | snoc _ digit ih =>
      rw [readFrom_append, ih, Option.bind_some, Digits.readFrom, digit]
      rfl

theorem Run.isSome (run : Run b value? cs n) : ∀ c ∈ cs, (value? c).isSome := by
  induction run with
  | nil => simp
  | snoc _ digit ih =>
    intro c member
    rcases List.mem_append.mp member with member | member
    · exact ih c member
    · rw [List.mem_singleton.mp member, digit]
      rfl

theorem exists_run (digits : ∀ c ∈ cs, (value? c).isSome) : ∃ n, Run b value? cs n := by
  induction cs using List.reverseRecOn with
  | nil => exact ⟨0, .nil⟩
  | append_singleton cs c ih =>
    obtain ⟨n, run⟩ := ih fun c member => digits c (List.mem_append_left _ member)
    obtain ⟨d, digit⟩ := Option.isSome_iff_exists.mp (digits c (by simp))
    exact ⟨n * b + d, run.snoc digit⟩

theorem Run.unique (run : Run b value? cs m) (run' : Run b value? cs n) : m = n :=
  Option.some.inj ((readFrom_eq_some_iff.mpr run).symm.trans (readFrom_eq_some_iff.mpr run'))

end Run

theorem decimal?_eq_some_iff {cs : List Char} {n : ℕ} :
    Digits.decimal? cs = some n ↔ cs ≠ [] ∧ DecimalRun cs n := by
  rw [DecimalRun, ← readFrom_eq_some_iff]
  cases cs <;> simp [Digits.decimal?]

theorem hexadecimal?_eq_some_iff {cs : List Char} {n : ℕ} :
    Digits.hexadecimal? cs = some n ↔ cs ≠ [] ∧ HexadecimalRun cs n := by
  rw [HexadecimalRun, ← readFrom_eq_some_iff]
  cases cs <;> simp [Digits.hexadecimal?]

/-! ## Signs, exponents and mantissas -/

/-- A sign or none, and whether it is a minus. -/
inductive Sign : List Char → Bool → Prop
  | none : Sign [] false
  | plus : Sign ['+'] false
  | minus : Sign ['-'] true

/-- An exponent after one of the marks, or none. -/
inductive Exponent (marks : List Char) : List Char → ℤ → Prop
  | none : Exponent marks [] 0
  | some {c : Char} {sign ds : List Char} {negative : Bool} {n : ℕ} :
      c ∈ marks → Sign sign negative → ds ≠ [] → DecimalRun ds n →
        Exponent marks (c :: (sign ++ ds)) (Binary64.signed negative n)

/-- Digits with a point among them or without, what they are worth without the point, and how many
of them stand after it. -/
inductive Mantissa (b : ℕ) (value? : Char → Option ℕ) : List Char → ℕ → ℕ → Prop
  | whole {cs : List Char} {n : ℕ} : cs ≠ [] → Run b value? cs n → Mantissa b value? cs n 0
  | pointed {cs ds : List Char} {n : ℕ} :
      cs ++ ds ≠ [] → Run b value? (cs ++ ds) n → Mantissa b value? (cs ++ '.' :: ds) n ds.length

theorem splitSign_of_bare {cs : List Char} (bare : cs.head? ≠ some '+' ∧ cs.head? ≠ some '-') :
    splitSign cs = (false, cs) := by
  unfold splitSign
  split
  · exact absurd rfl bare.2
  · exact absurd rfl bare.1
  · rfl

/-- One sign is taken off. -/
theorem splitSign_append {sign cs : List Char} {negative : Bool} (h : Sign sign negative)
    (bare : cs.head? ≠ some '+' ∧ cs.head? ≠ some '-') :
    splitSign (sign ++ cs) = (negative, cs) := by
  cases h with
  | none => exact splitSign_of_bare bare
  | plus => rfl
  | minus => rfl

theorem exists_splitSign (cs : List Char) :
    ∃ sign negative rest, cs = sign ++ rest ∧ Sign sign negative ∧
      splitSign cs = (negative, rest) := by
  unfold splitSign
  split
  · exact ⟨['-'], true, _, rfl, .minus, rfl⟩
  · exact ⟨['+'], false, _, rfl, .plus, rfl⟩
  · exact ⟨[], false, _, rfl, .none, rfl⟩

theorem exponent?_eq (cs : List Char) : Decimal.exponent? cs =
    (Digits.decimal? (splitSign cs).2).map (Binary64.signed (splitSign cs).1 ·) := by
  unfold Decimal.exponent?
  split
  · rfl
  case h_2 cs =>
    change _ = (Digits.decimal? cs).map fun n : ℕ => -(n : ℤ)
    cases Digits.decimal? cs <;> rfl
  case h_3 plus minus =>
    rw [splitSign_of_bare ⟨?_, ?_⟩]
    · rfl
    · intro head
      obtain ⟨rest, rfl⟩ := List.head?_eq_some_iff.mp head
      exact plus rest rfl
    · intro head
      obtain ⟨rest, rfl⟩ := List.head?_eq_some_iff.mp head
      exact minus rest rfl

theorem decimalRun_bare {cs : List Char} {n : ℕ} (run : DecimalRun cs n) :
    cs.head? ≠ some '+' ∧ cs.head? ≠ some '-' := by
  have digits := run.isSome
  constructor <;> intro head <;> exact absurd (digits _ (List.mem_of_mem_head? head)) (by decide)

/-- An exponent is read after its mark. -/
theorem exponent_iff {marks cs : List Char} {e : ℤ} :
    Exponent marks cs e ↔ cs = [] ∧ e = 0 ∨
      ∃ c ∈ marks, ∃ rest, cs = c :: rest ∧ Decimal.exponent? rest = some e := by
  constructor
  · intro h
    cases h with
    | none => exact .inl ⟨rfl, rfl⟩
    | some mark sign nonempty run =>
      refine .inr ⟨_, mark, _, rfl, ?_⟩
      rw [exponent?_eq, splitSign_append sign (decimalRun_bare run),
        decimal?_eq_some_iff.mpr ⟨nonempty, run⟩]
      rfl
  · rintro (⟨rfl, rfl⟩ | ⟨c, mark, rest, rfl, read⟩)
    · exact .none
    · rw [exponent?_eq, Option.map_eq_some_iff] at read
      obtain ⟨n, digits, rfl⟩ := read
      obtain ⟨nonempty, run⟩ := decimal?_eq_some_iff.mp digits
      obtain ⟨sign, negative, ds, rfl, signed, split⟩ := exists_splitSign rest
      rw [split] at nonempty run ⊢
      exact .some mark signed nonempty run

theorem Sign.mem {sign : List Char} {negative : Bool} (h : Sign sign negative) :
    ∀ c ∈ sign, c ∈ ['+', '-'] := by
  cases h <;> simp

/-- Every character of an exponent is its mark, a sign or a digit. -/
theorem Exponent.chars {marks cs : List Char} {e : ℤ} (h : Exponent marks cs e) :
    ∀ c ∈ cs, (Digits.decimalValue? c).isSome ∨ c ∈ marks ++ ['+', '-'] := by
  intro c member
  cases h with
  | none => exact absurd member List.not_mem_nil
  | some mark sign _ run =>
    rcases List.mem_cons.mp member with rfl | member
    · exact .inr (List.mem_append_left _ mark)
    · exact (List.mem_append.mp member).symm.imp (run.isSome c) fun member =>
        List.mem_append_right _ (sign.mem c member)

/-- What is taken is what satisfies the test, up to the first character that does not. -/
theorem span_append {p : Char → Bool} {cs : List Char} (ds : List Char)
    (inside : ∀ c ∈ cs, p c = true) (boundary : ∀ c ∈ ds.head?, p c = false) :
    (cs ++ ds).takeWhile p = cs ∧ (cs ++ ds).dropWhile p = ds := by
  rw [List.takeWhile_append_of_pos inside, List.dropWhile_append_of_pos inside]
  cases ds with
  | nil => simp
  | cons d ds => simp [boundary d rfl]

theorem exists_span (p : Char → Bool) (cs : List Char) :
    ∃ taken rest, cs = taken ++ rest ∧ cs.takeWhile p = taken ∧ cs.dropWhile p = rest ∧
      (∀ c ∈ taken, p c = true) ∧ ∀ c ∈ rest.head?, p c = false := by
  refine ⟨_, _, List.takeWhile_append_dropWhile.symm, rfl, rfl,
    List.all_eq_true.mp List.all_takeWhile, fun c head => ?_⟩
  have stops := List.head?_dropWhile_not p cs
  rwa [Option.mem_def.mp head] at stops

theorem decimalValue_eq {cs : List Char} {n : ℕ} (run : DecimalRun cs n) :
    Digits.decimalValue cs = n := by
  rw [Digits.decimalValue, readFrom_eq_some_iff.mpr run, Option.getD_some]

/-- A mantissa is its digits before the first other character, which is a point if there is one, and
the digits behind it. -/
theorem mantissa_iff {b : ℕ} {value? : Char → Option ℕ} (noDigit : value? '.' = none)
    {cs whole after : List Char} {n places : ℕ}
    (taken : cs.takeWhile (fun c => (value? c).isSome) = whole)
    (dropped : cs.dropWhile (fun c => (value? c).isSome) = after) :
    Mantissa b value? cs n places ↔ after = [] ∧ places = 0 ∧ whole ≠ [] ∧ Run b value? whole n ∨
      ∃ rest, after = '.' :: rest ∧ places = rest.length ∧ whole ++ rest ≠ [] ∧
        Run b value? (whole ++ rest) n := by
  constructor
  · intro h
    cases h with
    | whole nonempty run =>
      have ends := span_append (p := fun c => (value? c).isSome) [] run.isSome (by simp)
      rw [List.append_nil, taken, dropped] at ends
      obtain ⟨rfl, rfl⟩ := ends
      exact .inl ⟨rfl, rfl, nonempty, run⟩
    | @pointed before rest n nonempty run =>
      have ends := span_append (p := fun c => (value? c).isSome) ('.' :: rest)
        (fun c member => run.isSome c (List.mem_append_left rest member)) (by simp [noDigit])
      rw [taken, dropped] at ends
      obtain ⟨rfl, rfl⟩ := ends
      exact .inr ⟨rest, rfl, rfl, nonempty, run⟩
  · have split : cs = whole ++ after := by rw [← taken, ← dropped, List.takeWhile_append_dropWhile]
    rintro (⟨rfl, rfl, nonempty, run⟩ | ⟨rest, rfl, rfl, nonempty, run⟩)
    · rw [split, List.append_nil]
      exact .whole nonempty run
    · rw [split]
      exact .pointed nonempty run

/-- A mantissa is read if it is one. -/
theorem mantissa?_eq_some_iff {cs : List Char} {d : Decimal} :
    Decimal.mantissa? cs = some d ↔
      ∃ n places, Mantissa 10 Digits.decimalValue? cs n places ∧ d = ⟨n, -(places : ℤ)⟩ := by
  obtain ⟨whole, after, -, taken, dropped, digits, -⟩ := exists_span Digits.isDecimal cs
  simp only [mantissa_iff (by decide) taken dropped]
  rw [Decimal.mantissa?, taken, dropped]
  constructor
  · intro read
    match after with
    | [] =>
      obtain ⟨n, run⟩ := exists_run (b := 10) digits
      simp only [List.isEmpty_iff, Option.ite_none_left_eq_some, Option.some.injEq] at read
      obtain ⟨nonempty, rfl⟩ := read
      rw [decimalValue_eq run]
      exact ⟨n, 0, .inl ⟨rfl, rfl, nonempty, run⟩, rfl⟩
    | c :: rest =>
      by_cases point : c = '.'
      · subst point
        simp only [Option.ite_none_right_eq_some, Option.some.injEq, Bool.and_eq_true,
          List.all_eq_true] at read
        obtain ⟨⟨places, nonempty⟩, rfl⟩ := read
        have digits : ∀ c ∈ whole ++ rest, (Digits.decimalValue? c).isSome := fun c member =>
          (List.mem_append.mp member).elim (digits c) (places c)
        obtain ⟨n, run⟩ := exists_run (b := 10) digits
        have nonempty : whole ++ rest ≠ [] := fun empty => by
          simp [List.append_eq_nil_iff.mp empty] at nonempty
        rw [decimalValue_eq run]
        exact ⟨n, rest.length, .inr ⟨rest, rfl, rfl, nonempty, run⟩, rfl⟩
      · simp [point] at read
  · rintro ⟨n, places, ⟨rfl, rfl, nonempty, run⟩ | ⟨rest, rfl, rfl, nonempty, run⟩, rfl⟩
    · simp [nonempty, decimalValue_eq run]
    · have places : rest.all Digits.isDecimal = true :=
        List.all_eq_true.mpr fun c member => run.isSome c (List.mem_append_right whole member)
      simp only [places, decimalValue_eq run]
      simpa using nonempty

theorem Mantissa.ne_nil {b : ℕ} {value? : Char → Option ℕ} {cs : List Char} {n places : ℕ}
    (h : Mantissa b value? cs n places) : cs ≠ [] := by
  cases h with
  | whole nonempty => exact nonempty
  | pointed => simp

/-- Every character of a mantissa is a digit or the point. -/
theorem Mantissa.isSome {b : ℕ} {value? : Char → Option ℕ} {cs : List Char} {n places : ℕ}
    (h : Mantissa b value? cs n places) : ∀ c ∈ cs, (value? c).isSome ∨ c = '.' := by
  intro c member
  cases h with
  | whole _ run => exact .inl (run.isSome c member)
  | pointed _ run =>
    rcases List.mem_append.mp member with before | after
    · exact .inl (run.isSome c (List.mem_append_left _ before))
    · exact (List.mem_cons.mp after).symm.imp_left fun after =>
        run.isSome c (List.mem_append_right _ after)

/-- The exponent after a mantissa, which is zero if there is none. -/
def exponentOr0? : List Char → Option ℤ
  | [] => some 0
  | _ :: cs => Decimal.exponent? cs

/-- A numeral with the mantissa up to the first mark and the exponent from there. -/
def numeral? {α β : Type} (isMark : Char → Bool) (mantissa? : List Char → Option α)
    (join : α → ℤ → β) (cs : List Char) : Option β :=
  (mantissa? (cs.takeWhile fun c => !isMark c)).bind fun m =>
    (exponentOr0? (cs.dropWhile fun c => !isMark c)).map (join m)

theorem exponent_iff_exponentOr0? {marks cs : List Char} {e : ℤ} :
    Exponent marks cs e ↔ exponentOr0? cs = some e ∧ ∀ c ∈ cs.head?, c ∈ marks := by
  rw [exponent_iff]
  cases cs with
  | nil => simp [exponentOr0?, eq_comm]
  | cons c cs => simp [exponentOr0?, and_comm]

/-- A numeral is read so if no mark stands in its mantissa. -/
theorem numeral?_eq_some_iff {α β : Type} {marks cs : List Char} {isMark : Char → Bool}
    {mantissa? : List Char → Option α} {join : α → ℤ → β} {x : β}
    (known : ∀ c, isMark c = true ↔ c ∈ marks)
    (bare : ∀ ms m, mantissa? ms = some m → ∀ c ∈ ms, c ∉ marks) :
    numeral? isMark mantissa? join cs = some x ↔
    ∃ ms es m e, cs = ms ++ es ∧ mantissa? ms = some m ∧
      Exponent marks es e ∧ x = join m e := by
  have marked (c : Char) : (!isMark c) = false ↔ c ∈ marks := by rw [Bool.not_eq_false', known]
  constructor
  · intro read
    obtain ⟨ms, es, split, taken, dropped, -, boundary⟩ := exists_span (fun c => !isMark c) cs
    rw [numeral?, taken, dropped] at read
    obtain ⟨m, mantissa, read⟩ := Option.bind_eq_some_iff.mp read
    obtain ⟨e, exponent, rfl⟩ := Option.map_eq_some_iff.mp read
    have starts : ∀ c ∈ es.head?, c ∈ marks := fun c head => (marked c).mp (boundary c head)
    exact ⟨ms, es, m, e, split, mantissa, exponent_iff_exponentOr0?.mpr ⟨exponent, starts⟩, rfl⟩
  · rintro ⟨ms, es, m, e, rfl, mantissa, exponent, rfl⟩
    obtain ⟨exponent, starts⟩ := exponent_iff_exponentOr0?.mp exponent
    have inside : ∀ c ∈ ms, (!isMark c) = true := fun c member =>
      Bool.of_not_eq_false fun mark => bare ms m mantissa c member ((marked c).mp mark)
    obtain ⟨taken, dropped⟩ := span_append (p := fun c => !isMark c) es inside
      fun c head => (marked c).mpr (starts c head)
    rw [numeral?, taken, dropped, mantissa, exponent]
    rfl

theorem read?_eq (cs : List Char) : Decimal.read? cs =
    numeral? (fun c => c == 'e' || c == 'E') Decimal.mantissa?
      (fun m n => { m with exponent := m.exponent + n }) cs := by
  rw [Decimal.read?, numeral?]
  cases Decimal.mantissa? (cs.takeWhile fun c => !(c == 'e' || c == 'E')) with
  | none => rfl
  | some m => cases cs.dropWhile fun c => !(c == 'e' || c == 'E') <;> simp [exponentOr0?]

/-- A decimal numeral is read if it is one: a mantissa and an exponent. -/
theorem read?_eq_some_iff {cs : List Char} {d : Decimal} :
    Decimal.read? cs = some d ↔ ∃ ms es n places e, cs = ms ++ es ∧
      Mantissa 10 Digits.decimalValue? ms n places ∧ Exponent ['e', 'E'] es e ∧
        d = ⟨n, -(places : ℤ) + e⟩ := by
  have known (c : Char) : (c == 'e' || c == 'E') = true ↔ c ∈ ['e', 'E'] := by simp
  have noDigit : ∀ c ∈ ['e', 'E'], ¬ ((Digits.decimalValue? c).isSome ∨ c = '.') :=
    List.all_iff_forall_prop.mp (by decide)
  have bare (ms : List Char) (m : Decimal) (read : Decimal.mantissa? ms = some m) :
      ∀ c ∈ ms, c ∉ ['e', 'E'] := by
    obtain ⟨n, places, mantissa, -⟩ := mantissa?_eq_some_iff.mp read
    exact fun c member mark => noDigit c mark (mantissa.isSome c member)
  rw [read?_eq, numeral?_eq_some_iff known bare]
  constructor
  · rintro ⟨ms, es, m, e, split, read, exponent, rfl⟩
    obtain ⟨n, places, mantissa, rfl⟩ := mantissa?_eq_some_iff.mp read
    exact ⟨ms, es, n, places, e, split, mantissa, exponent, rfl⟩
  · rintro ⟨ms, es, n, places, e, split, mantissa, exponent, rfl⟩
    exact ⟨ms, es, _, e, split, mantissa?_eq_some_iff.mpr ⟨n, places, mantissa, rfl⟩, exponent, rfl⟩

end CardBridge.Numerals
