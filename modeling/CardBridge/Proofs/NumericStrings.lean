import CardBridge.Proofs.ScriptNumerals

/-!
# Texts read as integers

What scripts take for a number in a text (`ScriptReads`), against what the engine reads as an
integer.
-/

namespace CardBridge.Numerals

open Binary64

/-! ## What the engine reads -/

/-- Without the mark of hexadecimal numerals, an integer is tried and then a float. -/
theorem parseTrimmed?_of_unmarked {sign cs : List Char} {negative : Bool}
    (signed : Sign sign negative) (split : splitSign (sign ++ cs) = (negative, cs))
    (unmarked : ∀ x ∈ ['x', 'X'], ∀ rest, cs ≠ '0' :: x :: rest) :
    parseTrimmed? (sign ++ cs) =
      (parseDecimal? (sign ++ cs)).or ((parseFloat? (sign ++ cs)).bind floatToInteger?) := by
  have noMark : ∀ x ∈ ['x', 'X'], ∀ rest, (splitMinus (sign ++ cs)).2 ≠ '0' :: x :: rest := by
    intro x mark rest
    cases signed with
    | minus => exact unmarked x mark rest
    | plus => simp [splitMinus]
    | none =>
      rw [List.nil_append] at split ⊢
      unfold splitMinus
      split
      case h_1 => exact absurd (congrArg Prod.fst split) (by simp [splitSign])
      case h_2 => exact unmarked x mark rest
  unfold parseTrimmed?
  cases parseDecimal? (sign ++ cs) with
  | some n => rfl
  | none =>
    dsimp only
    split
    case h_1 marked => exact absurd marked (noMark 'x' (by simp) _)
    case h_2 marked => exact absurd marked (noMark 'X' (by simp) _)
    case h_3 => rfl

theorem parseDecimal?_of_marked {sign cs : List Char} {x : Char} {negative : Bool}
    (signed : Sign sign negative) (mark : x ∈ ['x', 'X']) :
    parseDecimal? (sign ++ '0' :: x :: cs) = none := by
  have noDigits : Digits.decimal? ('0' :: x :: cs) = none := by
    refine Option.eq_none_iff_forall_ne_some.mpr fun n read => ?_
    have noDigit : ∀ x ∈ ['x', 'X'], ¬ (Digits.decimalValue? x).isSome :=
      List.all_iff_forall_prop.mp (by decide)
    exact noDigit x mark ((decimal?_eq_some_iff.mp read).2.isSome x (by simp))
  rw [parseDecimal?, splitSign_append signed (by simp)]
  dsimp only
  rw [noDigits]

/-- Hexadecimal digits are read after the mark, and a minus sign before it negates. -/
theorem parseTrimmed?_of_marked {sign cs : List Char} {x : Char} {negative : Bool}
    (signed : Sign sign negative) (noPlus : sign ≠ ['+']) (mark : x ∈ ['x', 'X']) :
    parseTrimmed? (sign ++ '0' :: x :: cs) =
      (parseHexDigits? cs).map fun n => if negative then -n else n := by
  unfold parseTrimmed?
  rw [parseDecimal?_of_marked signed mark]
  cases signed with
  | plus => exact absurd rfl noPlus
  | none => obtain rfl | rfl : x = 'x' ∨ x = 'X' := by simpa using mark
            all_goals rfl
  | minus => obtain rfl | rfl : x = 'x' ∨ x = 'X' := by simpa using mark
             all_goals rfl

/-- With a plus sign before the mark nothing is read. -/
theorem parseTrimmed?_of_plus {cs : List Char} {x : Char} (mark : x ∈ ['x', 'X']) :
    parseTrimmed? ('+' :: '0' :: x :: cs) = none := by
  have noFloat : Decimal.read? ('0' :: x :: cs) = none := by
    refine Option.eq_none_iff_forall_ne_some.mpr fun d read => ?_
    obtain ⟨a, numeral, -⟩ := exists_decimalNumeral_iff read
    exact not_mem_decimal mark numeral (by simp)
  unfold parseTrimmed?
  rw [show '+' :: '0' :: x :: cs = ['+'] ++ '0' :: x :: cs from rfl,
    parseDecimal?_of_marked .plus mark]
  change (parseFloat? ('+' :: '0' :: x :: cs)).bind floatToInteger? = none
  rw [parseFloat?]
  change ((Decimal.read? ('0' :: x :: cs)).map _).bind floatToInteger? = none
  rw [noFloat]
  rfl

theorem parseFloat?_bind_eq_some_iff {sign cs : List Char} {negative : Bool} {a : Amount}
    {n : Int64} (signed : Sign sign negative) (h : DecimalNumeral cs a) :
    (parseFloat? (sign ++ cs)).bind floatToInteger? = some n ↔
      Nearest (withSign negative a.value) n.toInt := by
  obtain ⟨d, read, value⟩ := h.read?
  rw [parseFloat?, splitSign_append signed h.bare]
  dsimp only
  rw [read, Option.map_some, Option.bind_some, value]
  exact floatToInteger?_signed_eq_some_iff d.roundsTo_toFloat negative

/-- A decimal numeral is read as the integer that it is exactly, and as none if it is none. -/
theorem parseTrimmed?_of_decimal {sign cs : List Char} {negative : Bool} {a : Amount} {n : Int64}
    (signed : Sign sign negative) (h : DecimalNumeral cs a) :
    parseTrimmed? (sign ++ cs) = some n ↔ a.IsInteger negative n := by
  have unmarked : ∀ x ∈ ['x', 'X'], ∀ rest, cs ≠ '0' :: x :: rest := fun x mark rest marked =>
    not_mem_decimal mark h (by simp [marked])
  have split := splitSign_append signed h.bare
  have float := parseFloat?_bind_eq_some_iff (n := n) signed h
  rw [parseTrimmed?_of_unmarked signed split unmarked, parseDecimal?, split]
  dsimp only
  cases h with
  | @whole _ m nonempty run =>
    rw [decimal?_eq_some_iff.mpr ⟨nonempty, run⟩]
    change (narrow? (Binary64.signed negative m)).or _ = some n ↔ _
    rw [Amount.IsInteger]
    by_cases inRange : -2 ^ 63 ≤ Binary64.signed negative m ∧ Binary64.signed negative m < 2 ^ 63
    · have narrow : narrow? (Binary64.signed negative m) = some _ := if_pos inRange
      rw [if_pos inRange, ← narrow?_eq_some_iff, narrow, Option.some_or]
    · have wide : narrow? (Binary64.signed negative m) = none := if_neg inRange
      rw [if_neg inRange, wide, Option.none_or]
      exact float
  | real _ exponent marked =>
    rw [decimal?_of_float exponent marked, Option.none_or]
    exact float

/-- A hexadecimal integer of at most 64 bits, without a plus sign before the mark and with `plus`
after it. -/
inductive NarrowHexadecimal (plus : List Char) : List Char → Bool → ℕ → Prop
  | mk {sign ds : List Char} {x : Char} {negative : Bool} {n : ℕ} :
      Sign sign negative → sign ≠ ['+'] → x ∈ ['x', 'X'] → ds ≠ [] → HexadecimalRun ds n →
        n < 2 ^ 64 → NarrowHexadecimal plus (sign ++ '0' :: x :: (plus ++ ds)) negative n

/-- The numerals that scripts and the engine have in common. -/
inductive CommonNumeral : List Char → Bool → Amount → Prop
  | decimal {sign cs : List Char} {negative : Bool} {a : Amount} :
      Sign sign negative → DecimalNumeral cs a → CommonNumeral (sign ++ cs) negative a
  | hexadecimal {t : List Char} {negative : Bool} {n : ℕ} :
      NarrowHexadecimal [] t negative n → CommonNumeral t negative (.bits n)

/-- The numerals of scripts that the engine does not know: hexadecimal ones with a plus sign, those
of more than 64 bits, and hexadecimal floats. -/
inductive ScriptsAlone : List Char → Prop
  | plus {cs : List Char} {x : Char} {a : Amount} :
      x ∈ ['x', 'X'] → HexadecimalNumeral cs a → ScriptsAlone ('+' :: '0' :: x :: cs)
  | wide {sign cs : List Char} {x : Char} {negative : Bool} {n : ℕ} :
      Sign sign negative → x ∈ ['x', 'X'] → HexadecimalRun cs n → 2 ^ 64 ≤ n →
        ScriptsAlone (sign ++ '0' :: x :: cs)
  | float {sign cs : List Char} {x : Char} {negative : Bool} {q : ℚ} :
      Sign sign negative → x ∈ ['x', 'X'] → HexadecimalNumeral cs (.real q) →
        ScriptsAlone (sign ++ '0' :: x :: cs)

/-- What the engine reads and scripts do not: a plus sign after the mark, and white space around a
numeral that is none of the script language. -/
inductive EngineAlone (cs : List Char) (n : Int64) : Prop
  | plus {t : List Char} {negative : Bool} {m : ℕ} :
      Padded isBlank cs t → NarrowHexadecimal ['+'] t negative m →
        (Amount.bits m).IsInteger negative n → EngineAlone cs n
  | blank {t : List Char} {negative : Bool} {a : Amount} :
      Padded isBlank cs t → ¬ Padded Script.Numeral.isSpace cs t → CommonNumeral t negative a →
        a.IsInteger negative n → EngineAlone cs n

theorem ScriptNumeral.common_or_alone {t : List Char} {negative : Bool} {a : Amount}
    (h : ScriptNumeral t negative a) : CommonNumeral t negative a ∨ ScriptsAlone t := by
  cases h with
  | decimal signed numeral => exact .inl (.decimal signed numeral)
  | @hexadecimal sign cs x negative a signed mark numeral =>
    cases numeral with
    | @bits _ n nonempty run =>
      by_cases plus : sign = ['+']
      · subst plus
        exact .inr (.plus mark (.bits nonempty run))
      by_cases narrow : n < 2 ^ 64
      · exact .inl (.hexadecimal (.mk signed plus mark nonempty run narrow))
      · exact .inr (.wide signed mark run (not_lt.mp narrow))
    | real mantissa exponent float =>
      exact .inr (.float signed mark (.real mantissa exponent float))

theorem CommonNumeral.script {t : List Char} {negative : Bool} {a : Amount}
    (h : CommonNumeral t negative a) : ScriptNumeral t negative a := by
  cases h with
  | decimal signed numeral => exact .decimal signed numeral
  | hexadecimal narrow =>
    obtain ⟨signed, -, mark, nonempty, run, -⟩ := narrow
    exact .hexadecimal signed mark (.bits nonempty run)

theorem dropPlus_append {plus ds : List Char} (known : plus = [] ∨ plus = ['+'])
    (bare : ds.head? ≠ some '+') : dropPlus (plus ++ ds) = ds := by
  rcases known with rfl | rfl
  · rw [List.nil_append]
    unfold dropPlus
    split
    · exact absurd rfl bare
    · rfl
  · rfl

theorem exists_dropPlus (cs : List Char) :
    ∃ plus, (plus = [] ∨ plus = ['+']) ∧ cs = plus ++ dropPlus cs := by
  unfold dropPlus
  split
  · exact ⟨['+'], .inr rfl, rfl⟩
  · exact ⟨[], .inl rfl, rfl⟩

/-- Hexadecimal digits are read after a plus sign or without one. -/
theorem parseHexDigits?_eq_some_iff {cs : List Char} {n : Int64} :
    parseHexDigits? cs = some n ↔ ∃ plus ds m, cs = plus ++ ds ∧ (plus = [] ∨ plus = ['+']) ∧
      ds ≠ [] ∧ HexadecimalRun ds m ∧ m < 2 ^ 64 ∧ n = Int64.ofNat m := by
  rw [parseHexDigits?]
  constructor
  · intro read
    obtain ⟨plus, known, split⟩ := exists_dropPlus cs
    cases digits : Digits.hexadecimal? (dropPlus cs) with
    | none => simp [digits] at read
    | some m =>
      rw [digits] at read
      simp only [Option.ite_none_right_eq_some, Option.some.injEq] at read
      obtain ⟨nonempty, run⟩ := hexadecimal?_eq_some_iff.mp digits
      exact ⟨plus, _, m, split, known, nonempty, run, read.1, read.2.symm⟩
  · rintro ⟨plus, ds, m, rfl, known, nonempty, run, narrow, rfl⟩
    have bare : ds.head? ≠ some '+' := fun head =>
      absurd (run.isSome '+' (List.mem_of_mem_head? head)) (by decide)
    rw [dropPlus_append known bare, hexadecimal?_eq_some_iff.mpr ⟨nonempty, run⟩]
    exact if_pos narrow

theorem NarrowHexadecimal.visible {plus t : List Char} {negative : Bool} {n : ℕ}
    (h : NarrowHexadecimal plus t negative n) (known : plus = [] ∨ plus = ['+']) :
    ∀ c ∈ t, Visible c := by
  obtain ⟨signed, -, mark, -, run, -⟩ := h
  have plain : ∀ c ∈ plus, Visible c := by
    rcases known with rfl | rfl
    · simp
    · exact List.forall_mem_singleton.mpr (by decide)
  exact visible_of_marked signed mark fun c member =>
    (List.mem_append.mp member).elim (plain c) fun member =>
      visible_of_hexadecimal (run.isSome c member)

theorem CommonNumeral.visible {t : List Char} {negative : Bool} {a : Amount}
    (h : CommonNumeral t negative a) : ∀ c ∈ t, Visible c := by
  cases h with
  | decimal signed numeral => exact numeral.visible_append signed
  | hexadecimal narrow => exact narrow.visible (.inl rfl)

/-! ## What scripts and the engine read -/

theorem parseTrimmed?_of_narrow {plus t : List Char} {negative : Bool} {m : ℕ} {n : Int64}
    (known : plus = [] ∨ plus = ['+']) (h : NarrowHexadecimal plus t negative m) :
    parseTrimmed? t = some n ↔ (Amount.bits m).IsInteger negative n := by
  obtain @⟨sign, ds, x, negative, m, signed, noPlus, mark, nonempty, run, narrow⟩ := h
  have digits : parseHexDigits? (plus ++ ds) = some (Int64.ofNat m) :=
    parseHexDigits?_eq_some_iff.mpr ⟨plus, ds, m, rfl, known, nonempty, run, narrow, rfl⟩
  rw [parseTrimmed?_of_marked signed noPlus mark, digits, Option.map_some, Option.some.injEq,
    eq_comm, isInteger_bits_iff]

/-- The engine reads common numerals, and hexadecimal ones with a plus sign after the mark. -/
theorem parseTrimmed?_eq_some_iff {t : List Char} {n : Int64} :
    parseTrimmed? t = some n ↔
      (∃ negative a, CommonNumeral t negative a ∧ a.IsInteger negative n) ∨
        ∃ negative m, NarrowHexadecimal ['+'] t negative m ∧
        (Amount.bits m).IsInteger negative n := by
  constructor
  · intro read
    obtain ⟨sign, negative, cs, rfl, signed, split⟩ := exists_splitSign t
    by_cases marked : ∃ x ∈ ['x', 'X'], ∃ rest, cs = '0' :: x :: rest
    · obtain ⟨x, mark, rest, rfl⟩ := marked
      have noPlus : sign ≠ ['+'] := by
        rintro rfl
        rw [List.singleton_append, parseTrimmed?_of_plus mark] at read
        exact absurd read nofun
      rw [parseTrimmed?_of_marked signed noPlus mark, Option.map_eq_some_iff] at read
      obtain ⟨_, digits, value⟩ := read
      obtain ⟨plus, ds, m, rfl, known, nonempty, run, narrow, rfl⟩ :=
        parseHexDigits?_eq_some_iff.mp digits
      have integer := isInteger_bits_iff.mpr value.symm
      have narrow : NarrowHexadecimal plus _ negative m :=
        .mk signed noPlus mark nonempty run narrow
      rcases known with rfl | rfl
      · exact .inl ⟨negative, _, .hexadecimal narrow, integer⟩
      · exact .inr ⟨negative, m, narrow, integer⟩
    · have unmarked : ∀ x ∈ ['x', 'X'], ∀ rest, cs ≠ '0' :: x :: rest := fun x mark rest eq =>
        marked ⟨x, mark, rest, eq⟩
      have numeral : ∃ a, DecimalNumeral cs a := by
        rw [parseTrimmed?_of_unmarked signed split unmarked, parseDecimal?, parseFloat?,
          split] at read
        dsimp only at read
        cases digits : Digits.decimal? cs with
        | some m =>
          obtain ⟨nonempty, run⟩ := decimal?_eq_some_iff.mp digits
          exact ⟨_, .whole nonempty run⟩
        | none =>
          rw [digits, Option.none_or, Option.bind_eq_some_iff] at read
          obtain ⟨_, float, -⟩ := read
          obtain ⟨d, read, -⟩ := Option.map_eq_some_iff.mp float
          obtain ⟨a, numeral, -⟩ := exists_decimalNumeral_iff read
          exact ⟨a, numeral⟩
      obtain ⟨a, numeral⟩ := numeral
      exact .inl
        ⟨negative, a, .decimal signed numeral, (parseTrimmed?_of_decimal signed numeral).mp read⟩
  · rintro (⟨negative, a, common, integer⟩ | ⟨negative, m, narrow, integer⟩)
    · cases common with
      | decimal signed numeral => exact (parseTrimmed?_of_decimal signed numeral).mpr integer
      | hexadecimal narrow => exact (parseTrimmed?_of_narrow (.inl rfl) narrow).mpr integer
    · exact (parseTrimmed?_of_narrow (.inr rfl) narrow).mpr integer

/-- The engine does not read what only scripts do. -/
theorem ScriptsAlone.visible {t : List Char} (h : ScriptsAlone t) : ∀ c ∈ t, Visible c := by
  cases h with
  | plus mark numeral => exact visible_of_marked .plus mark numeral.visible
  | wide signed mark run =>
    exact visible_of_marked signed mark fun c member => visible_of_hexadecimal (run.isSome c member)
  | float signed mark numeral => exact visible_of_marked signed mark numeral.visible

theorem parseHexDigits?_of_wide {cs : List Char} {n : ℕ} (run : HexadecimalRun cs n)
    (wide : 2 ^ 64 ≤ n) : parseHexDigits? cs = none := by
  refine Option.eq_none_iff_forall_ne_some.mpr fun k read => ?_
  obtain ⟨plus, ds, m, rfl, rfl | rfl, -, run', narrow, -⟩ := parseHexDigits?_eq_some_iff.mp read
  · exact absurd (run.unique run') (by omega)
  · exact absurd (run.isSome '+' (by simp)) (by decide)

theorem parseHexDigits?_of_float {cs : List Char} {q : ℚ} (h : HexadecimalNumeral cs (.real q)) :
    parseHexDigits? cs = none := by
  refine Option.eq_none_iff_forall_ne_some.mpr fun k read => ?_
  obtain ⟨plus, ds, m, rfl, rfl | rfl, -, run, -⟩ := parseHexDigits?_eq_some_iff.mp read
  · exact h.not_run run
  · exact h.head?_ne_plus rfl

theorem parseTrimmed?_of_scriptsAlone {t : List Char} (h : ScriptsAlone t) :
    parseTrimmed? t = none := by
  have marked {sign cs : List Char} {x : Char} {negative : Bool} (signed : Sign sign negative)
      (mark : x ∈ ['x', 'X']) (unread : parseHexDigits? cs = none) :
      parseTrimmed? (sign ++ '0' :: x :: cs) = none := by
    by_cases plus : sign = ['+']
    · rw [plus, List.singleton_append, parseTrimmed?_of_plus mark]
    · rw [parseTrimmed?_of_marked signed plus mark, unread, Option.map_none]
  cases h with
  | plus mark => exact parseTrimmed?_of_plus mark
  | wide signed mark run wide => exact marked signed mark (parseHexDigits?_of_wide run wide)
  | float signed mark numeral => exact marked signed mark (parseHexDigits?_of_float numeral)

theorem sign_append_inj {sign sign' cs cs' : List Char} {negative negative' : Bool}
    (h : Sign sign negative)
    (h' : Sign sign' negative') (same : sign ++ '0' :: cs = sign' ++ '0' :: cs') : cs = cs' := by
  cases h <;> cases h' <;> simp_all

/-- After the mark of a script numeral comes no plus sign. -/
theorem not_scriptNumeral_of_plus {t : List Char} {negative negative' : Bool} {m : ℕ} {a : Amount}
    (narrow : NarrowHexadecimal ['+'] t negative m) : ¬ ScriptNumeral t negative' a := by
  intro numeral
  obtain @⟨sign, ds, x, _, _, signed, -, mark, -⟩ := narrow
  generalize same : sign ++ '0' :: x :: (['+'] ++ ds) = t at numeral
  cases numeral with
  | decimal signed' numeral =>
    have member : x ∈ sign ++ '0' :: x :: (['+'] ++ ds) := by simp
    rw [same] at member
    rcases List.mem_append.mp member with member | member
    · have noSign : ∀ x ∈ ['x', 'X'], x ∉ ['+', '-'] := List.all_iff_forall_prop.mp (by decide)
      exact noSign x mark (signed'.mem x member)
    · exact not_mem_decimal mark numeral member
  | hexadecimal signed' mark' numeral =>
    obtain ⟨-, rfl⟩ := List.cons.inj (sign_append_inj signed signed' same)
    exact numeral.head?_ne_plus rfl

/-- What is read has white space and visible characters of ASCII alone. -/
theorem blank_or_visible_of_parseInteger? {text : String} {n : Int64}
    (read : parseInteger? text = some n) : ∀ c ∈ text.toList, isBlank c = true ∨ Visible c := by
  obtain ⟨w, w', split, before, behind⟩ : Padded isBlank text.toList (trim text.toList) :=
    padded_strip isBlank text.toList
  have visible : ∀ c ∈ trim text.toList, Visible c := by
    rw [parseInteger?, parseTrimmed?_eq_some_iff] at read
    rcases read with ⟨_, _, common, -⟩ | ⟨_, _, narrow, -⟩
    · exact common.visible
    · exact narrow.visible (.inr rfl)
  intro c member
  rw [split] at member
  rcases List.mem_append.mp member with member | member
  · exact (List.mem_append.mp member).imp (before c) (visible c)
  · exact .inl (behind c member)

/-- A string that is no text reads as zero. -/
theorem toInteger_str (s : Bytes) :
    toInteger (.str s) = ((Utf8.decode? s).bind parseInteger?).getD 0 := by
  rw [toInteger, Utf8.decode?]
  split
  case isTrue => rfl
  case isFalse noText =>
    suffices unread : parseInteger? (Utf8.lossy s) = none by rw [unread]; rfl
    refine Option.eq_none_iff_forall_ne_some.mpr fun n read =>
      noText (Utf8.bytes_lossy fun member => ?_)
    rw [← String.toList_ofList (l := Utf8.lossyFrom none s)] at member
    have known := blank_or_visible_of_parseInteger? read Utf8.replacement member
    exact absurd known (by decide)

/-- The engine reads what scripts convert to an integer, without the numerals that only they know,
and what it reads alone. A script string that is no text reads as zero. -/
theorem integers_read (text : String) (n : Int64) (s : Bytes) :
    (parseInteger? text = some n ↔
      (ScriptReads text.toList n ∧
        ¬ ∃ t, Padded Script.Numeral.isSpace text.toList t ∧ ScriptsAlone t) ∨
      (EngineAlone text.toList n ∧ ¬ IsNumeric text.toList)) ∧
    (ScriptReads text.toList n ↔
      (Script.Numeral.read? (bytes text)).bind Script.Value.toInteger? = some n) ∧
    (IsNumeric text.toList ↔ (Script.Numeral.read? (bytes text)).isSome) ∧
    toInteger (.str s) = ((Utf8.decode? s).bind parseInteger?).getD 0 := by
  have reads : ScriptReads text.toList n ↔
      (Script.Numeral.read? (bytes text)).bind Script.Value.toInteger? = some n := by
    rw [integer_read?_iff]
    have ascii (cs : List Char) (h : ScriptReads cs n) := h.isNumeric.ascii
    exact (Utf8.toChars_bytes_iff ascii text).symm
  have numeric : IsNumeric text.toList ↔ (Script.Numeral.read? (bytes text)).isSome := by
    rw [isSome_read?_iff]
    exact (Utf8.toChars_bytes_iff (fun _ => IsNumeric.ascii) text).symm
  refine ⟨?_, reads, numeric, toInteger_str s⟩
  have padded : Padded isBlank text.toList (trim text.toList) := padded_strip isBlank text.toList
  rw [parseInteger?, parseTrimmed?_eq_some_iff]
  constructor
  · intro reads
    have read := parseTrimmed?_eq_some_iff.mpr reads
    rcases reads with ⟨negative, a, common, integer⟩ | ⟨negative, m, narrow, integer⟩
    · by_cases spaces : Padded Script.Numeral.isSpace text.toList (trim text.toList)
      · refine .inl ⟨⟨_, negative, a, spaces, common.script, integer⟩, ?_⟩
        rintro ⟨t, padded, alone⟩
        rw [trim_of_padded padded.blank alone.visible, parseTrimmed?_of_scriptsAlone alone] at read
        exact absurd read nofun
      · refine .inr ⟨.blank padded spaces common integer, ?_⟩
        rintro ⟨t, _, _, padded, numeral⟩
        rw [trim_of_padded padded.blank numeral.visible] at spaces
        exact spaces padded
    · refine .inr ⟨.plus padded narrow integer, ?_⟩
      rintro ⟨t, _, _, padded, numeral⟩
      rw [trim_of_padded padded.blank numeral.visible] at narrow
      exact not_scriptNumeral_of_plus narrow numeral
  · rintro (⟨⟨t, negative, a, spaces, numeral, integer⟩, notAlone⟩ | ⟨alone, -⟩)
    · rw [trim_of_padded spaces.blank numeral.visible]
      rcases numeral.common_or_alone with common | alone
      · exact .inl ⟨negative, a, common, integer⟩
      · exact absurd ⟨t, spaces, alone⟩ notAlone
    · rcases alone with ⟨blanks, narrow, integer⟩ | ⟨blanks, -, common, integer⟩
      · rw [trim_of_padded blanks (narrow.visible (.inr rfl))]
        exact .inr ⟨_, _, narrow, integer⟩
      · rw [trim_of_padded blanks common.visible]
        exact .inl ⟨_, _, common, integer⟩

/-- Scripts do not convert `0x+10`. -/
theorem not_read_as_scripts :
    ¬ ∀ text n, parseInteger? text = some n ↔ ScriptReads text.toList n := by
  intro agree
  obtain ⟨t, _, _, padded, numeral, -⟩ := (agree "0x+10" 16).mp (by decide)
  have same : trim "0x+10".toList = t := trim_of_padded padded.blank numeral.visible
  have digits : HexadecimalRun ['1', '0'] 16 := readFrom_eq_some_iff.mp rfl
  have narrow : NarrowHexadecimal ['+'] ([] ++ '0' :: 'x' :: (['+'] ++ ['1', '0'])) false 16 :=
    .mk .none (by simp) (by simp) (by simp) digits (by decide)
  have kept : trim "0x+10".toList = [] ++ '0' :: 'x' :: (['+'] ++ ['1', '0']) := by decide
  rw [← kept, same] at narrow
  exact not_scriptNumeral_of_plus narrow numeral

end CardBridge.Numerals
