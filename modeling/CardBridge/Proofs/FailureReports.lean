import CardBridge.Proofs.BoundedMessages
import CardBridge.Proofs.Lives

/-!
# What a report tells

The wording of a failure goes out in two messages : what comes before the first list of calls, cut
to the capacity of the buffer, and everything from there on, which is never cut
(`State.report_tells`). Nothing but white space is lost between the two (`Parted`). The wording is
in the hands of scripts, which may write the marker of a list of calls themselves, or write it
several times, so nothing is assumed of it.
-/

namespace CardBridge

/-! ## Parts of a wording -/

/-- A text in two parts, neither with white space at its end : what comes before the first marker of
a list of calls, and what begins with it. -/
structure Parted (text head calls : List Char) : Prop where
  /-- White space is all there is beside the two parts, and no marker begins before the second. -/
  whole : ∃ gap rest, text = head ++ gap ++ calls ++ rest ∧
    (∀ c ∈ gap, isBlank c = true) ∧ (∀ c ∈ rest, isBlank c = true) ∧
    ∀ before behind, text = before ++ tracebackMarker ++ behind → head ++ gap <+: before
  head_ends : ∀ c ∈ head.getLast?, isBlank c = false
  calls_ends : ∀ c ∈ calls.getLast?, isBlank c = false
  /-- There is a second part if there is a marker. -/
  listed : calls ≠ [] ↔ tracebackMarker <:+: text
  marked : calls ≠ [] → tracebackMarker <+: calls

/-- What is taken away at the end of a text is white space. -/
theorem trimEnd_gap (text : List Char) :
    ∃ gap, text = trimEnd text ++ gap ∧ ∀ c ∈ gap, isBlank c = true := by
  refine ⟨(text.reverse.takeWhile isBlank).reverse, ?_, fun c inside => ?_⟩
  · rw [trimEnd, ← List.reverse_append, List.takeWhile_append_dropWhile, List.reverse_reverse]
  · rw [List.mem_reverse] at inside
    exact List.all_eq_true.mp List.all_takeWhile c inside

theorem trimEnd_ends (text : List Char) : ∀ c ∈ (trimEnd text).getLast?, isBlank c = false := by
  intro c last
  rw [trimEnd, List.getLast?_reverse] at last
  have first := List.head?_dropWhile_not isBlank text.reverse
  rw [last] at first
  simpa using first

/-- A text is cut before the first place where a mark begins. -/
theorem splitAtMark_spec {mark text before : List Char} {behind : Option (List Char)}
    (something : mark ≠ []) (split : splitAtMark mark text = (before, behind)) :
    text = before ++ behind.getD [] ∧ (∀ rest ∈ behind, mark <+: rest) ∧
      (behind = none → ¬ mark <:+: text) ∧
      ∀ u v, text = u ++ mark ++ v → before <+: u := by
  induction text generalizing before with
  | nil =>
    have none : mark.isEmpty = false := List.isEmpty_eq_false_iff.mpr something
    rw [splitAtMark, none] at split
    obtain ⟨rfl, rfl⟩ := Prod.mk.inj split
    exact ⟨rfl, fun _ found => (by cases found),
      fun _ inside => something (List.infix_nil.mp inside),
      fun u v _ => List.nil_prefix⟩
  | cons c cs ih =>
    rw [splitAtMark] at split
    split at split
    case isTrue here =>
      obtain ⟨rfl, rfl⟩ := Prod.mk.inj split
      refine ⟨rfl, ?_, fun none => (by cases none), fun u v _ => List.nil_prefix⟩
      rintro rest ⟨⟩
      exact List.isPrefixOf_iff_prefix.mp here
    case isFalse nowhere =>
      obtain ⟨rfl, rfl⟩ := Prod.mk.inj split
      obtain ⟨whole, marked, unmarked, first⟩ := ih rfl
      have later : ¬ mark <+: c :: cs :=
        fun begins => nowhere (List.isPrefixOf_iff_prefix.mpr begins)
      refine ⟨congrArg (c :: ·) whole, marked, fun none inside => ?_, fun u v text => ?_⟩
      · exact (List.infix_cons_iff.mp inside).elim later (unmarked none)
      · cases u with
        | nil => exact absurd ⟨v, text.symm⟩ later
        | cons d u =>
          obtain ⟨rfl, rest⟩ := List.cons.inj text
          exact (List.prefix_cons_inj c).mpr (first u v rest)

theorem tracebackMarker_ne_nil : tracebackMarker ≠ [] :=
  List.ne_nil_of_length_pos (by decide)

/-- What is split off a wording are its parts. -/
theorem splitTraceback_parted (text : List Char) :
    Parted text (splitTraceback text).1 ((splitTraceback text).2.getD []) := by
  obtain ⟨before, behind, split⟩ : ∃ before behind, splitAtMark tracebackMarker text =
    (before, behind) := ⟨_, _, rfl⟩
  obtain ⟨whole, marked, unmarked, first⟩ := splitAtMark_spec tracebackMarker_ne_nil split
  obtain ⟨gap, before_eq, gap_blank⟩ := trimEnd_gap before
  have cut : splitTraceback text = (trimEnd before, behind.map trimEnd) := by
    rw [splitTraceback, split]
  rw [cut]
  cases behind with
  | none =>
    have nowhere := unmarked rfl
    rw [Option.getD_none, List.append_nil] at whole
    refine ⟨⟨gap, [], ?_, gap_blank, fun _ mem => (List.not_mem_nil mem).elim, fun u v text => ?_⟩,
      trimEnd_ends _, fun _ last => (by cases last), iff_of_false (not_not_intro rfl) nowhere,
      absurd rfl⟩
    · simp [whole, ← before_eq]
    · exact absurd ⟨u, v, text.symm⟩ nowhere
  | some rest =>
    have begins := marker_prefix_trimEnd (marked rest rfl)
    obtain ⟨tail, rest_eq, tail_blank⟩ := trimEnd_gap rest
    rw [Option.getD_some] at whole
    have inside : tracebackMarker <:+: text := by
      rw [whole]
      exact (marked rest rfl).isInfix.trans (List.suffix_append before rest).isInfix
    have something : trimEnd rest ≠ [] := fun nothing =>
      tracebackMarker_ne_nil (List.prefix_nil.mp (nothing ▸ begins))
    refine ⟨⟨gap, tail, ?_, gap_blank, tail_blank, ?_⟩, trimEnd_ends _, trimEnd_ends _,
      iff_of_true something inside, fun _ => begins⟩
    · rw [whole, before_eq.symm]
      simp [← rest_eq]
    · rw [← before_eq]
      exact first

/-- A list of calls that is split off is not empty. -/
theorem splitTraceback_ne_nil (text : List Char) :
    ∀ calls ∈ (splitTraceback text).2, calls ≠ [] := by
  intro calls listed
  obtain ⟨before, behind, split⟩ : ∃ before behind, splitAtMark tracebackMarker text =
    (before, behind) := ⟨_, _, rfl⟩
  obtain ⟨-, marked, -, -⟩ := splitAtMark_spec tracebackMarker_ne_nil split
  rw [splitTraceback, split] at listed
  obtain ⟨rest, found, rfl⟩ := Option.map_eq_some_iff.mp listed
  exact fun nothing => tracebackMarker_ne_nil
    (List.prefix_nil.mp (nothing ▸ marker_prefix_trimEnd (marked rest found)))

/-! ## Reports -/

/-- What stands before the wording in a report. -/
def siteText (site : String) : List Char :=
  ("\"" ++ site ++ "\": ").toList

theorem reportPieces_flatten (site : String) (head : List Char) :
    (reportPieces site head).flatten = siteText site ++ head := by
  simp [reportPieces, siteText]

/-- What is told of a failure : as much of the site and of what it says before the first list of
calls as fits. -/
def reportCut (capacity : Nat) (site : String) (f : Failure) : List Char :=
  takeBytes capacity (siteText site ++ (splitTraceback f.message.toList).1)

/-- What comes of a report : the failure in a message that is cut, unless there is no room for
anything, and the list of calls in another one, if there is one. -/
def reportEvents (session : SessionId) (capacity : Nat) (cut calls : List Char) : List Event :=
  (if capacity = 0 then [] else [.message session .error (String.ofList cut)]) ++
    if calls = [] then [] else [.message session .forDebug (String.ofList calls)]

/-- The first message is empty if there is no room for anything. -/
theorem reportCut_eq_nil_iff (capacity : Nat) (site : String) (f : Failure) :
    reportCut capacity site f = [] ↔ capacity = 0 := by
  have text (head : List Char) :
      siteText site ++ head = '"' :: (site.toList ++ "\": ".toList ++ head) := by
    simp [siteText]
  have quote : ('"').utf8Size = 1 := rfl
  rw [reportCut, text, takeBytes, quote]
  split
  case isTrue room => exact iff_of_false (List.cons_ne_nil _ _) (by omega)
  case isFalse none => exact iff_of_true rfl (by omega)

namespace State

variable {s : State} {session : SessionId} {b : Bridge}

theorem emit_eq (known : s.env.session = some session) (handles : s.env.handles = true)
    (kind : MessageKind) (text : String) :
    s.emit kind text = s.record (.message session kind text) := by
  simp [emit, known, handles]

theorem report_eq (known : s.env.session = some session) (handles : s.env.handles = true)
    (hb : s.env.bridge = some b) (site : String) (f : Failure) :
    s.report site f =
      { env := { s.env with bridge := some { b with
          messages := ⟨reportCut b.messages.capacity site f, b.messages.capacity⟩ } }
        shared := { s.shared with journal :=
          (reportEvents session b.messages.capacity (reportCut b.messages.capacity site f)
            ((splitTraceback f.message.toList).2.getD [])).reverse ++ s.shared.journal } } := by
  have something := splitTraceback_ne_nil f.message.toList
  have empty := reportCut_eq_nil_iff b.messages.capacity site f
  have formatted : b.messages.formatCut (reportPieces site (splitTraceback f.message.toList).1) =
      (reportCut b.messages.capacity site f,
        ⟨reportCut b.messages.capacity site f, b.messages.capacity⟩) := by
    rw [reportCut, ← reportPieces_flatten, ← MessageBuffer.formatCut_fst,
      ← MessageBuffer.formatCut_snd]
  rw [← List.isEmpty_iff] at empty
  unfold report
  generalize splitTraceback f.message.toList = parts at something formatted ⊢
  generalize reportCut b.messages.capacity site f = cut at empty formatted ⊢
  obtain ⟨head, calls⟩ := parts
  let noted : State :=
    ⟨{ s.env with bridge := some { b with messages := ⟨cut, b.messages.capacity⟩ } }, s.shared⟩
  have note :
      (s.updateBridge fun b' => { b' with messages := ⟨cut, b.messages.capacity⟩ }) = noted := by
    rw [updateBridge, hb]
    rfl
  simp only [hb, formatted, note]
  cases calls with
  | none =>
    dsimp only
    by_cases tight : b.messages.capacity = 0
    · rw [if_pos (empty.mpr tight)]
      simp [reportEvents, tight, noted]
    · rw [if_neg (empty.not.mpr tight), emit_eq (s := noted) known handles]
      simp [reportEvents, tight, noted, record, Shared.record]
  | some text =>
    have listed : text ≠ [] := something text rfl
    dsimp only
    by_cases tight : b.messages.capacity = 0
    · rw [if_pos (empty.mpr tight), emit_eq (s := noted) known handles]
      simp [reportEvents, tight, listed, noted, record, Shared.record]
    · rw [if_neg (empty.not.mpr tight), emit_eq (s := noted) known handles,
        emit_eq (s := noted.record _) known handles]
      simp [reportEvents, tight, listed, noted, record, Shared.record]

/-- A report of a failure is one message for what its wording says before the first list of calls,
unless there is no room for anything, and one for everything from there on, if there is such a list.
The first is the longest beginning of the site and the wording that fits, and if nothing of it is
cut the two make up the wording, but for white space. -/
theorem report_tells (known : s.env.session = some session) (handles : s.env.handles = true)
    (hb : s.env.bridge = some b) (site : String) (f : Failure) :
    ∃ head calls cut, Parted f.message.toList head calls ∧
      LongestWithin b.messages.capacity (siteText site ++ head) cut ∧
      cut <+: siteText site ++ f.message.toList ∧
      (byteLength (siteText site ++ head) ≤ b.messages.capacity → cut = siteText site ++ head) ∧
      s.report site f =
        { env := { s.env with bridge := some { b with messages := ⟨cut, b.messages.capacity⟩ } }
          shared := { s.shared with journal :=
            (reportEvents session b.messages.capacity cut calls).reverse ++
              s.shared.journal } } := by
  have parted := splitTraceback_parted f.message.toList
  have longest := takeBytes_longest b.messages.capacity
    (siteText site ++ (splitTraceback f.message.toList).1)
  refine ⟨_, _, _, parted, longest, ?_, fun fits => ?_, ?_⟩
  · obtain ⟨gap, rest, text, -⟩ := parted.whole
    refine longest.begins.trans ((List.prefix_append_right_inj _).mpr ?_)
    rw [List.append_assoc, List.append_assoc] at text
    exact ⟨_, text.symm⟩
  · exact longest.begins.eq_of_length_le (longest.longest _ List.prefix_rfl fits).length_le
  · exact report_eq known handles hb site f

/-- An error in which a script has written the marker twice, the first time behind white space. -/
def markedFailure : Failure :=
  .script "é \n\t stack traceback: a\nstack traceback: b\n"

/-- Of the two markers the first one counts. -/
theorem report_tells_twice_marked : ∃ head calls cut,
    Parted markedFailure.message.toList head calls ∧ calls ≠ [] ∧ cut = siteText "f" ++ head ∧
    (State.report ⟨(Host.Blueprint.plain ⟨1⟩).environment 0, .empty⟩ "f"
        markedFailure).shared.journal =
      [.message ⟨1⟩ .forDebug (String.ofList calls), .message ⟨1⟩ .error (String.ofList cut)] := by
  obtain ⟨head, calls, cut, parted, -, -, whole, told⟩ :=
    report_tells (s := ⟨(Host.Blueprint.plain ⟨1⟩).environment 0, .empty⟩) rfl rfl rfl "f"
      markedFailure
  have listed : calls ≠ [] := parted.listed.mpr (by decide +kernel)
  have fits : byteLength (siteText "f" ++ head) ≤ 128 := by
    obtain ⟨gap, rest, text, -⟩ := parted.whole
    have bound : byteLength (siteText "f" ++ markedFailure.message.toList) ≤ 128 := by
      decide +kernel
    simp only [text, byteLength_append] at bound ⊢
    omega
  refine ⟨head, calls, cut, parted, listed, whole fits, ?_⟩
  have capacity : (Bridge.new .standard).messages.capacity ≠ 0 := by
    decide
  rw [told]
  simp [reportEvents, listed, capacity, Shared.empty, Host.Blueprint.plain]

end State

end CardBridge
