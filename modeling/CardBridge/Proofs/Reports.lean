import CardBridge.Proofs.DepthAccounting
import CardBridge.Proofs.LossyText

/-!
# Reports

A failure is reported by a message that is cut to the capacity of a buffer, and the list of calls in
it, if there is one, by a message of its own. A cut message is the longest beginning that fits
(`takeBytes_longest`, `MessageBuffer.formatCut_fst`). What the marker of the first list of calls
stands behind is the wording of the failure (`splitTraceback_of_marker`).
-/

namespace CardBridge

/-! ## Messages of bounded length -/

/-- The longest beginning of a text that takes at most `room` bytes. -/
structure LongestWithin (room : Nat) (text cut : List Char) : Prop where
  begins : cut <+: text
  fits : byteLength cut ≤ room
  longest : ∀ p, p <+: text → byteLength p ≤ room → p <+: cut

theorem byteLength_cons (c : Char) (cs : List Char) :
    byteLength (c :: cs) = c.utf8Size + byteLength cs :=
  rfl

theorem byteLength_append (cs cs' : List Char) :
    byteLength (cs ++ cs') = byteLength cs + byteLength cs' := by
  induction cs with
  | nil => exact (Nat.zero_add _).symm
  | cons c cs ih => rw [List.cons_append, byteLength_cons, ih, byteLength_cons, Nat.add_assoc]

theorem takeBytes_longest (room : Nat) (text : List Char) :
    LongestWithin room text (takeBytes room text) := by
  induction text generalizing room with
  | nil => exact ⟨List.prefix_rfl, Nat.zero_le _, fun p begins _ => begins⟩
  | cons c cs ih =>
    rw [takeBytes]
    split
    case isTrue fits =>
      have rest := ih (room - c.utf8Size)
      refine ⟨(List.prefix_cons_inj c).mpr rest.begins, ?_, fun p begins small => ?_⟩
      · have := rest.fits
        rw [byteLength_cons]
        omega
      · rcases List.prefix_cons_iff.mp begins with rfl | ⟨t, rfl, inside⟩
        · exact List.nil_prefix
        · rw [byteLength_cons] at small
          exact (List.prefix_cons_inj c).mpr (rest.longest t inside (by omega))
    case isFalse large =>
      refine ⟨List.nil_prefix, Nat.zero_le _, fun p begins small => ?_⟩
      rcases List.prefix_cons_iff.mp begins with rfl | ⟨t, rfl, -⟩
      · exact List.nil_prefix
      · rw [byteLength_cons] at small
        omega

/-- What fits is taken whole, and the room that is left is for the rest. -/
theorem takeBytes_append_of_le {room : Nat} {piece : List Char} (rest : List Char)
    (fits : byteLength piece ≤ room) :
    takeBytes room (piece ++ rest) = piece ++ takeBytes (room - byteLength piece) rest := by
  induction piece generalizing room with
  | nil => rfl
  | cons c cs ih =>
    rw [byteLength_cons] at fits ⊢
    rw [List.cons_append, takeBytes, if_pos (by omega), ih (by omega), Nat.sub_sub,
      List.cons_append]

/-- Nothing is taken behind what does not fit. -/
theorem takeBytes_append_of_lt {room : Nat} {piece : List Char} (rest : List Char)
    (large : room < byteLength piece) : takeBytes room (piece ++ rest) = takeBytes room piece := by
  induction piece generalizing room with
  | nil => exact absurd large (Nat.not_lt_zero _)
  | cons c cs ih =>
    rw [byteLength_cons] at large
    rw [List.cons_append, takeBytes, takeBytes]
    split
    case isTrue => rw [ih (by omega)]
    case isFalse => rfl

/-- Where no character begins, there is no more to take than one byte before. -/
theorem takeBytes_of_not_isBoundary {place : Nat} {cs : List Char}
    (inside : isBoundary cs (place + 1) = false) :
    takeBytes (place + 1) cs = takeBytes place cs := by
  induction cs generalizing place with
  | nil => rfl
  | cons c cs ih =>
    rw [isBoundary, Bool.and_eq_false_iff, decide_eq_false_iff_not] at inside
    rw [takeBytes, takeBytes]
    by_cases large : place < c.utf8Size
    · have small : ¬ c.utf8Size ≤ place + 1 := by
        refine inside.elim id fun stop fits => ?_
        rw [show place + 1 - c.utf8Size = 0 by omega] at stop
        cases cs <;> cases stop
      rw [if_neg small, if_neg (by omega)]
    · have next : place + 1 - c.utf8Size = place - c.utf8Size + 1 := by omega
      have stop := inside.resolve_left (not_not_intro (by omega))
      rw [next] at stop
      rw [if_pos (by omega), if_pos (by omega), next, ih stop]

/-- What is cut at the first boundary on the way back is the longest beginning that fits. -/
theorem takeBytes_boundaryBefore (cs : List Char) (place : Nat) :
    takeBytes ((boundaryBefore? cs place).getD 0) cs = takeBytes place cs := by
  induction place with
  | zero => cases cs <;> rfl
  | succ place ih =>
    rw [boundaryBefore?]
    split
    case isTrue => rfl
    case isFalse inside => rw [ih, takeBytes_of_not_isBoundary (Bool.not_eq_true _ ▸ inside)]

namespace MessageBuffer

theorem writeAll_capacity (b : MessageBuffer) (cut : Bool) (pieces : List (List Char)) :
    (b.writeAll cut pieces).2.capacity = b.capacity := by
  induction pieces generalizing b with
  | nil => rfl
  | cons piece pieces ih =>
    unfold writeAll write
    by_cases fits : byteLength b.contents + byteLength piece ≤ b.capacity
    · simp only [if_pos fits]
      exact ih _
    · cases cut <;> simp [if_neg fits]

/-- Pieces that are written and cut are the longest beginning of them that fits. -/
theorem writeAll_contents (b : MessageBuffer) (pieces : List (List Char))
    (room : byteLength b.contents ≤ b.capacity) :
    (b.writeAll true pieces).2.contents =
      b.contents ++ takeBytes (b.capacity - byteLength b.contents) pieces.flatten := by
  induction pieces generalizing b with
  | nil => simp [writeAll, takeBytes]
  | cons piece pieces ih =>
    unfold writeAll write
    by_cases fits : byteLength b.contents + byteLength piece ≤ b.capacity
    · simp only [if_pos fits, List.flatten_cons]
      rw [ih _ (by rw [byteLength_append]; exact fits), takeBytes_append_of_le _ (by omega),
        byteLength_append, List.append_assoc, Nat.sub_sub]
    · have large : b.capacity - byteLength b.contents < byteLength piece := by omega
      simp [if_neg fits, takeBytes_boundaryBefore, takeBytes_append_of_lt pieces.flatten large]

/-- A cut message is the longest beginning of its pieces that fits. -/
theorem formatCut_fst (b : MessageBuffer) (pieces : List (List Char)) :
    (b.formatCut pieces).1 = takeBytes b.capacity pieces.flatten := by
  rw [formatCut, writeAll_contents _ _ (Nat.zero_le _)]
  rfl

theorem formatCut_capacity (b : MessageBuffer) (pieces : List (List Char)) :
    (b.formatCut pieces).2.capacity = b.capacity :=
  writeAll_capacity _ _ _

end MessageBuffer

/-! ## Lists of calls -/

/-- Where no mark begins in a text before another one, the other one is where it is cut. -/
theorem splitAtMark_append {mark text rest : List Char} (begins : mark <+: rest)
    (first : ∀ r, r <:+ text → r ≠ [] → ¬ mark <+: r ++ rest) (something : rest ≠ []) :
    splitAtMark mark (text ++ rest) = (text, some rest) := by
  induction text with
  | nil =>
    cases rest with
    | nil => exact absurd rfl something
    | cons c cs => rw [List.nil_append, splitAtMark, if_pos (List.isPrefixOf_iff_prefix.mpr begins)]
  | cons c cs ih =>
    have here : ¬ mark.isPrefixOf (c :: (cs ++ rest)) = true := fun h =>
      first (c :: cs) List.suffix_rfl (List.cons_ne_nil _ _) (List.isPrefixOf_iff_prefix.mp h)
    rw [List.cons_append, splitAtMark, if_neg here,
      ih fun r suffix => first r (suffix.trans (List.suffix_cons _ _))]

theorem trimEnd_of_getLast {text : List Char} (ends : ∀ c ∈ text.getLast?, isBlank c = false) :
    trimEnd text = text := by
  have whole : text.reverse.dropWhile isBlank = text.reverse := by
    cases h : text.reverse with
    | nil => rfl
    | cons c cs =>
      have last : text.getLast? = some c := by rw [← List.head?_reverse, h, List.head?_cons]
      rw [List.dropWhile_cons, ends c last, if_neg Bool.false_ne_true]
  rw [trimEnd, whole, List.reverse_reverse]

/-- White space is taken away from behind the last character that is none. -/
theorem trimEnd_append {text : List Char} (rest : List Char)
    (ends : ∀ c ∈ text.getLast?, isBlank c = false) :
    trimEnd (text ++ rest) = text ++ trimEnd rest := by
  have whole := trimEnd_of_getLast ends
  unfold trimEnd at whole ⊢
  rw [List.reverse_append, List.dropWhile_append]
  split
  case isTrue blank => simp [whole, List.isEmpty_iff.mp blank]
  case isFalse => simp

/-- A mark without a line end does not reach over one. -/
theorem not_prefix_over_line {mark text rest : List Char} (line : '\n' ∉ mark)
    (without : ¬ mark <+: text) : ¬ mark <+: text ++ '\n' :: rest := by
  intro reaches
  rcases List.prefix_or_prefix_of_prefix reaches (List.prefix_append text _) with within | ⟨t, rfl⟩
  · exact without within
  · rcases List.prefix_cons_iff.mp ((List.prefix_append_right_inj text).mp reaches) with
      rfl | ⟨u, rfl, -⟩
    · rw [List.append_nil] at without
      exact without List.prefix_rfl
    · exact line (by simp)

/-- A text is cut before the mark in the line behind it, if no mark is in the text. What is before
the mark is the text then. -/
theorem splitTraceback_of_line {text rest : List Char} (begins : tracebackMarker <+: rest)
    (without : ¬ tracebackMarker <:+: text) (ends : ∀ c ∈ text.getLast?, isBlank c = false) :
    splitTraceback (text ++ '\n' :: rest) = (text, some (trimEnd rest)) := by
  have first (r : List Char) (suffix : r <:+ text ++ ['\n']) (nonempty : r ≠ []) :
      ¬ tracebackMarker <+: r ++ rest := by
    obtain rfl | ⟨r, rfl, inside⟩ := List.suffix_concat_iff.mp suffix
    · exact absurd rfl nonempty
    · rw [List.append_assoc]
      exact not_prefix_over_line (by decide) fun begins =>
        without (begins.isInfix.trans inside.isInfix)
  have something : rest ≠ [] := by
    rintro rfl
    exact absurd begins (by decide)
  have cut := splitAtMark_append begins first something
  rw [List.append_assoc] at cut
  have blank : trimEnd ['\n'] = [] := by decide
  rw [splitTraceback, show text ++ '\n' :: rest = text ++ (['\n'] ++ rest) from rfl, cut]
  simp [trimEnd_append _ ends, blank]

/-- The list of calls that is split off begins with the mark. -/
theorem marker_prefix_trimEnd {rest : List Char} (begins : tracebackMarker <+: rest) :
    tracebackMarker <+: trimEnd rest := by
  obtain ⟨t, rfl⟩ := begins
  have last : tracebackMarker.getLast? = some ':' := by decide
  have ends : ∀ c ∈ tracebackMarker.getLast?, isBlank c = false := by
    rw [last]
    rintro c ⟨⟩
    decide
  rw [trimEnd_append t ends]
  exact List.prefix_append _ _

/-! ## Messages of a session -/

/-- The messages that were sent, first one first. -/
def Shared.messages (s : Shared) : List (MessageKind × String) :=
  s.journal.reverse.filterMap fun
    | .message _ kind text => some (kind, text)
    | _ => none

/-- The messages that were sent, first one first. -/
def State.messages (s : State) : List (MessageKind × String) :=
  s.shared.messages

namespace Shared

variable (s : Shared)

@[simp] theorem disown_messages (c : Callable) : (s.disown c).messages = s.messages := by
  unfold disown
  split
  · rfl
  · dsimp only
    split <;> rfl

@[simp] theorem disownAll_messages (args : List Argument) :
    (s.disownAll args).messages = s.messages := by
  unfold disownAll
  induction args generalizing s with
  | nil => rfl
  | cons a args ih =>
    rw [List.foldl_cons, ih]
    cases a with
    | function c => exact s.disown_messages c
    | nil | int | bool | text | object | value => rfl

end Shared

namespace State

variable (s : State)

@[simp] theorem clear_messages (q : Queue) : (s.clear q).messages = s.messages :=
  s.shared.disownAll_messages _

@[simp] theorem leaveGuard_messages : s.leaveGuard.messages = s.messages := by
  unfold leaveGuard
  split
  · rfl
  · dsimp only
    split
    · split
      · simp [messages, Shared.messages, record, Shared.record, updateBridge]
      · rfl
    · rfl

theorem emit_messages {session : SessionId} (known : s.env.session = some session)
    (handles : s.env.handles = true) (kind : MessageKind) (text : String) :
    (s.emit kind text).messages = s.messages ++ [(kind, text)] := by
  simp [emit, known, handles, messages, Shared.messages, record, Shared.record]

/-- Where someone takes messages, a failure with a list of calls is reported by two of them. -/
theorem report_messages {session : SessionId} {b : Bridge} {f : Failure}
    {head calls : List Char} (known : s.env.session = some session)
    (handles : s.env.handles = true) (hb : s.env.bridge = some b) (room : 1 ≤ b.messages.capacity)
    (splits : splitTraceback f.message.toList = (head, some calls)) (site : String) :
    (s.report site f).messages = s.messages ++
      [(.error, String.ofList (takeBytes b.messages.capacity (reportPieces site head).flatten)),
        (.forDebug, String.ofList calls)] := by
  have text :
      ¬ (takeBytes b.messages.capacity (reportPieces site head).flatten).isEmpty = true := by
    have quote : ('"').utf8Size ≤ b.messages.capacity := room
    have pieces : (reportPieces site head).flatten =
        '"' :: (site.toList ++ ("\": ".toList ++ head)) := by simp [reportPieces]
    simp [pieces, takeBytes, quote]
  let noted := s.updateBridge fun b' => { b' with
    messages := (b.messages.formatCut (reportPieces site head)).2 }
  let cut := String.ofList (takeBytes b.messages.capacity (reportPieces site head).flatten)
  have sent : (noted.emit .error cut).env.session = some session := by simpa [noted] using known
  have sent' : (noted.emit .error cut).env.handles = true := by simpa [noted] using handles
  unfold report
  simp only [splits, hb, MessageBuffer.formatCut_fst, if_neg text]
  rw [emit_messages _ sent sent', emit_messages noted known handles]
  simp [messages, updateBridge, noted, cut]

end State

end CardBridge
