import CardBridge.Proofs.Reports

/-!
# Messages of bounded length

A message is written piece by piece into a buffer that is cleared before. What comes of it depends
on the text alone, in whatever pieces it is written and whatever the buffer held
(`MessageBuffer.formatted_of_text`): the text where it fits, and otherwise its longest beginning or
nothing. A buffer keeps to its capacity all along (`MessageBuffer.writeAll_room`), and where a piece
is cut, the way back from the last byte that fits comes to a boundary (`exists_boundaryBefore`), at
the latest where the piece begins.
-/

namespace CardBridge

/-! ## Boundaries -/

theorem isBoundary_zero (cs : List Char) : isBoundary cs 0 = true := by
  cases cs <;> rfl

/-- The way back from a place comes to a boundary, and it is the first one on the way. -/
theorem exists_boundaryBefore (cs : List Char) (place : Nat) :
    ∃ stop, boundaryBefore? cs place = some stop ∧ stop ≤ place ∧ isBoundary cs stop = true ∧
      ∀ passed, stop < passed → passed ≤ place → isBoundary cs passed = false := by
  induction place with
  | zero =>
    refine ⟨0, ?_, Nat.le_refl 0, isBoundary_zero cs, fun passed h h' => by omega⟩
    rw [boundaryBefore?, if_pos (isBoundary_zero cs)]
  | succ place ih =>
    rw [boundaryBefore?]
    by_cases here : isBoundary cs (place + 1) = true
    · exact ⟨place + 1, if_pos here, Nat.le_refl _, here, fun passed h h' => by omega⟩
    · obtain ⟨stop, found, before, boundary, first⟩ := ih
      refine ⟨stop, (if_neg here).trans found, by omega, boundary, fun passed h h' => ?_⟩
      rcases Nat.lt_or_ge place passed with last | earlier
      · rw [show passed = place + 1 by omega]
        exact Bool.not_eq_true _ ▸ here
      · exact first passed h earlier

namespace MessageBuffer

/-! ## Writing -/

theorem write_room {b : MessageBuffer} (cut : Bool) (piece : List Char)
    (room : byteLength b.contents ≤ b.capacity) :
    byteLength (b.write cut piece).2.contents ≤ (b.write cut piece).2.capacity := by
  unfold write
  split
  case isTrue fits => rwa [byteLength_append]
  case isFalse =>
    cases cut with
    | false => exact room
    | true =>
      have taken := (takeBytes_longest (b.capacity - byteLength b.contents) piece).fits
      simp only [if_true, takeBytes_boundaryBefore, byteLength_append]
      omega

/-- A buffer keeps to its capacity, whatever is written. -/
theorem writeAll_room {b : MessageBuffer} (cut : Bool) (pieces : List (List Char))
    (room : byteLength b.contents ≤ b.capacity) :
    byteLength (b.writeAll cut pieces).2.contents ≤ b.capacity := by
  rw [← writeAll_capacity b cut pieces]
  induction pieces generalizing b with
  | nil => exact room
  | cons piece pieces ih =>
    have next := write_room cut piece room
    unfold writeAll
    split
    case h_1 b' written =>
      rw [written] at next
      exact ih next
    case h_2 b' written =>
      rw [written] at next
      exact next

/-- What fits is written whole. -/
theorem writeAll_of_fits {b : MessageBuffer} (cut : Bool) {pieces : List (List Char)}
    (fits : byteLength b.contents + byteLength pieces.flatten ≤ b.capacity) :
    b.writeAll cut pieces = (true, { b with contents := b.contents ++ pieces.flatten }) := by
  induction pieces generalizing b with
  | nil => simp [writeAll]
  | cons piece pieces ih =>
    rw [List.flatten_cons, byteLength_append] at fits
    have first : b.write cut piece = (true, { b with contents := b.contents ++ piece }) :=
      if_pos (by omega)
    rw [writeAll, first]
    refine (ih ?_).trans ?_
    · simp only [byteLength_append]
      omega
    · rw [List.flatten_cons, List.append_assoc]

/-- What does not fit is told, in whichever piece that comes out. -/
theorem writeAll_of_not_fits {b : MessageBuffer} (cut : Bool) {pieces : List (List Char)}
    (room : byteLength b.contents ≤ b.capacity)
    (large : b.capacity < byteLength b.contents + byteLength pieces.flatten) :
    (b.writeAll cut pieces).1 = false := by
  induction pieces generalizing b with
  | nil =>
    have : byteLength ([] : List (List Char)).flatten = 0 := rfl
    omega
  | cons piece pieces ih =>
    rw [List.flatten_cons, byteLength_append] at large
    unfold writeAll write
    by_cases fits : byteLength b.contents + byteLength piece ≤ b.capacity
    · simp only [if_pos fits]
      refine ih ?_ ?_ <;> simp only [byteLength_append] <;> omega
    · cases cut <;> simp [if_neg fits]

/-! ## Messages -/

theorem tryFormat_of_text (b : MessageBuffer) (pieces : List (List Char)) :
    b.tryFormat pieces =
      if byteLength pieces.flatten ≤ b.capacity then
        (some pieces.flatten, ⟨pieces.flatten, b.capacity⟩)
      else (none, ⟨[], b.capacity⟩) := by
  have cleared : byteLength (new b.capacity).contents = 0 := rfl
  unfold tryFormat
  by_cases fits : byteLength pieces.flatten ≤ b.capacity
  · rw [if_pos fits, writeAll_of_fits false (by rwa [cleared, Nat.zero_add])]
    rfl
  · have told : ((new b.capacity).writeAll false pieces).1 = false := by
      refine writeAll_of_not_fits false (Nat.zero_le _) ?_
      rw [cleared, Nat.zero_add]
      exact Nat.lt_of_not_le fits
    have capacity := writeAll_capacity (new b.capacity) false pieces
    rw [if_neg fits]
    split
    case h_1 b' written =>
      rw [written] at told
      cases told
    case h_2 b' written =>
      rw [written] at capacity
      rw [capacity]
      rfl

theorem format_of_text (b : MessageBuffer) (pieces : List (List Char)) :
    b.format pieces =
      if byteLength pieces.flatten ≤ b.capacity then (pieces.flatten, ⟨pieces.flatten, b.capacity⟩)
      else ([], ⟨[], b.capacity⟩) := by
  rw [format, tryFormat_of_text]
  by_cases fits : byteLength pieces.flatten ≤ b.capacity
  · rw [if_pos fits, if_pos fits]
  · rw [if_neg fits, if_neg fits]

theorem formatCut_snd (b : MessageBuffer) (pieces : List (List Char)) :
    (b.formatCut pieces).2 = ⟨(b.formatCut pieces).1, b.capacity⟩ := by
  rw [← formatCut_capacity b pieces]
  rfl

/-- A cut message is the longest beginning of the text that fits, an uncut one is the whole text or
nothing, and the buffer holds what is told and nothing else. While pieces are written, the buffer
keeps to its capacity, and there is a boundary to cut the next piece at. -/
theorem formatted_of_text (b : MessageBuffer) (pieces : List (List Char)) :
    LongestWithin b.capacity pieces.flatten (b.formatCut pieces).1 ∧
    (b.formatCut pieces).2 = ⟨(b.formatCut pieces).1, b.capacity⟩ ∧
    b.tryFormat pieces =
      (if byteLength pieces.flatten ≤ b.capacity then
        (some pieces.flatten, ⟨pieces.flatten, b.capacity⟩)
      else (none, ⟨[], b.capacity⟩)) ∧
    b.format pieces =
      (if byteLength pieces.flatten ≤ b.capacity then (pieces.flatten, ⟨pieces.flatten, b.capacity⟩)
      else ([], ⟨[], b.capacity⟩)) ∧
    ∀ cut written piece, ∃ held stop,
      ((new b.capacity).writeAll cut written).2 = ⟨held, b.capacity⟩ ∧
      byteLength held ≤ b.capacity ∧
      boundaryBefore? piece (b.capacity - byteLength held) = some stop ∧
      isBoundary piece stop = true ∧ byteLength held + stop ≤ b.capacity := by
  refine ⟨?_, formatCut_snd b pieces, tryFormat_of_text b pieces, format_of_text b pieces, ?_⟩
  · rw [formatCut_fst]
    exact takeBytes_longest _ _
  · intro cut written piece
    have capacity := writeAll_capacity (new b.capacity) cut written
    have room := writeAll_room (b := new b.capacity) cut written (Nat.zero_le _)
    generalize ((new b.capacity).writeAll cut written).2 = writer at capacity room
    obtain ⟨held, capacity'⟩ := writer
    obtain rfl : capacity' = b.capacity := capacity
    have within : byteLength held ≤ b.capacity := room
    obtain ⟨stop, found, before, boundary, -⟩ :=
      exists_boundaryBefore piece (b.capacity - byteLength held)
    exact ⟨held, stop, rfl, within, found, boundary, by omega⟩

end MessageBuffer

end CardBridge
