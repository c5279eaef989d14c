import CardBridge.Proofs.RegistryHistory

/-!
# The numbers of handles

Handles are numbered by a counter of 32 bits that is never set back and runs over. So the handles
given out are the numbers from one on, around and around (`issued_eq`) : the last one of a round is
the handle of nothing, and every handle of the next rounds was given out before.

A handle stands for what was registered under it last (`lookup_lastUnder`). Registering an object
under a handle takes away what stood behind it, but not the handle from the object that stood there,
which is then found to be the new one. If each handle is used as it was meant to be, that does not
happen within the first round (`handles_apart`). In the second one it does (`not_unaliased`).
-/

namespace CardBridge

namespace Registry

variable {α : Type}

/-! ## What is registered -/

/-- What an action registers, and under which handle. -/
def Action.registers (r : Registry α) : Action α → Option (Handle × Registration α)
  | insert o payload => some (r.allocate.1, ⟨o, payload⟩)
  | insertWith h o payload => some (h, ⟨o, payload⟩)
  | allocate | remove _ | drain => none

/-- What was registered under a handle last. -/
def lastUnder (h : Handle) : List (Action α) → Option (Registration α)
  | [] => none
  | a :: past =>
    match a.registers (held past) with
    | some (h', e) => if h' = h then some e else lastUnder h past
    | none => lastUnder h past

/-- Handles are apart : none is that of nothing, and none stands for two things. -/
structure Unaliased (past : List (Action α)) : Prop where
  /-- What is given out is never the handle of nothing, and never a handle that was given out
  before. -/
  null : Handle.null ∉ issued past
  once : (issued past).Nodup
  /-- What is found behind a handle is the only thing that was registered under it. -/
  stale : ∀ later a earlier h e, past = later ++ a :: earlier →
    a.registers (held earlier) = some (h, e) →
      ∀ e', (held past).entries.lookup h = some e' → e' = e
  /-- What stands behind the handle of an object stays when another one is registered. -/
  kept : ∀ a earlier h e, past = a :: earlier → a.registers (held earlier) = some (h, e) →
    ∀ o h', o ≠ e.object → (held earlier).handleOf o = some h' →
      (held past).entries.lookup h' = (held earlier).entries.lookup h'

/-! ## The counter -/

/-- The next handle is numbered by how many were given out. -/
theorem next_eq_ofNat (past : List (Action α)) :
    (held past).allocate.1 = ⟨UInt32.ofNat ((issued past).length + 1)⟩ := by
  rw [UInt32.ofNat_add, ← last_eq_ofNat]
  rfl

/-- The handles given out are numbered from one on, the last one first. -/
theorem issued_eq (past : List (Action α)) : issued past =
    ((List.range (issued past).length).map fun n => ⟨UInt32.ofNat (n + 1)⟩).reverse := by
  induction past with
  | nil => rfl
  | cons a past ih =>
    have given : (held past).allocate.1 :: issued past =
        ((List.range ((issued past).length + 1)).map fun n => ⟨UInt32.ofNat (n + 1)⟩).reverse := by
      rw [List.range_succ, List.map_append, List.reverse_append, ← ih, next_eq_ofNat]
      rfl
    cases a with
    | insert | allocate => exact given
    | insertWith | remove | drain => exact ih

theorem ofNat_eq_iff {m n : Nat} :
    UInt32.ofNat m = UInt32.ofNat n ↔ m % UInt32.size = n % UInt32.size := by
  rw [← UInt32.toNat_inj, UInt32.toNat_ofNat', UInt32.toNat_ofNat']

theorem mem_issued_iff {past : List (Action α)} {n : Nat} :
    (⟨UInt32.ofNat n⟩ : Handle) ∈ issued past ↔
      ∃ m < (issued past).length, (m + 1) % UInt32.size = n % UInt32.size := by
  rw [issued_eq, List.mem_reverse, List.mem_map]
  simp only [List.mem_range, Handle.mk.injEq, ofNat_eq_iff, List.length_reverse, List.length_map,
    List.length_range]

/-- The handle of nothing is given out once a round is full. -/
theorem null_mem_issued_iff {past : List (Action α)} :
    Handle.null ∈ issued past ↔ UInt32.size ≤ (issued past).length := by
  have positive : 0 < UInt32.size := by decide
  rw [show Handle.null = ⟨UInt32.ofNat 0⟩ from rfl, mem_issued_iff]
  constructor
  · rintro ⟨m, less, same⟩
    have divides : UInt32.size ∣ m + 1 := Nat.dvd_of_mod_eq_zero (same.trans (Nat.zero_mod _))
    exact (Nat.le_of_dvd (Nat.succ_pos m) divides).trans less
  · intro full
    refine ⟨UInt32.size - 1, by omega, ?_⟩
    rw [Nat.sub_add_cancel positive, Nat.mod_self, Nat.zero_mod]

/-- A handle is given out again once a round is full. -/
theorem next_mem_issued_iff {past : List (Action α)} :
    (held past).allocate.1 ∈ issued past ↔ UInt32.size ≤ (issued past).length := by
  rw [next_eq_ofNat, mem_issued_iff]
  constructor
  · rintro ⟨m, less, same⟩
    have divides := (Nat.modEq_iff_dvd' (by omega)).mp same
    have bound := Nat.le_of_dvd (by omega) divides
    omega
  · intro full
    have positive : 0 < UInt32.size := by decide
    refine ⟨(issued past).length - UInt32.size, by omega, ?_⟩
    rw [← Nat.add_mod_right]
    congr 1
    omega

/-! ## What stands behind a handle -/

/-- An action that registers something does what `insertWith` does, as far as can be looked up. -/
theorem registers_spec {a : Action α} {past : List (Action α)} {h : Handle} {e : Registration α}
    (registers : a.registers (held past) = some (h, e)) :
    (∀ o, (held (a :: past)).handleOf o =
      if o = e.object then some h else (held past).handleOf o) ∧
    ∀ h', (held (a :: past)).entries.lookup h' =
      if h' = h then some e
      else if (held past).handleOf e.object = some h' then none
      else (held past).entries.lookup h' := by
  cases a with
  | insert o payload =>
    cases registers
    exact ⟨handleOf_insertWith _ _ o payload, lookup_insertWith _ _ o payload⟩
  | insertWith h o payload =>
    cases registers
    exact ⟨handleOf_insertWith _ h o payload, lookup_insertWith _ h o payload⟩
  | allocate | remove | drain => cases registers

/-- What is found behind a handle after an action that registers nothing was found there before. -/
theorem lookup_of_registers_none {a : Action α} {past : List (Action α)} {h : Handle}
    {e : Registration α} (registers : a.registers (held past) = none)
    (found : (held (a :: past)).entries.lookup h = some e) :
    (held past).entries.lookup h = some e := by
  cases a with
  | insert | insertWith => cases registers
  | allocate => exact found
  | remove o =>
    rw [held, Action.apply, remove] at found
    split at found
    · exact found
    · exact (Keyed.lookup_erase_cases found).2
  | drain => cases found

/-- What stands behind a handle was registered under it last. -/
theorem lookup_lastUnder {past : List (Action α)} {h : Handle} {e : Registration α}
    (found : (held past).entries.lookup h = some e) : lastUnder h past = some e := by
  induction past with
  | nil => cases found
  | cons a past ih =>
    rw [lastUnder]
    cases registers : a.registers (held past) with
    | none => exact ih (lookup_of_registers_none registers found)
    | some p =>
      obtain ⟨h', e'⟩ := p
      rw [(registers_spec registers).2 h] at found
      by_cases same : h' = h
      · rw [if_pos same.symm] at found
        exact (if_pos same).trans found
      · rw [if_neg (Ne.symm same)] at found
        split at found
        · cases found
        · exact (if_neg same).trans (ih found)

/-! ## Handles that stand for one thing -/

/-- What an action registers is entered. -/
theorem mem_entered_of_registers {a : Action α} {past : List (Action α)} {h : Handle}
    {e : Registration α} (registers : a.registers (held past) = some (h, e)) :
    h ∈ entered (a :: past) := by
  cases a with
  | insert | insertWith =>
    cases registers
    exact List.mem_cons_self
  | allocate | remove | drain => cases registers

/-- Within the first round no handle stands for two things, if each is used as it was meant to
be. -/
theorem unaliased_of_few {past : List (Action α)} (lawful : Lawful past)
    (few : (issued past).length < UInt32.size) : Unaliased past := by
  constructor
  case null => exact fun mem => absurd (null_mem_issued_iff.mp mem) (Nat.not_le_of_lt few)
  case once =>
    refine (issued_increasing few).imp fun less same => ?_
    rw [same] at less
    exact absurd less (UInt32.lt_irrefl _)
  case stale =>
    rintro later a earlier h e rfl registers e' found
    have stood := lookup_of_entered lawful few (mem_entered_of_registers registers) found
    rw [(registers_spec registers).2 h, if_pos rfl] at stood
    exact (Option.some.inj stood).symm
  case kept =>
    rintro a earlier h e rfl registers o h' other registered
    have fewer := Nat.lt_of_le_of_lt (length_issued_le a earlier) few
    have before := holds_standing lawful.tail fewer
    have after := holds_standing lawful few
    obtain ⟨payload, stood⟩ := before.handleOf_eq_some_iff.mp registered
    have still : (held (a :: earlier)).handleOf o = some h' := by
      rw [(registers_spec registers).1, if_neg other, registered]
    obtain ⟨payload', stands⟩ := after.handleOf_eq_some_iff.mp still
    have found : (held (a :: earlier)).entries.lookup h' = some ⟨o, payload'⟩ :=
      after.entries.mpr stands
    rw [found]
    exact (before.entries.mpr (standing_of_entered lawful few (standing_entered stood) stands)).symm

/-- How handles are given out and what stands behind them, after all that was done with a
registry. -/
structure Numbered (past : List (Action α)) : Prop where
  /-- Handles are numbered from one on, in 32 bits. -/
  numbers : issued past =
    ((List.range (issued past).length).map fun n => ⟨UInt32.ofNat (n + 1)⟩).reverse
  next : (held past).allocate.1 = ⟨UInt32.ofNat ((issued past).length + 1)⟩
  /-- Once all numbers were given out, the handle of nothing was among them, and the next handle was
  given out before. -/
  null : Handle.null ∈ issued past ↔ UInt32.size ≤ (issued past).length
  again : (held past).allocate.1 ∈ issued past ↔ UInt32.size ≤ (issued past).length
  /-- Registering an object takes away what stood behind its handle, and leaves the handles of all
  other objects as they were. -/
  registering : ∀ a h e, a.registers (held past) = some (h, e) →
    (∀ o, (held (a :: past)).handleOf o =
      if o = e.object then some h else (held past).handleOf o) ∧
    ∀ h', (held (a :: past)).entries.lookup h' =
      if h' = h then some e
      else if (held past).handleOf e.object = some h' then none
      else (held past).entries.lookup h'
  /-- A handle stands for what was registered under it last. -/
  behind : ∀ h e, (held past).entries.lookup h = some e → lastUnder h past = some e
  /-- If each handle is used as it was meant to be, handles are apart exactly as long as not all
  numbers were given out. -/
  unaliased : Lawful past → (Unaliased past ↔ (issued past).length < UInt32.size)

/-- **Handles apart.** Handles are the numbers of 32 bits from one on, around and around. If each is
used for one registration, no handle is that of nothing, given out twice or found to stand for a
later registration, and no registration takes another object away, exactly as long as fewer than
2 ^ 32 were given out. -/
theorem handles_apart (past : List (Action α)) : Numbered past := by
  constructor
  case numbers => exact issued_eq past
  case next => exact next_eq_ofNat past
  case null => exact null_mem_issued_iff
  case again => exact next_mem_issued_iff
  case registering => exact fun a h e => registers_spec
  case behind => exact fun h e => lookup_lastUnder
  case unaliased =>
    intro lawful
    refine ⟨fun unaliased => ?_, unaliased_of_few lawful⟩
    exact Nat.lt_of_not_le fun full => unaliased.null (null_mem_issued_iff.mpr full)

/-- A card that is registered, taken out and registered again leaves its old handle alone. -/
theorem handles_apart_again :
    Unaliased [.insertWith ⟨2⟩ (.card ⟨1⟩) 'b', .remove (.card ⟨1⟩), .allocate,
      .insert (.card ⟨1⟩) 'a'] := by
  refine ((handles_apart _).unaliased ?_).mpr (by decide)
  exact ⟨by decide, by decide, trivial⟩

/-! ## The second round -/

theorem held_replicate_allocate (n : Nat) (past : List (Action α)) :
    held (List.replicate n .allocate ++ past) =
      { held past with last := (held past).last + UInt32.ofNat n } := by
  induction n with
  | zero =>
    change held past = { held past with last := (held past).last + 0 }
    rw [UInt32.add_zero]
  | succ n ih =>
    rw [List.replicate_succ, List.cons_append, held, Action.apply, allocate, ih, UInt32.ofNat_add,
      ← UInt32.add_assoc]
    rfl

theorem length_issued_replicate (n : Nat) (past : List (Action α)) :
    (issued (List.replicate n .allocate ++ past)).length = (issued past).length + n := by
  induction n with
  | zero => rfl
  | succ n ih =>
    rw [List.replicate_succ, List.cons_append, issued, List.length_cons, ih, Nat.add_assoc]

/-- A card is registered under the first handle, and the others are given out, the handle of nothing
last. The next card gets the handle of the first one, which is taken away though it is registered :
what is kept for it is found to be what is kept for the other. A handle that is used for two
registrations does the same at once. -/
theorem not_unaliased :
    let earlier := List.replicate (UInt32.size - 1) .allocate ++ [.insert (.card ⟨1⟩) 'a']
    let past := .insert (.card ⟨2⟩) 'b' :: earlier
    Handle.null ∈ issued earlier ∧ (held earlier).allocate.1 ∈ issued earlier ∧
      (held earlier).resolve ⟨1⟩ = some (.card ⟨1⟩) ∧
      (held earlier).payload (.card ⟨1⟩) = some 'a' ∧
      (held past).resolve ⟨1⟩ = some (.card ⟨2⟩) ∧
      (held past).handleOf (.card ⟨1⟩) = some ⟨1⟩ ∧ (held past).payload (.card ⟨1⟩) = some 'b' ∧
      ¬ Unaliased past ∧
      ¬ Unaliased
        [.insertWith ⟨1⟩ (.card ⟨2⟩) 'b', .insertWith ⟨1⟩ (.card ⟨1⟩) 'a', .allocate] := by
  intro earlier past
  -- the round is too long to be run : what it gives out is counted, and what it leaves is one sum
  have full : (issued earlier).length = UInt32.size := length_issued_replicate _ _
  have before : held earlier = ⟨[(⟨1⟩, ⟨.card ⟨1⟩, 'a'⟩)], [(.card ⟨1⟩, ⟨1⟩)], 0⟩ :=
    held_replicate_allocate _ _
  have after :
      held past = ⟨[(⟨1⟩, ⟨.card ⟨2⟩, 'b'⟩)], [(.card ⟨1⟩, ⟨1⟩), (.card ⟨2⟩, ⟨1⟩)], 1⟩ := by
    change (Action.insert _ _).apply (held earlier) = _
    rw [before]
    rfl
  have null := null_mem_issued_iff.mpr full.ge
  have again := next_mem_issued_iff.mpr full.ge
  refine ⟨null, again, ?_⟩
  rw [before, after]
  refine ⟨rfl, rfl, rfl, rfl, rfl, ?_, ?_⟩
  · exact fun unaliased => unaliased.null (List.mem_cons_of_mem _ null)
  · intro unaliased
    have same := unaliased.stale [_] _ [.allocate] ⟨1⟩ _ rfl rfl _ rfl
    cases same

end Registry

end CardBridge
