import CardBridge.Registry
import Mathlib.Data.List.Nodup
import Mathlib.Data.List.Perm.Basic
import Mathlib.Data.Set.Card

/-!
# What a registry holds

A registry keeps two maps that are changed one after the other. What it is to hold follows from what
was done with it : of every object the last registration that nothing has taken out since
(`standing`). Both maps hold that and nothing else (`Registry.Holds`), as long as the counter of
handles has not run over and no handle is used twice (`Lawful`), so each is the inverse of the other
(`Registry.indexes_inverse`).

Histories are lists of what was done, the last one first.
-/

namespace CardBridge

namespace Keyed

variable {κ α : Type} [DecidableEq κ]

theorem mem_iff_lookup {m : Keyed κ α} (distinct : (m.map Prod.fst).Nodup) {k : κ} {v : α} :
    (k, v) ∈ m ↔ m.lookup k = some v := by
  induction m with
  | nil => simp
  | cons p m ih =>
    obtain ⟨k', v'⟩ := p
    obtain ⟨alone, distinct⟩ := List.nodup_cons.mp distinct
    rw [lookup_cons, List.mem_cons, Prod.mk.injEq]
    by_cases here : k' = k
    · subst here
      have other : (k', v) ∉ m := fun mem => alone (List.mem_map.mpr ⟨_, mem, rfl⟩)
      rw [if_pos rfl, Option.some.injEq]
      exact ⟨fun h => (h.resolve_right other).2.symm, fun h => .inl ⟨rfl, h.symm⟩⟩
    · rw [if_neg here, ← ih distinct]
      exact ⟨fun h => h.resolve_left fun same => here same.1.symm, .inr⟩

theorem mem_keys_iff {m : Keyed κ α} {k : κ} :
    k ∈ m.map Prod.fst ↔ (m.lookup k).isSome = true := by
  induction m with
  | nil => simp
  | cons p m ih =>
    obtain ⟨k', v⟩ := p
    rw [lookup_cons, List.map_cons, List.mem_cons, ih]
    by_cases here : k' = k
    · simp [here]
    · simp [here, Ne.symm here]

theorem nodup_put (k : κ) (v : α) {m : Keyed κ α} (distinct : (m.map Prod.fst).Nodup) :
    ((put k v m).map Prod.fst).Nodup := by
  induction m with
  | nil => simp [put]
  | cons p m ih =>
    obtain ⟨k', v'⟩ := p
    obtain ⟨alone, distinct⟩ := List.nodup_cons.mp distinct
    rw [put]
    by_cases here : k' = k
    · subst here
      rw [if_pos rfl]
      exact List.nodup_cons.mpr ⟨alone, distinct⟩
    · rw [if_neg here]
      refine List.nodup_cons.mpr ⟨fun mem => alone ?_, ih distinct⟩
      rw [mem_keys_iff, lookup_put_of_ne here] at mem
      exact mem_keys_iff.mpr mem

theorem nodup_erase (k : κ) {m : Keyed κ α} (distinct : (m.map Prod.fst).Nodup) :
    ((erase k m).map Prod.fst).Nodup :=
  distinct.sublist (List.filter_sublist.map Prod.fst)

end Keyed

namespace Registry

variable {α : Type}

/-! ## Histories -/

/-- What is done with a registry. -/
inductive Action (α : Type)
  | insert (o : ObjectRef) (payload : α)
  | allocate
  | insertWith (h : Handle) (o : ObjectRef) (payload : α)
  | remove (o : ObjectRef)
  | drain

/-- What an action makes of a registry. -/
def Action.apply : Action α → Registry α → Registry α
  | insert o payload, r => (r.insert o payload).2
  | allocate, r => r.allocate.2
  | insertWith h o payload, r => r.insertWith h o payload
  | remove o, r => (r.remove o).2
  | drain, r => r.drain.2

/-- A registry after all that was done with it. -/
def held : List (Action α) → Registry α
  | [] => empty
  | a :: past => a.apply (held past)

/-- The handles that were given out, the last one first. -/
def issued : List (Action α) → List Handle
  | [] => []
  | .insert _ _ :: past | .allocate :: past => (held past).allocate.1 :: issued past
  | .insertWith _ _ _ :: past | .remove _ :: past | .drain :: past => issued past

/-- The handles under which something was registered, the last one first. -/
def entered : List (Action α) → List Handle
  | [] => []
  | .insert _ _ :: past => (held past).allocate.1 :: entered past
  | .insertWith h _ _ :: past => h :: entered past
  | .allocate :: past | .remove _ :: past | .drain :: past => entered past

/-- What an object is registered with : the last registration, unless it was taken out since. -/
def standing (o : ObjectRef) : List (Action α) → Option (Handle × α)
  | [] => none
  | .insert o' payload :: past =>
    if o' = o then some ((held past).allocate.1, payload) else standing o past
  | .insertWith h o' payload :: past => if o' = o then some (h, payload) else standing o past
  | .allocate :: past => standing o past
  | .remove o' :: past => if o' = o then none else standing o past
  | .drain :: _ => none

/-- An object is only registered under a handle of its own : one that was given out and under which
nothing was registered before. -/
def Lawful : List (Action α) → Prop
  | [] => True
  | .insertWith h _ _ :: past => h ∈ issued past ∧ h ∉ entered past ∧ Lawful past
  | .insert _ _ :: past | .allocate :: past | .remove _ :: past | .drain :: past => Lawful past

/-! ## Handles -/

theorem length_issued_le (a : Action α) (past : List (Action α)) :
    (issued past).length ≤ (issued (a :: past)).length := by
  cases a with
  | insert | allocate => exact Nat.le_succ _
  | insertWith | remove | drain => exact Nat.le_refl _

theorem Lawful.tail {a : Action α} {past : List (Action α)} (lawful : Lawful (a :: past)) :
    Lawful past := by
  cases a with
  | insertWith => exact lawful.2.2
  | insert | allocate | remove | drain => exact lawful

/-- The counter counts what was given out, and runs over. -/
theorem last_eq_ofNat (past : List (Action α)) :
    (held past).last = UInt32.ofNat (issued past).length := by
  induction past with
  | nil => rfl
  | cons a past ih =>
    have counted : (held past).last + 1 = UInt32.ofNat ((issued past).length + 1) := by
      rw [ih, UInt32.ofNat_add]
      rfl
    cases a with
    | insert | allocate => exact counted
    | insertWith => exact ih
    | remove o =>
      rw [held, Action.apply, remove]
      split <;> exact ih
    | drain => exact ih

/-- The counter counts what was given out. -/
theorem last_eq {past : List (Action α)} (few : (issued past).length < UInt32.size) :
    (held past).last.toNat = (issued past).length := by
  rw [last_eq_ofNat, UInt32.toNat_ofNat']
  exact Nat.mod_eq_of_lt few

/-- The next handle is one more than how many were given out. -/
theorem next_eq {past : List (Action α)} (few : (issued past).length + 1 < UInt32.size) :
    (held past).allocate.1.raw.toNat = (issued past).length + 1 := by
  change ((held past).last + 1).toNat = _
  rw [UInt32.toNat_add, last_eq (by omega)]
  exact Nat.mod_eq_of_lt few

theorem issued_bounds {past : List (Action α)} (few : (issued past).length < UInt32.size)
    {h : Handle} (mem : h ∈ issued past) :
    0 < h.raw.toNat ∧ h.raw.toNat ≤ (issued past).length := by
  induction past with
  | nil => cases mem
  | cons a past ih =>
    have before := ih (Nat.lt_of_le_of_lt (length_issued_le a past) few)
    have given (more : (issued past).length + 1 < UInt32.size)
        (mem : h ∈ (held past).allocate.1 :: issued past) :
        0 < h.raw.toNat ∧ h.raw.toNat ≤ (issued past).length + 1 := by
      rcases List.mem_cons.mp mem with rfl | earlier
      · rw [next_eq more]
        exact ⟨Nat.succ_pos _, Nat.le_refl _⟩
      · exact ⟨(before earlier).1, (before earlier).2.trans (Nat.le_succ _)⟩
    cases a with
    | insert | allocate => exact given few mem
    | insertWith | remove | drain => exact before mem

/-- Handles are given out in increasing order. -/
theorem issued_increasing {past : List (Action α)} (few : (issued past).length < UInt32.size) :
    (issued past).Pairwise fun later earlier => earlier.raw < later.raw := by
  induction past with
  | nil => exact .nil
  | cons a past ih =>
    have fewer := Nat.lt_of_le_of_lt (length_issued_le a past) few
    have greater (more : (issued past).length + 1 < UInt32.size) :
        ((held past).allocate.1 :: issued past).Pairwise
          fun later earlier => earlier.raw < later.raw := by
      refine List.pairwise_cons.mpr ⟨fun h mem => ?_, ih fewer⟩
      rw [UInt32.lt_iff_toNat_lt, next_eq more]
      exact Nat.lt_succ_of_le (issued_bounds fewer mem).2
    cases a with
    | insert | allocate => exact greater few
    | insertWith | remove | drain => exact ih fewer

theorem entered_issued {past : List (Action α)} (lawful : Lawful past) {h : Handle}
    (mem : h ∈ entered past) : h ∈ issued past := by
  induction past with
  | nil => cases mem
  | cons a past ih =>
    cases a with
    | insert =>
      rcases List.mem_cons.mp mem with rfl | mem
      · exact List.mem_cons_self
      · exact List.mem_cons_of_mem _ (ih lawful mem)
    | allocate => exact List.mem_cons_of_mem _ (ih lawful mem)
    | insertWith =>
      rcases List.mem_cons.mp mem with rfl | mem
      · exact lawful.1
      · exact ih lawful.2.2 mem
    | remove | drain => exact ih lawful mem

/-- Nothing was registered under the next handle. -/
theorem next_not_entered {past : List (Action α)} (lawful : Lawful past)
    (few : (issued past).length + 1 < UInt32.size) : (held past).allocate.1 ∉ entered past := by
  intro mem
  have := (issued_bounds (by omega) (entered_issued lawful mem)).2
  rw [next_eq few] at this
  omega

theorem standing_entered {past : List (Action α)} {o : ObjectRef} {h : Handle} {payload : α}
    (stands : standing o past = some (h, payload)) : h ∈ entered past := by
  induction past with
  | nil => cases stands
  | cons a past ih =>
    cases a with
    | insert o' payload' =>
      rw [standing] at stands
      split at stands
      · cases stands
        exact List.mem_cons_self
      · exact List.mem_cons_of_mem _ (ih stands)
    | allocate => exact ih stands
    | insertWith h' o' payload' =>
      rw [standing] at stands
      split at stands
      · cases stands
        exact List.mem_cons_self
      · exact List.mem_cons_of_mem _ (ih stands)
    | remove o' =>
      rw [standing] at stands
      split at stands
      · cases stands
      · exact ih stands
    | drain => cases stands

/-! ## The maps -/

/-- A registry holds the registrations of objects, each once in each of its maps. -/
structure Holds (r : Registry α) (stands : ObjectRef → Option (Handle × α)) : Prop where
  handles (o : ObjectRef) : r.handles.lookup o = (stands o).map Prod.fst
  entries {h : Handle} {e : Registration α} :
    r.entries.lookup h = some e ↔ stands e.object = some (h, e.payload)
  handlesOnce : (r.handles.map Prod.fst).Nodup
  entriesOnce : (r.entries.map Prod.fst).Nodup

namespace Holds

variable {r : Registry α} {stands : ObjectRef → Option (Handle × α)}

theorem nothing (last : UInt32) : Holds (⟨[], [], last⟩ : Registry α) fun _ => none where
  handles _ := rfl
  entries := ⟨nofun, nofun⟩
  handlesOnce := .nil
  entriesOnce := .nil

/-- No two objects are registered under one handle. -/
theorem unique (holds : r.Holds stands) {o o' : ObjectRef} {h : Handle} {payload payload' : α}
    (s : stands o = some (h, payload)) (s' : stands o' = some (h, payload')) : o = o' := by
  have found : r.entries.lookup h = some ⟨o, payload⟩ := holds.entries.mpr s
  have found' : r.entries.lookup h = some ⟨o', payload'⟩ := holds.entries.mpr s'
  cases found.symm.trans found'
  rfl

/-- What is left when the registration of an object is taken out. -/
theorem without (holds : r.Holds stands) (o : ObjectRef) {h : Handle} {payload : α}
    (s : stands o = some (h, payload)) {h' : Handle} {e : Registration α} :
    (Keyed.erase h r.entries).lookup h' = some e ↔
      e.object ≠ o ∧ stands e.object = some (h', e.payload) := by
  constructor
  · intro found
    obtain ⟨other, found⟩ := Keyed.lookup_erase_cases found
    have s' := holds.entries.mp found
    refine ⟨?_, s'⟩
    rintro rfl
    rw [s] at s'
    cases s'
    exact other rfl
  · rintro ⟨other, s'⟩
    have otherHandle : h' ≠ h := by
      rintro rfl
      exact other (holds.unique s' s)
    rw [Keyed.lookup_erase_of_ne otherHandle]
    exact holds.entries.mpr s'

/-- An object is registered under a handle that is not in use, instead of the one it had. -/
theorem insertWith (holds : r.Holds stands) {h : Handle} (o : ObjectRef) (payload : α)
    (unused : ∀ o' payload', stands o' ≠ some (h, payload')) :
    (r.insertWith h o payload).Holds
      fun o' => if o = o' then some (h, payload) else stands o' := by
  -- the entries that are kept are those of the other objects
  have kept : ∃ kept, (r.insertWith h o payload).entries = Keyed.put h ⟨o, payload⟩ kept ∧
      (kept.map Prod.fst).Nodup ∧
      ∀ {h' : Handle} {e : Registration α}, kept.lookup h' = some e ↔
        e.object ≠ o ∧ stands e.object = some (h', e.payload) := by
    have handle := holds.handles o
    unfold Registry.insertWith handleOf
    cases s : stands o with
    | none =>
      rw [s, Option.map_none] at handle
      simp only [handle]
      refine ⟨_, rfl, holds.entriesOnce, fun {h' e} => ?_⟩
      rw [holds.entries]
      refine ⟨fun s' => ⟨?_, s'⟩, And.right⟩
      rintro rfl
      rw [s] at s'
      cases s'
    | some old =>
      rw [s, Option.map_some] at handle
      simp only [handle]
      exact ⟨_, rfl, Keyed.nodup_erase _ holds.entriesOnce, holds.without o s⟩
  obtain ⟨kept, entries, once, others⟩ := kept
  constructor
  case handles =>
    intro o'
    change (Keyed.put o h r.handles).lookup o' = _
    by_cases here : o = o'
    · subst here
      rw [Keyed.lookup_put_self, if_pos rfl, Option.map_some]
    · rw [Keyed.lookup_put_of_ne (Ne.symm here), if_neg here, holds.handles]
  case entries =>
    intro h' e
    rw [entries]
    by_cases here : h' = h
    · subst here
      rw [Keyed.lookup_put_self]
      constructor
      · rintro ⟨⟩
        exact if_pos rfl
      · intro s
        split at s
        case isTrue same =>
          subst same
          cases s
          rfl
        case isFalse => exact absurd s (unused _ _)
    · rw [Keyed.lookup_put_of_ne here, others]
      constructor
      · rintro ⟨other, s⟩
        rwa [if_neg (Ne.symm other)]
      · intro s
        split at s
        case isTrue =>
          cases s
          exact absurd rfl here
        case isFalse other => exact ⟨Ne.symm other, s⟩
  case handlesOnce => exact Keyed.nodup_put _ _ holds.handlesOnce
  case entriesOnce =>
    rw [entries]
    exact Keyed.nodup_put _ _ once

theorem remove (holds : r.Holds stands) (o : ObjectRef) :
    (r.remove o).2.Holds (fun o' => if o = o' then none else stands o') ∧
      (r.remove o).1 = (stands o).map fun p => ⟨o, p.2⟩ := by
  have handle := holds.handles o
  unfold Registry.remove handleOf
  cases s : stands o with
  | none =>
    rw [s, Option.map_none] at handle
    simp only [handle]
    have same : (fun o' => if o = o' then none else stands o') = stands := by
      funext o'
      split
      case isTrue here => rw [← here, s]
      case isFalse => rfl
    rw [same]
    exact ⟨holds, rfl⟩
  | some old =>
    rw [s, Option.map_some] at handle
    simp only [handle]
    refine ⟨⟨fun o' => ?_, fun {h' e} => ?_, Keyed.nodup_erase _ holds.handlesOnce,
      Keyed.nodup_erase _ holds.entriesOnce⟩, holds.entries.mpr s⟩
    · by_cases here : o = o'
      · subst here
        rw [Keyed.lookup_erase_self, if_pos rfl, Option.map_none]
      · rw [Keyed.lookup_erase_of_ne (Ne.symm here), if_neg here, holds.handles]
    · refine (holds.without o s).trans ?_
      by_cases here : o = e.object
      · simp [here]
      · rw [if_neg here]
        exact and_iff_right (Ne.symm here)

end Holds

/-- A registry holds what its history says. -/
theorem holds_standing {past : List (Action α)} (lawful : Lawful past)
    (few : (issued past).length < UInt32.size) : (held past).Holds fun o => standing o past := by
  induction past with
  | nil => exact .nothing _
  | cons a past ih =>
    have holds := ih lawful.tail (Nat.lt_of_le_of_lt (length_issued_le a past) few)
    have fresh {h : Handle} (new : h ∉ entered past) (o : ObjectRef) (payload : α) :
        standing o past ≠ some (h, payload) := fun s => new (standing_entered s)
    cases a with
    | insert o payload =>
      have allocated : (held past).allocate.2.Holds fun o => standing o past :=
        ⟨holds.handles, holds.entries, holds.handlesOnce, holds.entriesOnce⟩
      exact allocated.insertWith o payload (fresh (next_not_entered lawful few))
    | allocate => exact ⟨holds.handles, holds.entries, holds.handlesOnce, holds.entriesOnce⟩
    | insertWith h o payload => exact holds.insertWith o payload (fresh lawful.2.1)
    | remove o => exact (holds.remove o).1
    | drain => exact .nothing _

/-! ## What is found -/

namespace Holds

variable {r : Registry α} {stands : ObjectRef → Option (Handle × α)}

theorem handleOf_eq_some_iff (holds : r.Holds stands) {o : ObjectRef} {h : Handle} :
    r.handleOf o = some h ↔ ∃ payload, stands o = some (h, payload) := by
  rw [handleOf, holds.handles, Option.map_eq_some_iff]
  constructor
  · rintro ⟨⟨h', payload⟩, s, rfl⟩
    exact ⟨payload, s⟩
  · rintro ⟨payload, s⟩
    exact ⟨(h, payload), s, rfl⟩

theorem resolve_eq_some_iff (holds : r.Holds stands) {o : ObjectRef} {h : Handle} :
    r.resolve h = some o ↔ ∃ payload, stands o = some (h, payload) := by
  rw [resolve, Option.map_eq_some_iff]
  constructor
  · rintro ⟨e, found, rfl⟩
    exact ⟨e.payload, holds.entries.mp found⟩
  · rintro ⟨payload, s⟩
    exact ⟨⟨o, payload⟩, holds.entries.mpr s, rfl⟩

theorem payload_eq (holds : r.Holds stands) (o : ObjectRef) :
    r.payload o = (stands o).map Prod.snd := by
  rw [payload, handleOf, holds.handles]
  cases s : stands o with
  | none => rfl
  | some p =>
    have found : r.entries.lookup p.1 = some ⟨o, p.2⟩ := holds.entries.mpr s
    change (r.entries.lookup p.1).map (·.payload) = some p.2
    rw [found, Option.map_some]

/-- The handles of the objects are those that something is behind. -/
theorem handles_perm (holds : r.Holds stands) :
    (r.handles.map Prod.snd).Perm (r.entries.map Prod.fst) := by
  refine (List.perm_ext_iff_of_nodup ?_ holds.entriesOnce).mpr fun h => ?_
  · refine List.Nodup.map_on ?_ (List.Nodup.of_map _ holds.handlesOnce)
    rintro ⟨o, h⟩ mem ⟨o', h'⟩ mem' (same : h = h')
    rw [Keyed.mem_iff_lookup holds.handlesOnce] at mem mem'
    subst same
    obtain ⟨payload, s⟩ := holds.handleOf_eq_some_iff.mp mem
    obtain ⟨payload', s'⟩ := holds.handleOf_eq_some_iff.mp mem'
    rw [holds.unique s s']
  · rw [Keyed.mem_keys_iff, List.mem_map]
    constructor
    · rintro ⟨⟨o, h⟩, mem, rfl⟩
      rw [Keyed.mem_iff_lookup holds.handlesOnce] at mem
      obtain ⟨payload, s⟩ := holds.handleOf_eq_some_iff.mp mem
      have found : r.entries.lookup h = some ⟨o, payload⟩ := holds.entries.mpr s
      rw [found, Option.isSome_some]
    · intro found
      obtain ⟨e, found⟩ := Option.isSome_iff_exists.mp found
      have registered := holds.handleOf_eq_some_iff.mpr ⟨e.payload, holds.entries.mp found⟩
      exact ⟨(e.object, h), (Keyed.mem_iff_lookup holds.handlesOnce).mpr registered, rfl⟩

theorem size_eq (holds : r.Holds stands) : r.size = r.handles.length := by
  have lengths := holds.handles_perm.length_eq
  rw [List.length_map, List.length_map] at lengths
  exact lengths.symm

/-- As many objects are registered as handles stand for something. -/
theorem size_eq_ncard (holds : r.Holds stands) :
    r.size = {o : ObjectRef | r.contains o = true}.ncard := by
  have objects : {o : ObjectRef | r.contains o = true} = ↑(r.handles.map Prod.fst).toFinset := by
    ext o
    rw [Set.mem_ofPred_eq, List.coe_toFinset, Set.mem_ofPred_eq, Keyed.mem_keys_iff]
    rfl
  rw [objects, Set.ncard_coe_finset, List.toFinset_card_of_nodup holds.handlesOnce, List.length_map,
    holds.size_eq]

theorem mem_ofKind_iff (holds : r.Holds stands) {kind : ObjectKind} {id : ObjectId} {h : Handle} :
    (id, h) ∈ r.ofKind kind ↔ r.handleOf ⟨kind, id⟩ = some h := by
  rw [handleOf, ← Keyed.mem_iff_lookup holds.handlesOnce, ofKind, List.mem_map]
  constructor
  · rintro ⟨⟨⟨kind', id'⟩, h'⟩, mem, same⟩
    obtain ⟨mem, ofKind⟩ := List.mem_filter.mp mem
    cases same
    rwa [← of_decide_eq_true ofKind]
  · intro mem
    exact ⟨(⟨kind, id⟩, h), List.mem_filter.mpr ⟨mem, decide_eq_true rfl⟩, rfl⟩

/-- An object of a kind is listed once. -/
theorem nodup_ofKind (holds : r.Holds stands) (kind : ObjectKind) :
    ((r.ofKind kind).map Prod.fst).Nodup := by
  rw [ofKind, List.map_map]
  refine List.Nodup.map_on ?_ (List.Nodup.filter _ (List.Nodup.of_map _ holds.handlesOnce))
  rintro ⟨⟨kind₁, id⟩, h₁⟩ listed₁ ⟨⟨kind₂, id₂⟩, h₂⟩ listed₂ (same : id = id₂)
  obtain ⟨mem₁, ofKind₁⟩ := List.mem_filter.mp listed₁
  obtain ⟨mem₂, ofKind₂⟩ := List.mem_filter.mp listed₂
  obtain rfl : kind₁ = kind := of_decide_eq_true ofKind₁
  obtain rfl : kind₂ = kind₁ := of_decide_eq_true ofKind₂
  subst same
  have found₁ := (Keyed.mem_iff_lookup holds.handlesOnce).mp mem₁
  have found₂ := (Keyed.mem_iff_lookup holds.handlesOnce).mp mem₂
  rw [Option.some.inj (found₁.symm.trans found₂)]

/-- What is taken out is what was there, an object once. -/
theorem mem_drain_iff (holds : r.Holds stands) {e : Registration α} :
    e ∈ r.drain.1 ↔ r.payload e.object = some e.payload := by
  rw [holds.payload_eq, Option.map_eq_some_iff]
  change e ∈ r.entries.map Prod.snd ↔ _
  rw [List.mem_map]
  constructor
  · rintro ⟨⟨h, e⟩, mem, rfl⟩
    exact ⟨(h, e.payload), holds.entries.mp ((Keyed.mem_iff_lookup holds.entriesOnce).mp mem), rfl⟩
  · rintro ⟨⟨h, payload⟩, s, rfl⟩
    exact ⟨(h, e), (Keyed.mem_iff_lookup holds.entriesOnce).mpr (holds.entries.mpr s), rfl⟩

theorem nodup_drain (holds : r.Holds stands) : (r.drain.1.map (·.object)).Nodup := by
  change ((r.entries.map Prod.snd).map (·.object)).Nodup
  rw [List.map_map]
  refine List.Nodup.map_on ?_ (List.Nodup.of_map _ holds.entriesOnce)
  rintro ⟨h, e⟩ mem ⟨h', e'⟩ mem' (same : e.object = e'.object)
  have s := holds.entries.mp ((Keyed.mem_iff_lookup holds.entriesOnce).mp mem)
  have s' := holds.entries.mp ((Keyed.mem_iff_lookup holds.entriesOnce).mp mem')
  rw [same, s'] at s
  obtain ⟨object, payload⟩ := e
  obtain ⟨object', payload'⟩ := e'
  cases same
  cases s
  rfl

end Holds

/-- What is behind the handle of an object is kept for the object. -/
theorem payloadByHandle_of_handleOf {r : Registry α} {o : ObjectRef} {h : Handle}
    (registered : r.handleOf o = some h) : r.payloadByHandle h = r.payload o := by
  rw [payload, registered, Option.bind_some]

/-- Every object is of one kind. -/
theorem sum_count (r : Registry α) :
    r.count .deleted + (ObjectKind.live.map r.count).sum = r.handles.length := by
  obtain ⟨entries, handles, last⟩ := r
  simp only [count, ObjectKind.live, List.map_cons, List.map_nil, List.sum_cons, List.sum_nil]
  induction handles with
  | nil => rfl
  | cons p handles ih =>
    obtain ⟨⟨kind, id⟩, h⟩ := p
    rw [List.length_cons, ← ih]
    cases kind <;> simp <;> omega

/-! ## Handles that stand for nothing -/

theorem entered_append {later earlier : List (Action α)} {h : Handle} (mem : h ∈ entered earlier) :
    h ∈ entered (later ++ earlier) := by
  induction later with
  | nil => exact mem
  | cons a later ih =>
    cases a with
    | insert | insertWith => exact List.mem_cons_of_mem _ ih
    | allocate | remove | drain => exact ih

/-- What stands under a handle that was used before stood under it before. -/
theorem standing_of_entered {a : Action α} {past : List (Action α)} (lawful : Lawful (a :: past))
    (few : (issued (a :: past)).length < UInt32.size) {o : ObjectRef} {h : Handle} {payload : α}
    (mem : h ∈ entered past) (stands : standing o (a :: past) = some (h, payload)) :
    standing o past = some (h, payload) := by
  cases a with
  | insert o' payload' =>
    rw [standing] at stands
    split at stands
    · cases stands
      exact absurd mem (next_not_entered lawful few)
    · exact stands
  | allocate => exact stands
  | insertWith h' o' payload' =>
    rw [standing] at stands
    split at stands
    · cases stands
      exact absurd mem lawful.2.1
    · exact stands
  | remove o' =>
    rw [standing] at stands
    split at stands
    · cases stands
    · exact stands
  | drain => cases stands

/-- A handle that was registered under stands for what it stood for, or for nothing. -/
theorem lookup_of_entered {later earlier : List (Action α)} (lawful : Lawful (later ++ earlier))
    (few : (issued (later ++ earlier)).length < UInt32.size) {h : Handle} {e : Registration α}
    (mem : h ∈ entered earlier) (found : (held (later ++ earlier)).entries.lookup h = some e) :
    (held earlier).entries.lookup h = some e := by
  induction later with
  | nil => exact found
  | cons a later ih =>
    have fewer := Nat.lt_of_le_of_lt (length_issued_le a (later ++ earlier)) few
    have stands := (holds_standing lawful few).entries.mp found
    have stood := standing_of_entered lawful few (entered_append mem) stands
    exact ih lawful.tail fewer ((holds_standing lawful.tail fewer).entries.mpr stood)

/-- A handle that an object was registered under and that does not stand for it any more never
stands for anything again. -/
theorem resolve_none_of_entered {later earlier : List (Action α)}
    (lawful : Lawful (later ++ earlier))
    (few : (issued (later ++ earlier)).length < UInt32.size) {h : Handle}
    (mem : h ∈ entered earlier)
    (gone : (held earlier).resolve h = none) : (held (later ++ earlier)).resolve h = none := by
  rw [resolve, Option.map_eq_none_iff] at gone ⊢
  refine Option.eq_none_iff_forall_ne_some.mpr fun e found => ?_
  cases gone.symm.trans (lookup_of_entered lawful few mem found)

/-- The handle of nothing stands for nothing. -/
theorem resolve_null {past : List (Action α)} (lawful : Lawful past)
    (few : (issued past).length < UInt32.size) : (held past).resolve .null = none := by
  refine Option.eq_none_iff_forall_ne_some.mpr fun o found => ?_
  obtain ⟨payload, stands⟩ := (holds_standing lawful few).resolve_eq_some_iff.mp found
  have positive := (issued_bounds few (entered_issued lawful (standing_entered stands))).1
  exact Nat.lt_irrefl 0 positive

/-! ## Both maps -/

/-- What a registry answers, after all that was done with it. -/
structure Consistent (past : List (Action α)) : Prop where
  /-- The maps are inverse to each other. -/
  inverse : ∀ o h, (held past).handleOf o = some h ↔ (held past).resolve h = some o
  /-- An object has the handle and the payload of its last registration, if nothing took it out. -/
  handle : ∀ o, (held past).handleOf o = (standing o past).map Prod.fst
  payload : ∀ o, (held past).payload o = (standing o past).map Prod.snd
  behind : ∀ o h, (held past).handleOf o = some h →
    (held past).payloadByHandle h = (held past).payload o
  /-- The objects that have a handle are counted, in all and by their kinds. -/
  size : (held past).size = {o | (held past).contains o = true}.ncard
  kinds : (held past).size =
    (held past).count .deleted + (ObjectKind.live.map (held past).count).sum
  /-- Those of a kind are listed with their handles, each once. -/
  listed : ∀ kind id h, (id, h) ∈ (held past).ofKind kind ↔ (held past).handleOf ⟨kind, id⟩ = some h
  listedOnce : ∀ kind, (((held past).ofKind kind).map Prod.fst).Nodup
  count : ∀ kind, (held past).count kind = ((held past).ofKind kind).length
  /-- What is taken out is what was there. -/
  removed : ∀ o, ((held past).remove o).1 = ((held past).payload o).map fun payload => ⟨o, payload⟩
  drained : ∀ e, e ∈ (held past).drain.1 ↔ (held past).payload e.object = some e.payload
  drainedOnce : ((held past).drain.1.map (·.object)).Nodup
  /-- A handle that stands for nothing any more never stands for anything again, and a later handle
  is greater than all earlier ones. -/
  null : (held past).resolve .null = none
  gone : ∀ later earlier, past = later ++ earlier → ∀ h ∈ entered earlier,
    (held earlier).resolve h = none → (held past).resolve h = none
  increasing : (issued past).Pairwise fun later earlier => earlier.raw < later.raw

/-- The maps of a registry are inverse to each other and hold what was registered and not taken out
since, as long as no handle is used twice and the counter of handles has not run over. -/
theorem indexes_inverse {past : List (Action α)} (lawful : Lawful past)
    (few : (issued past).length < UInt32.size) : Consistent past := by
  have holds := holds_standing lawful few
  constructor
  case inverse => exact fun o h => holds.handleOf_eq_some_iff.trans holds.resolve_eq_some_iff.symm
  case handle => exact holds.handles
  case payload => exact holds.payload_eq
  case behind => exact fun o h => payloadByHandle_of_handleOf
  case size => exact holds.size_eq_ncard
  case kinds => rw [sum_count, holds.size_eq]
  case listed => exact fun kind id h => holds.mem_ofKind_iff
  case listedOnce => exact holds.nodup_ofKind
  case count => exact fun kind => (List.length_map _).symm
  case removed =>
    intro o
    rw [(holds.remove o).2, holds.payload_eq, Option.map_map]
    rfl
  case drained => exact fun e => holds.mem_drain_iff
  case drainedOnce => exact holds.nodup_drain
  case null => exact resolve_null lawful few
  case gone =>
    rintro later earlier rfl h mem gone
    exact resolve_none_of_entered lawful few mem gone
  case increasing => exact issued_increasing few

/-- A card is registered, taken out and registered again under a handle that was given out
before. -/
theorem indexes_inverse_again :
    Consistent [.insertWith ⟨2⟩ (.card ⟨1⟩) 'b', .remove (.card ⟨1⟩), .allocate,
      .insert (.card ⟨1⟩) 'a'] :=
  indexes_inverse ⟨by decide, by decide, trivial⟩ (by decide)

end Registry

end CardBridge
