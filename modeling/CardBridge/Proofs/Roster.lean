import CardBridge.Registry
import CardBridge.Session.Collector
import CardBridge.Session.State
import Mathlib.Algebra.Ring.Nat
import Mathlib.Data.List.Nodup
import Mathlib.Data.List.Perm.Basic

/-!
# Game objects, the registry, and registrations in progress

What scripts hold for an object, a game object, says itself whether it is live, and the registry
finds that of an object by two maps. A registration takes several steps, and what runs between them
may register and unregister, too. A `Roster` is the game objects, the registry and the registrations
in progress, and a `Roster.Turn` is what a step makes of it.

`Kept` is what keeps its parts from contradicting each other : game objects and registrations have
handles of their own, the two maps are inverse to each other, and a game object is live exactly
while the registry leads to it, while it is being made, or if another one was entered in its place
while it was live. It is kept as long as the counter of handles has not run over (`Turn.kept`).

Scripts may hold a game object for ever. What becomes of it is that it stays what it is or is
deleted (`Persists`).
-/

namespace CardBridge

namespace GameObject

variable {objects : Array GameObject}

theorem live?_eq_some_iff {g : GameObject} {o : ObjectRef} :
    g.live? = some o ↔ g.deleted = false ∧ g.object = o := by
  unfold live?
  cases g.deleted <;> simp

/-- A live game object is of the kind of what it stands for. -/
theorem kind_of_live? {g : GameObject} {o : ObjectRef} (h : g.live? = some o) :
    g.kind = o.kind := by
  obtain ⟨alive, rfl⟩ := live?_eq_some_iff.mp h
  simp [kind, alive]

theorem live?_eq_none_iff {g : GameObject} : g.live? = none ↔ g.deleted = true := by
  unfold live?
  cases g.deleted <;> simp

theorem eq_sentinel : ∀ {n : Nat} {g : GameObject}, #[GameObject.sentinel][n]? = some g →
    n = 0 ∧ g = .sentinel
  | 0, _, h => ⟨rfl, (Option.some.inj h).symm⟩
  | n + 1, _, h => by simp at h

theorem getElem?_push_cases {x g : GameObject} {n : Nat} (h : (objects.push x)[n]? = some g) :
    (n = objects.size ∧ g = x) ∨ (n < objects.size ∧ objects[n]? = some g) := by
  rw [Array.getElem?_push] at h
  split at h
  case isTrue last => exact .inl ⟨last, (Option.some.inj h).symm⟩
  case isFalse => exact .inr ⟨(Array.getElem?_eq_some_iff.mp h).1, h⟩

theorem getElem?_push_of_some {x g : GameObject} {n : Nat} (h : objects[n]? = some g) :
    (objects.push x)[n]? = some g := by
  have lt := (Array.getElem?_eq_some_iff.mp h).1
  rw [Array.getElem?_push, if_neg (Nat.ne_of_lt lt)]
  exact h

theorem getElem?_modify_eq_some {f : GameObject → GameObject} {k n : Nat} {g : GameObject} :
    (objects.modify k f)[n]? = some g ↔
      ∃ g', objects[n]? = some g' ∧ (if k = n then f g' else g') = g := by
  rw [Array.getElem?_modify]
  split
  case isTrue => rw [Option.map_eq_some_iff]
  case isFalse => exact ⟨fun h => ⟨g, h, rfl⟩, fun ⟨_, h, e⟩ => e ▸ h⟩

end GameObject

/-! ## What becomes of a game object -/

/-- Game objects stay what they are, or are deleted. -/
def Persists (objects objects' : Array GameObject) : Prop :=
  ∀ (n : Nat) (g : GameObject), objects[n]? = some g → ∃ g', objects'[n]? = some g' ∧
    g'.handle = g.handle ∧ g'.object = g.object ∧ (g.deleted → g'.deleted)

namespace Persists

variable {objects objects' objects'' : Array GameObject}

theorem refl (objects : Array GameObject) : Persists objects objects :=
  fun _ _ h => ⟨_, h, rfl, rfl, id⟩

theorem trans (h : Persists objects objects') (h' : Persists objects' objects'') :
    Persists objects objects'' := by
  intro n g hn
  obtain ⟨g', hn', handle, object, dead⟩ := h n g hn
  obtain ⟨g'', hn'', handle', object', dead'⟩ := h' n g' hn'
  exact ⟨g'', hn'', handle'.trans handle, object'.trans object, dead' ∘ dead⟩

theorem push (objects : Array GameObject) (g : GameObject) : Persists objects (objects.push g) :=
  fun _ _ h => ⟨_, GameObject.getElem?_push_of_some h, rfl, rfl, id⟩

theorem modify (objects : Array GameObject) (k : Nat) {f : GameObject → GameObject}
    (hf : ∀ g, (f g).handle = g.handle ∧ (f g).object = g.object ∧ (g.deleted → (f g).deleted)) :
    Persists objects (objects.modify k f) := by
  intro n g h
  refine ⟨_, GameObject.getElem?_modify_eq_some.mpr ⟨g, h, rfl⟩, ?_⟩
  split
  · exact hf g
  · exact ⟨rfl, rfl, id⟩

theorem size_le (h : Persists objects objects') : objects.size ≤ objects'.size := by
  refine Nat.le_of_not_lt fun lt => ?_
  obtain ⟨g', hg', -⟩ := h _ _ (Array.getElem?_eq_getElem lt)
  exact absurd (Array.getElem?_eq_some_iff.mp hg').1 (Nat.lt_irrefl _)

end Persists

/-- The game objects, the registry and the registrations in progress. -/
structure Roster where
  objects : Array GameObject
  registry : Registry Nat
  bindings : List Binding

namespace Roster

/-- Take an object out. -/
def unregister (k : Roster) (o : ObjectRef) : Roster :=
  { k with
    objects := match (k.registry.remove o).1 with
      | some r => k.objects.modify r.payload GameObject.delete
      | none => k.objects
    registry := (k.registry.remove o).2 }

/-- What a step makes of the roster, with the game objects that it replaces. -/
inductive Turn : Roster → List Nat → Roster → Prop
  | rest (k : Roster) : Turn k [] k
  | refresh {k : Roster} {o : ObjectRef} {n : Nat} (known : k.registry.payload o = some n)
    (cls : Option String) :
    Turn k [] { k with objects := k.objects.modify n fun g => { g with cls } }
  | unregister (k : Roster) (o : ObjectRef) : Turn k [] (k.unregister o)
  | allocate {k : Roster} {o : ObjectRef} (new : k.registry.payload o = none) (height : Nat) :
    Turn k [] { k with
      registry := k.registry.allocate.2
      bindings := ⟨height, o, k.registry.allocate.1, none⟩ :: k.bindings }
  | make {objects : Array GameObject} {r : Registry Nat} {b : Binding} {bs : List Binding}
    (unmade : b.made = none) (cls : Option String) :
    Turn ⟨objects, r, b :: bs⟩ [] ⟨objects.push ⟨b.handle, b.object, false, cls⟩, r,
      { b with made := some objects.size } :: bs⟩
  | enter {objects : Array GameObject} {r : Registry Nat} {b : Binding} {bs : List Binding}
      {n : Nat}
    (made : b.made = some n) :
    Turn ⟨objects, r, b :: bs⟩ (r.payload b.object).toList
      ⟨objects, r.insertWith b.handle b.object n, bs⟩

end Roster

/-! ## What is kept -/

namespace Roster

/-- The game objects that are being made. -/
def making (k : Roster) : List Nat :=
  k.bindings.filterMap (·.made)

/-- The handles that registrations in progress have, but no game object yet. -/
def unused (k : Roster) : List Handle :=
  (k.bindings.filter (·.made.isNone)).map (·.handle)

/-- The handles that were given out, and that of nothing. -/
def given (k : Roster) : List Handle :=
  k.objects.toList.map (·.handle) ++ k.unused

theorem length_given (objects : Array GameObject) (r : Registry Nat) (bs : List Binding) :
    (given ⟨objects, r, bs⟩).length = objects.size + (bs.filter (·.made.isNone)).length := by
  simp [given, unused]

end Roster

/-- The game objects, the registry and the registrations in progress do not contradict each other,
when some game objects were replaced. -/
structure Kept (k : Roster) (lost : List Nat) : Prop where
  sentinel : k.objects[0]? = some .sentinel
  /-- No handle is given out twice. -/
  distinct : k.given.Nodup
  given_le : ∀ h ∈ k.given, h.raw ≤ k.registry.last
  last : k.given.length = k.registry.last.toNat + 1
  once : k.making.Nodup
  /-- A game object that is being made is live, but the registry does not know it. -/
  making {b : Binding} {n : Nat} : b ∈ k.bindings → b.made = some n →
    ∃ g, k.objects[n]? = some g ∧ g.deleted = false ∧ g.object = b.object ∧ g.handle = b.handle ∧
      k.registry.entries.lookup b.handle = none
  /-- The registry leads to live game objects, and back. -/
  entries {h : Handle} {e : Registration Nat} : k.registry.entries.lookup h = some e →
    ∃ g, k.objects[e.payload]? = some g ∧ g.deleted = false ∧ g.object = e.object ∧ g.handle = h ∧
      k.registry.handles.lookup e.object = some h
  handles {o : ObjectRef} {h : Handle} : k.registry.handles.lookup o = some h →
    ∃ n, k.registry.entries.lookup h = some ⟨o, n⟩
  /-- All others that are live were replaced. -/
  live {n : Nat} {g : GameObject} : k.objects[n]? = some g → g.deleted = false →
    k.registry.entries.lookup g.handle = some ⟨g.object, n⟩ ∨ n ∈ k.making ∨ n ∈ lost
  /-- What was replaced is live but not known any more, and one with a lesser handle came after
  it. -/
  lost {n : Nat} : n ∈ lost → ∃ g, k.objects[n]? = some g ∧ g.deleted = false ∧
    k.registry.entries.lookup g.handle = none ∧ n ∉ k.making ∧
    ∃ (n' : Nat) (g' : GameObject), k.objects[n']? = some g' ∧ g'.object = g.object ∧
      g'.handle.raw < g.handle.raw
  /-- A registration that began during another one has a greater handle. -/
  ordered : k.bindings.Pairwise fun b b' => b'.handle.raw < b.handle.raw
  /-- So has what is entered during it for the same object. -/
  nested {b : Binding} {h : Handle} {n : Nat} : b ∈ k.bindings →
    k.registry.entries.lookup h = some ⟨b.object, n⟩ → b.handle.raw < h.raw

namespace Kept

variable {k : Roster} {lost : List Nat}

theorem mem_given {n : Nat} {g : GameObject} (h : k.objects[n]? = some g) :
    g.handle ∈ k.given := by
  refine List.mem_append_left _ (List.mem_map_of_mem ?_)
  exact Array.mem_toList_iff.mpr (Array.mem_of_getElem? h)

/-- A game object is known by its handle. -/
theorem number_unique (a : Kept k lost) {n n' : Nat} {g g' : GameObject}
    (h : k.objects[n]? = some g) (h' : k.objects[n']? = some g') (same : g.handle = g'.handle) :
    n = n' := by
  have distinct := (List.nodup_append.mp a.distinct).1
  have lt : n < (k.objects.toList.map (·.handle)).length := by
    simpa using (Array.getElem?_eq_some_iff.mp h).1
  refine (List.getElem?_inj lt distinct).mp ?_
  simp [h, h', same]

/-- The handle of a registration was given out. -/
theorem binding_given (a : Kept k lost) {b : Binding} (mem : b ∈ k.bindings) :
    b.handle ∈ k.given := by
  cases made : b.made with
  | none =>
    refine List.mem_append_right _ (List.mem_map_of_mem (List.mem_filter.mpr ⟨mem, ?_⟩))
    rw [made]
    rfl
  | some n =>
    obtain ⟨g, hg, -, -, handle, -⟩ := a.making mem made
    exact handle ▸ mem_given hg

/-- A game object that is being made is that of one registration. -/
theorem binding_unique (a : Kept k lost) {b : Binding} {bs : List Binding} {n : Nat}
    (first : k.bindings = b :: bs) (made : b.made = some n) :
    n ∉ bs.filterMap (·.made) ∧ (bs.filterMap (·.made)).Nodup := by
  have once := a.once
  rw [Roster.making, first, List.filterMap_cons_some made] at once
  exact List.nodup_cons.mp once

/-- What stands behind a handle leads back to it. -/
theorem handleOf_of_lookup (a : Kept k lost) {h : Handle} {e : Registration Nat}
    (he : k.registry.entries.lookup h = some e) : k.registry.handleOf e.object = some h := by
  obtain ⟨_, _, _, _, _, back⟩ := a.entries he
  exact back

/-- What is registered is found by a handle. -/
theorem payload_eq_some_iff (a : Kept k lost) {o : ObjectRef} {n : Nat} :
    k.registry.payload o = some n ↔ ∃ h, k.registry.entries.lookup h = some ⟨o, n⟩ := by
  simp only [Registry.payload, Registry.handleOf, Registry.payloadByHandle,
    Option.bind_eq_some_iff, Option.map_eq_some_iff]
  refine ⟨fun ⟨h, ho, e, he, same⟩ => ?_, fun ⟨h, he⟩ => ?_⟩
  · obtain ⟨n', hn'⟩ := a.handles ho
    cases he.symm.trans hn'
    exact ⟨h, same ▸ he⟩
  · exact ⟨h, a.handleOf_of_lookup he, _, he, rfl⟩

theorem fresh : Kept ⟨#[.sentinel], .empty, []⟩ [] := by
  refine ⟨rfl, by decide, by decide, rfl, .nil, nofun, nofun, nofun, fun h live => ?_, nofun, .nil,
    nofun⟩
  obtain ⟨-, rfl⟩ := GameObject.eq_sentinel h
  cases live

theorem map_handle_modify (objects : Array GameObject) (k : Nat) {f : GameObject → GameObject}
    (hf : ∀ g, (f g).handle = g.handle) :
    (objects.modify k f).toList.map (·.handle) = objects.toList.map (·.handle) := by
  refine List.ext_getElem? fun n => ?_
  simp only [List.getElem?_map, Array.getElem?_toList, Array.getElem?_modify]
  split <;> cases objects[n]? <;> simp [hf]

/-- A registered card can be given another class. -/
theorem refresh (a : Kept k lost) {o : ObjectRef} {n : Nat} (known : k.registry.payload o = some n)
    (cls : Option String) :
    Kept { k with objects := k.objects.modify n fun g => { g with cls } } lost := by
  obtain ⟨h, ho, hn⟩ := Option.bind_eq_some_iff.mp known
  obtain ⟨e, he, rfl⟩ := Option.map_eq_some_iff.mp hn
  obtain ⟨g₀, hg₀, live₀, -⟩ := a.entries he
  have now {n' : Nat} {g : GameObject} (hg : k.objects[n']? = some g) :
      ∃ g', (k.objects.modify e.payload fun g => { g with cls })[n']? = some g' ∧
        g'.deleted = g.deleted ∧ g'.object = g.object ∧ g'.handle = g.handle := by
    refine ⟨_, GameObject.getElem?_modify_eq_some.mpr ⟨g, hg, rfl⟩, ?_⟩
    split <;> exact ⟨rfl, rfl, rfl⟩
  have same :
      Roster.given { k with objects := k.objects.modify e.payload fun g => { g with cls } } =
      k.given := congrArg (· ++ k.unused) (map_handle_modify _ _ fun _ => rfl)
  refine ⟨?_, same ▸ a.distinct, same ▸ a.given_le, same ▸ a.last, a.once, fun mem made => ?_,
    fun he' => ?_, a.handles, fun hg live => ?_, fun mem => ?_, a.ordered, a.nested⟩
  · refine GameObject.getElem?_modify_eq_some.mpr ⟨_, a.sentinel, if_neg fun eq => ?_⟩
    rw [eq, a.sentinel] at hg₀
    cases hg₀
    cases live₀
  · obtain ⟨g, hg, live, object, handle, none⟩ := a.making mem made
    obtain ⟨g', hg', deleted', object', handle'⟩ := now hg
    exact ⟨g', hg', deleted'.trans live, object'.trans object, handle'.trans handle, none⟩
  · obtain ⟨g, hg, live, object, handle, back⟩ := a.entries he'
    obtain ⟨g', hg', deleted', object', handle'⟩ := now hg
    exact ⟨g', hg', deleted'.trans live, object'.trans object, handle'.trans handle, back⟩
  · obtain ⟨g', hg', rfl⟩ := GameObject.getElem?_modify_eq_some.mp hg
    split at live
    case isTrue same =>
      have before := a.live hg' live
      rwa [if_pos same]
    case isFalse other =>
      have before := a.live hg' live
      rwa [if_neg other]
  · obtain ⟨g, hg, live, none, other, n', g₁, hg₁, same, less⟩ := a.lost mem
    obtain ⟨g', hg', deleted', object', handle'⟩ := now hg
    obtain ⟨g₁', hg₁', -, object₁, handle₁⟩ := now hg₁
    exact ⟨g', hg', deleted'.trans live, handle' ▸ none, other, n', g₁', hg₁',
      by rw [object₁, object', same], by rwa [handle₁, handle']⟩

/-- An object that is taken out leaves a deleted game object. -/
theorem unregister (a : Kept k lost) (o : ObjectRef) : Kept (k.unregister o) lost := by
  unfold Roster.unregister Registry.remove
  cases ho : k.registry.handleOf o with
  | none => exact a
  | some h =>
    obtain ⟨n, hn⟩ := a.handles ho
    obtain ⟨g₀, hg₀, live₀, -, handle₀, -⟩ := a.entries hn
    simp only [hn]
    -- A game object with another handle is left as it is.
    have other {n' : Nat} {g : GameObject} (hg : k.objects[n']? = some g) (ne : g.handle ≠ h) :
        (k.objects.modify n GameObject.delete)[n']? = some g := by
      refine GameObject.getElem?_modify_eq_some.mpr ⟨g, hg, if_neg ?_⟩
      rintro rfl
      cases hg₀.symm.trans hg
      exact ne handle₀
    have ne_of_none {h' : Handle} (none : k.registry.entries.lookup h' = none) : h' ≠ h := by
      rintro rfl
      rw [hn] at none
      cases none
    have same : Roster.given { k with
        objects := k.objects.modify n GameObject.delete
        registry := { k.registry with
          entries := Keyed.erase h k.registry.entries
          handles := Keyed.erase o k.registry.handles } } = k.given :=
      congrArg (· ++ k.unused) (map_handle_modify _ _ fun _ => rfl)
    refine ⟨?_, same ▸ a.distinct, same ▸ a.given_le, same ▸ a.last, a.once, fun mem made => ?_,
      fun he => ?_, fun {o' h'} ho' => ?_, fun hg live => ?_, fun mem => ?_, a.ordered,
      fun mem he => a.nested mem (Keyed.lookup_erase_cases he).2⟩
    · exact GameObject.getElem?_modify_eq_some.mpr ⟨_, a.sentinel, by split <;> rfl⟩
    · obtain ⟨g, hg, live, object, handle, none⟩ := a.making mem made
      have ne := ne_of_none none
      refine ⟨g, other hg (handle ▸ ne), live, object, handle, ?_⟩
      rw [Keyed.lookup_erase_of_ne ne]
      exact none
    · obtain ⟨ne, he⟩ := Keyed.lookup_erase_cases he
      obtain ⟨g, hg, live, object, handle, back⟩ := a.entries he
      refine ⟨g, other hg (handle ▸ ne), live, object, handle, ?_⟩
      rw [Keyed.lookup_erase_of_ne]
      · exact back
      · intro same
        rw [same] at back
        exact ne (Option.some.inj (back.symm.trans ho))
    · obtain ⟨ne, ho'⟩ := Keyed.lookup_erase_cases ho'
      obtain ⟨n', hn'⟩ := a.handles ho'
      refine ⟨n', ?_⟩
      rw [Keyed.lookup_erase_of_ne]
      · exact hn'
      · rintro rfl
        cases hn.symm.trans hn'
        exact ne rfl
    · obtain ⟨g, hg', rfl⟩ := GameObject.getElem?_modify_eq_some.mp hg
      split at live
      case isTrue => cases live
      case isFalse different =>
        have before := a.live hg' live
        rw [if_neg different, Keyed.lookup_erase_of_ne]
        · exact before
        · exact fun same => different (a.number_unique hg₀ hg' (handle₀.trans same.symm))
    · obtain ⟨g, hg, live, none, free, n', g₁, hg₁, object, less⟩ := a.lost mem
      have ne := ne_of_none none
      refine ⟨g, other hg ne, live, ?_, free, n', _,
        GameObject.getElem?_modify_eq_some.mpr ⟨g₁, hg₁, rfl⟩, ?_⟩
      · rw [Keyed.lookup_erase_of_ne ne]
        exact none
      · split <;> exact ⟨object, less⟩

/-- A registration begins with the next handle. -/
theorem allocate (a : Kept k lost) {o : ObjectRef} (new : k.registry.payload o = none)
    (height : Nat) (room : k.given.length < 2 ^ 32) :
    Kept { k with
      registry := k.registry.allocate.2
      bindings := ⟨height, o, k.registry.allocate.1, none⟩ :: k.bindings } lost := by
  have next : (k.registry.last + 1).toNat = k.registry.last.toNat + 1 := by
    rw [UInt32.toNat_add, UInt32.toNat_one, Nat.mod_eq_of_lt]
    rw [← a.last]
    exact room
  have less : k.registry.last < k.registry.last + 1 := by
    rw [UInt32.lt_iff_toNat_lt, next]
    exact Nat.lt_succ_self _
  have unused : (⟨k.registry.last + 1⟩ : Handle) ∉ k.given := by
    intro mem
    exact absurd (a.given_le _ mem) (UInt32.not_le.mpr less)
  have given : Roster.given { k with
      registry := k.registry.allocate.2
      bindings := ⟨height, o, k.registry.allocate.1, none⟩ :: k.bindings } =
        k.objects.toList.map (·.handle) ++ ⟨k.registry.last + 1⟩ :: k.unused := rfl
  refine ⟨a.sentinel, ?_, ?_, ?_, a.once, fun mem made => ?_, a.entries, a.handles, a.live, a.lost,
    List.pairwise_cons.mpr ⟨fun b mem => ?_, a.ordered⟩, fun mem he => ?_⟩
  · rw [given, List.perm_middle.nodup_iff]
    exact List.nodup_cons.mpr ⟨unused, a.distinct⟩
  · intro h mem
    rw [given, List.perm_middle.mem_iff] at mem
    obtain rfl | mem := List.mem_cons.mp mem
    · exact UInt32.le_refl _
    · exact UInt32.le_of_lt (UInt32.lt_of_le_of_lt (a.given_le h mem) less)
  · rw [given, List.perm_middle.length_eq, List.length_cons]
    change k.given.length + 1 = (k.registry.last + 1).toNat + 1
    rw [next, a.last]
  · obtain rfl | mem := List.mem_cons.mp mem
    · cases made
    · exact a.making mem made
  · exact UInt32.lt_of_le_of_lt (a.given_le _ (a.binding_given mem)) less
  · obtain rfl | mem := List.mem_cons.mp mem
    · cases new.symm.trans (a.payload_eq_some_iff.mpr ⟨_, he⟩)
    · exact a.nested mem he

/-- A game object is made under the handle of its registration. -/
theorem make {objects : Array GameObject} {r : Registry Nat} {b : Binding} {bs : List Binding}
    (a : Kept ⟨objects, r, b :: bs⟩ lost) (unmade : b.made = none) (cls : Option String) :
    Kept ⟨objects.push ⟨b.handle, b.object, false, cls⟩, r,
      { b with made := some objects.size } :: bs⟩ lost := by
  have unused :
      Roster.unused ⟨objects, r, b :: bs⟩ = b.handle :: Roster.unused ⟨objects, r, bs⟩ := by
    simp [Roster.unused, unmade]
  have given : Roster.given ⟨objects.push ⟨b.handle, b.object, false, cls⟩, r,
      { b with made := some objects.size } :: bs⟩ = Roster.given ⟨objects, r, b :: bs⟩ := by
    rw [Roster.given, Roster.given, unused]
    simp [Roster.unused]
  have before : Roster.making ⟨objects, r, b :: bs⟩ = bs.filterMap (·.made) :=
    List.filterMap_cons_none unmade
  have after : Roster.making ⟨objects.push ⟨b.handle, b.object, false, cls⟩, r,
      { b with made := some objects.size } :: bs⟩ = objects.size :: bs.filterMap (·.made) := rfl
  have lt {n : Nat} {g : GameObject} (hg : objects[n]? = some g) : n ≠ objects.size :=
    Nat.ne_of_lt (Array.getElem?_eq_some_iff.mp hg).1
  -- The handle of the registration is that of no game object so far.
  have new : r.entries.lookup b.handle = none := by
    refine Option.eq_none_iff_forall_ne_some.mpr fun e he => ?_
    obtain ⟨g, hg, -, -, handle, -⟩ := a.entries he
    have apart := (List.nodup_append.mp a.distinct).2.2
    refine apart g.handle ?_ b.handle ?_ handle
    · exact List.mem_map_of_mem (Array.mem_toList_iff.mpr (Array.mem_of_getElem? hg))
    · rw [unused]
      exact List.mem_cons_self ..
  refine ⟨GameObject.getElem?_push_of_some a.sentinel, given ▸ a.distinct, given ▸ a.given_le,
    given ▸ a.last, ?_, fun mem made => ?_, fun he => ?_, a.handles, fun {n g} hg live => ?_,
    fun mem => ?_, ?_, fun mem he => ?_⟩
  · rw [after, List.nodup_cons, ← before]
    refine ⟨fun mem => ?_, a.once⟩
    obtain ⟨b', mem', made⟩ := List.mem_filterMap.mp mem
    obtain ⟨g, hg, -⟩ := a.making mem' made
    exact lt hg rfl
  · obtain rfl | mem := List.mem_cons.mp mem
    · cases made
      exact ⟨_, Array.getElem?_push_size, rfl, rfl, rfl, new⟩
    · obtain ⟨g, hg, rest⟩ := a.making (List.mem_cons_of_mem _ mem) made
      exact ⟨g, GameObject.getElem?_push_of_some hg, rest⟩
  · obtain ⟨g, hg, rest⟩ := a.entries he
    exact ⟨g, GameObject.getElem?_push_of_some hg, rest⟩
  · rw [after]
    obtain ⟨rfl, -⟩ | ⟨-, hg⟩ := GameObject.getElem?_push_cases hg
    · exact .inr (.inl (List.mem_cons_self ..))
    · obtain registered | made | gone := a.live hg live
      · exact .inl registered
      · exact .inr (.inl (List.mem_cons_of_mem _ (before ▸ made)))
      · exact .inr (.inr gone)
  · obtain ⟨g, hg, live, none, free, n', g₁, hg₁, less⟩ := a.lost mem
    refine ⟨g, GameObject.getElem?_push_of_some hg, live, none, ?_, n', g₁,
      GameObject.getElem?_push_of_some hg₁, less⟩
    rw [after, List.mem_cons, ← before]
    exact not_or.mpr ⟨lt hg, free⟩
  · exact List.pairwise_cons.mpr (List.pairwise_cons.mp a.ordered)
  · obtain rfl | mem := List.mem_cons.mp mem
    · exact a.nested (b := b) (List.mem_cons_self ..) he
    · exact a.nested (List.mem_cons_of_mem _ mem) he

/-- What is found when an object has been entered is that, or was found before and is of another
object. -/
theorem lookup_insertWith (a : Kept k lost) {h : Handle}
    (new : k.registry.entries.lookup h = none) (o : ObjectRef) (n : Nat) {h' : Handle}
    {e : Registration Nat} :
    (k.registry.insertWith h o n).entries.lookup h' = some e ↔
      (h' = h ∧ e = ⟨o, n⟩) ∨ (k.registry.entries.lookup h' = some e ∧ e.object ≠ o) := by
  rw [Registry.lookup_insertWith]
  by_cases same : h' = h
  · subst same
    simp [new, eq_comm]
  · simp only [same, if_false, false_and, false_or]
    split
    case isTrue known =>
      obtain ⟨n₀, hn₀⟩ := a.handles known
      refine ⟨nofun, ?_⟩
      rintro ⟨he, ne⟩
      cases hn₀.symm.trans he
      exact absurd rfl ne
    case isFalse unknown =>
      refine ⟨fun he => ⟨he, fun object => unknown ?_⟩, And.left⟩
      rw [← object]
      exact a.handleOf_of_lookup he

/-- A game object is entered into the registry. The one that was entered for its object during the
registration is replaced. -/
theorem enter {objects : Array GameObject} {r : Registry Nat} {b : Binding} {bs : List Binding}
    {n : Nat} (a : Kept ⟨objects, r, b :: bs⟩ lost) (made : b.made = some n) :
    Kept ⟨objects, r.insertWith b.handle b.object n, bs⟩
      ((r.payload b.object).toList ++ lost) := by
  obtain ⟨g₀, hg₀, live₀, object₀, handle₀, new⟩ := a.making (List.mem_cons_self ..) made
  have found {h : Handle} {e : Registration Nat} :
      (r.insertWith b.handle b.object n).entries.lookup h = some e ↔
        (h = b.handle ∧ e = ⟨b.object, n⟩) ∨ r.entries.lookup h = some e ∧ e.object ≠ b.object :=
    a.lookup_insertWith new b.object n
  obtain ⟨free, once⟩ := a.binding_unique rfl made
  have making : Roster.making ⟨objects, r, b :: bs⟩ = n :: bs.filterMap (·.made) :=
    List.filterMap_cons_some made
  have given : Roster.given ⟨objects, r.insertWith b.handle b.object n, bs⟩ =
      Roster.given ⟨objects, r, b :: bs⟩ := by simp [Roster.given, Roster.unused, made]
  have last : (r.insertWith b.handle b.object n).last = r.last := rfl
  -- What was not found before is not found either, but for the new one.
  have none_of {n' : Nat} {g : GameObject} (hg : objects[n']? = some g) (ne : n' ≠ n)
      (unknown : r.entries.lookup g.handle = none) :
      (r.insertWith b.handle b.object n).entries.lookup g.handle = none := by
    refine Option.eq_none_iff_forall_ne_some.mpr fun e he => ?_
    obtain ⟨same, -⟩ | ⟨he, -⟩ := found.mp he
    · exact ne (a.number_unique hg hg₀ (same.trans handle₀.symm))
    · cases unknown.symm.trans he
  refine ⟨a.sentinel, given ▸ a.distinct, given ▸ a.given_le, given ▸ a.last, once,
    fun {b' n'} mem made' => ?_, fun {h e} he => ?_, fun {o h} ho => ?_, fun {n' g} hg live => ?_,
    fun {n'} mem => ?_, (List.pairwise_cons.mp a.ordered).2, fun {b' h n'} mem he => ?_⟩
  · obtain ⟨g, hg, live, object, handle, none⟩ := a.making (List.mem_cons_of_mem _ mem) made'
    refine ⟨g, hg, live, object, handle, ?_⟩
    rw [← handle] at none ⊢
    refine none_of hg ?_ none
    rintro rfl
    exact free (List.mem_filterMap.mpr ⟨b', mem, made'⟩)
  · obtain ⟨rfl, rfl⟩ | ⟨he, ne⟩ := found.mp he
    · exact ⟨g₀, hg₀, live₀, object₀, handle₀, Keyed.lookup_put_self _ _ _⟩
    · obtain ⟨g, hg, live, object, handle, back⟩ := a.entries he
      refine ⟨g, hg, live, object, handle, ?_⟩
      exact (Keyed.lookup_put_of_ne ne _ _).trans back
  · obtain ⟨rfl, rfl⟩ | ⟨ne, ho⟩ := Keyed.lookup_put_cases ho
    · exact ⟨n, found.mpr (.inl ⟨rfl, rfl⟩)⟩
    · obtain ⟨n', hn'⟩ := a.handles ho
      exact ⟨n', found.mpr (.inr ⟨hn', ne⟩)⟩
  · obtain registered | mem | gone := a.live hg live
    · by_cases same : g.object = b.object
      · rw [same] at registered
        have registered := a.payload_eq_some_iff.mpr ⟨_, registered⟩
        exact .inr (.inr (List.mem_append_left _ (by simp [registered])))
      · exact .inl (found.mpr (.inr ⟨registered, same⟩))
    · rw [making] at mem
      obtain rfl | mem := List.mem_cons.mp mem
      · cases hg.symm.trans hg₀
        exact .inl (found.mpr (.inl ⟨handle₀, by rw [object₀]⟩))
      · exact .inr (.inl mem)
    · exact .inr (.inr (List.mem_append_right _ gone))
  · obtain gone | gone := List.mem_append.mp mem
    · obtain ⟨h, he⟩ := a.payload_eq_some_iff.mp (by simpa using gone)
      obtain ⟨g, hg, live, object, rfl, -⟩ := a.entries he
      refine ⟨g, hg, live, ?_, fun made' => ?_, n, g₀, hg₀, object₀.trans object.symm, ?_⟩
      · refine Option.eq_none_iff_forall_ne_some.mpr fun e he' => ?_
        obtain ⟨same, -⟩ | ⟨he', ne⟩ := found.mp he'
        · rw [same, new] at he
          cases he
        · cases he.symm.trans he'
          exact ne rfl
      · obtain ⟨b', mem', made'⟩ := List.mem_filterMap.mp made'
        obtain ⟨g', hg', -, -, handle, unknown⟩ := a.making (List.mem_cons_of_mem _ mem') made'
        cases hg.symm.trans hg'
        rw [← handle, he] at unknown
        cases unknown
      · rw [handle₀]
        exact a.nested (List.mem_cons_self ..) he
    · obtain ⟨g, hg, live, unknown, idle, less⟩ := a.lost gone
      rw [making, List.mem_cons, not_or] at idle
      exact ⟨g, hg, live, none_of hg idle.1 unknown, idle.2, less⟩
  · obtain ⟨rfl, same⟩ | ⟨he, -⟩ := found.mp he
    · exact (List.pairwise_cons.mp a.ordered).1 b' mem
    · exact a.nested (List.mem_cons_of_mem _ mem) he

end Kept

namespace Roster.Turn

variable {k k' : Roster} {ns lost : List Nat}

/-- Handles are not taken back. -/
theorem length_given_le (t : Turn k ns k') : k.given.length ≤ k'.given.length := by
  cases t with
  | rest | refresh | enter => simp [given, unused, *]
  | unregister =>
    unfold Roster.unregister given
    split <;> simp [unused]
  | allocate => simp [given, unused]
  | make unmade => simp [given, unused, unmade]

theorem kept (t : Turn k ns k') (a : Kept k lost) (few : k'.given.length ≤ 2 ^ 32) :
    Kept k' (ns ++ lost) := by
  cases t with
  | rest => exact a
  | refresh known cls => exact a.refresh known cls
  | unregister => exact a.unregister _
  | allocate new height =>
    refine a.allocate new height ?_
    simp [given, unused] at few ⊢
    omega
  | make unmade cls => exact a.make unmade cls
  | enter made => exact a.enter made

/-- Game objects keep their objects and handles, and deleted ones stay deleted. -/
theorem persists (t : Turn k ns k') : Persists k.objects k'.objects := by
  cases t with
  | rest | allocate | enter => exact .refl _
  | refresh => exact .modify _ _ fun g => ⟨rfl, rfl, id⟩
  | unregister o =>
    unfold Roster.unregister
    dsimp only
    split
    · exact .modify _ _ fun g => ⟨rfl, rfl, fun _ => rfl⟩
    · exact .refl _
  | make => exact .push _ _

/-- A game object that is there after a step was there before, or the step has made it for a
registration. -/
theorem was (t : Turn k ns k') {n : Nat} {g' : GameObject} (hg' : k'.objects[n]? = some g') :
    (∃ g, k.objects[n]? = some g ∧ g.handle = g'.handle ∧ g.object = g'.object ∧
      (g'.deleted = false → g.deleted = false)) ∨
    ∃ b ∈ k.bindings, g'.handle = b.handle ∧ g'.object = b.object := by
  cases t with
  | rest | allocate | enter => exact .inl ⟨g', hg', rfl, rfl, id⟩
  | refresh =>
    obtain ⟨g, hg, rfl⟩ := GameObject.getElem?_modify_eq_some.mp hg'
    refine .inl ⟨g, hg, ?_⟩
    split <;> exact ⟨rfl, rfl, id⟩
  | unregister =>
    unfold Roster.unregister at hg'
    dsimp only at hg'
    split at hg'
    · obtain ⟨g, hg, rfl⟩ := GameObject.getElem?_modify_eq_some.mp hg'
      refine .inl ⟨g, hg, ?_⟩
      split
      · exact ⟨rfl, rfl, fun live => nomatch live⟩
      · exact ⟨rfl, rfl, id⟩
    · exact .inl ⟨g', hg', rfl, rfl, id⟩
  | make =>
    obtain ⟨-, rfl⟩ | ⟨-, hg⟩ := GameObject.getElem?_push_cases hg'
    · exact .inr ⟨_, List.mem_cons_self .., rfl, rfl⟩
    · exact .inl ⟨g', hg, rfl, rfl, id⟩

/-- The handle of a registration in progress was given out before, or it is a new one. -/
theorem binding_was (t : Turn k ns k') {b' : Binding} (mem : b' ∈ k'.bindings) :
    (∃ b ∈ k.bindings, b.object = b'.object ∧ b.handle = b'.handle) ∨
      (b'.handle.raw = k'.registry.last ∧ k.given.length < k'.given.length) := by
  cases t with
  | rest | refresh => exact .inl ⟨b', mem, rfl, rfl⟩
  | unregister => exact .inl ⟨b', mem, rfl, rfl⟩
  | allocate =>
    obtain rfl | mem := List.mem_cons.mp mem
    · exact .inr ⟨rfl, by simp [given, unused]⟩
    · exact .inl ⟨b', mem, rfl, rfl⟩
  | make =>
    obtain rfl | mem := List.mem_cons.mp mem
    · exact .inl ⟨_, List.mem_cons_self .., rfl, rfl⟩
    · exact .inl ⟨b', List.mem_cons_of_mem _ mem, rfl, rfl⟩
  | enter => exact .inl ⟨b', List.mem_cons_of_mem _ mem, rfl, rfl⟩

end Roster.Turn

/-- Since a number was the last one given out for a handle, game objects of an object were made
under greater handles only. -/
structure Renewed (o : ObjectRef) (lost : List Nat) (last : UInt32) (k : Roster) : Prop where
  last_le : last ≤ k.registry.last
  bindings {b : Binding} : b ∈ k.bindings → b.object = o → last < b.handle.raw
  objects {n : Nat} {g : GameObject} : k.objects[n]? = some g → g.deleted = false →
    g.object = o → n ∉ lost → last < g.handle.raw

theorem Renewed.turn {o : ObjectRef} {last : UInt32} {k k' : Roster} {ns lost gone gone' : List Nat}
    (r : Renewed o lost last k) (t : Roster.Turn k ns k') (a : Kept k gone) (a' : Kept k' gone') :
    Renewed o lost last k' := by
  have counted : k.registry.last ≤ k'.registry.last := by
    have le := t.length_given_le
    rw [a.last, a'.last] at le
    exact UInt32.le_iff_toNat_le.mpr (Nat.le_of_succ_le_succ le)
  refine ⟨UInt32.le_trans r.last_le counted, fun mem object => ?_, fun hg' live object other => ?_⟩
  · obtain ⟨b, mem, object', handle⟩ | ⟨new, more⟩ := t.binding_was mem
    · exact handle ▸ r.bindings mem (object'.trans object)
    · rw [new]
      rw [a.last, a'.last] at more
      exact UInt32.lt_of_le_of_lt r.last_le
        (UInt32.lt_iff_toNat_lt.mpr (Nat.lt_of_succ_lt_succ more))
  · obtain ⟨g, hg, handle, object', live'⟩ | ⟨b, mem, handle, object'⟩ := t.was hg'
    · exact handle ▸ r.objects hg (live' live) (object'.trans object) other
    · exact handle ▸ r.bindings mem (object'.symm.trans object)

/-! ## Several steps -/

namespace Roster

/-- What several steps make of the roster, with the game objects that they replace. -/
inductive Turns (k : Roster) : List Nat → Roster → Prop
  | refl : Turns k [] k
  | tail {ns ns' : List Nat} {k' k'' : Roster} (h : Turns k ns k') (t : Turn k' ns' k'') :
    Turns k (ns' ++ ns) k''

namespace Turns

variable {k k' : Roster} {ns lost : List Nat}

theorem single (t : Turn k ns k') : Turns k ns k' := by
  simpa using Turns.refl.tail t

theorem persists (h : Turns k ns k') : Persists k.objects k'.objects := by
  induction h with
  | refl => exact .refl _
  | tail _ t ih => exact ih.trans t.persists

theorem kept (h : Turns k ns k') (a : Kept k lost) (few : k'.given.length ≤ 2 ^ 32) :
    Kept k' (ns ++ lost) := by
  induction h with
  | refl => exact a
  | tail _ t ih =>
    rw [List.append_assoc]
    exact t.kept (ih (Nat.le_trans t.length_given_le few)) few

theorem renewed {o : ObjectRef} {last : UInt32} (h : Turns k ns k') (a : Kept k lost)
    (r : Renewed o lost last k) (few : k'.given.length ≤ 2 ^ 32) : Renewed o lost last k' := by
  induction h with
  | refl => exact r
  | tail before t ih =>
    have few' := Nat.le_trans t.length_given_le few
    have a' := before.kept a few'
    exact (ih few').turn t a' (t.kept a' few)

end Turns

end Roster

end CardBridge
