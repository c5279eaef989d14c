import CardBridge.Proofs.CollectingLives
import CardBridge.Proofs.LiveObjects

/-!
# Nested registrations

Between the steps of a registration scripts may have the same object registered. Then it has two
live game objects. The registration that began first ends last : it enters its own game object,
under the lesser handle, and the other one is taken out of the registry but not deleted.

Every step of a life with a collector is a turn of the roster (`Later.turn`), so the roster is kept
at every moment, with the game objects that were replaced until then (`Lived.kept`).
-/

namespace CardBridge

open Roster

theorem Machine.activity_of_writes {m : Machine} {u : Update} (h : m.writes = [u]) :
    ∃ next, m.activity = .host (.write u next) := by
  unfold writes at h
  split at h
  · cases h
    exact ⟨_, rfl⟩
  · cases h

namespace Collecting

variable {c c' : Collecting} {ns : List Nat}

/-- The state of the session. -/
def state (c : Collecting) : State :=
  c.machine.state

/-- The roster of a machine with its registrations in progress. -/
def roster (c : Collecting) : Option Roster :=
  c.state.env.roster c.bindings

theorem roster_eq_some {k : Roster} : c.roster = some k ↔
    ∃ b, c.state.env.bridge = some b ∧ k = ⟨c.state.env.objects, b.registry, c.bindings⟩ :=
  Environment.roster_eq_some

theorem replaced_of_here {s : State} {b : Binding} {K : List Frame} (here : b.height = K.length)
    (cls : Option String) (next : Code) (bs : List Binding) :
    replaced ⟨⟨s, .host (.write (.register b.object cls) next), K⟩, b :: bs⟩ =
      (b.made.bind fun _ => s.registered b.object).toList := by
  simp only [replaced, current_cons here]

theorem Move.turn {k : Roster} (h : Move c c') (hk : c.roster = some k) :
    ∃ k', c'.roster = some k' ∧ Turn k c.replaced k' := by
  obtain ⟨b, hb, rfl⟩ := Environment.roster_eq_some.mp hk
  cases h with
  | @plain m m' bs move known =>
    have still : replaced ⟨m, bs⟩ = [] := by
      unfold replaced
      split
      case h_1 o cls next here => simp [(known o cls next here).1]
      case h_2 => rfl
    rw [still]
    refine move.effect.turn (fun o cls writes => ?_) hk
    obtain ⟨next, here⟩ := Machine.activity_of_writes writes
    exact (known o cls next here).2
  | @allocate s o cls next K bs new begins =>
    have still : replaced ⟨⟨s, .host (.write (.register o cls) next), K⟩, bs⟩ = [] := by
      simp [replaced, begins]
    rw [still]
    obtain ⟨b', hb', unknown⟩ := s.unknown_of_isNew new
    cases hb.symm.trans hb'
    simp only [State.allocateHandle, hb']
    exact ⟨_, rfl, .allocate unknown K.length⟩
  | finalize here unmade t f =>
    rw [replaced_of_here here, unmade]
    exact ⟨_, hk, .rest _⟩
  | make here unmade =>
    rw [replaced_of_here here, unmade]
    exact ⟨_, Environment.roster_eq_some.mpr ⟨b, hb, rfl⟩, .make unmade _⟩
  | @enter s b₁ cls next K bs n here made =>
    change s.env.bridge = some b at hb
    rw [replaced_of_here here, made]
    refine ⟨⟨s.env.objects, b.registry.insertWith b₁.handle b₁.object n, bs⟩, ?_, ?_⟩
    · simp [roster, state, Environment.roster, State.enterObject, hb]
    · have same :
          (some n).bind (fun _ => s.registered b₁.object) = b.registry.payload b₁.object := by
        simp [State.registered, hb]
      rw [same]
      exact .enter made

/-- A step of a life is a turn of the roster. -/
theorem Later.turn {k : Roster} (h : Later c c') (hk : c.roster = some k) :
    ∃ k', c'.roster = some k' ∧ Turn k c.replaced k' := by
  cases h with
  | step host collector h => exact (move_of_step h).turn hk
  | begins => exact ⟨k, hk, .rest k⟩

end Collecting

/-- Steps of a life are turns of the roster. -/
theorem Collecting.Leads.turns {c c' : Collecting} {ns : List Nat} {k : Roster}
    (h : Collecting.Leads c ns c') (hk : c.roster = some k) :
    ∃ k', c'.roster = some k' ∧ Turns k ns k' := by
  induction h with
  | refl => exact ⟨k, hk, .refl⟩
  | tail _ later ih =>
    obtain ⟨k₁, hk₁, turns⟩ := ih
    obtain ⟨k₂, hk₂, turn⟩ := later.turn hk₁
    exact ⟨k₂, hk₂, turns.tail turn⟩

namespace Kept

variable {s : State} {b : Bridge} {bs : List Binding} {lost : List Nat}

/-- Of an object that is not registered and is not being registered nothing is live but what was
replaced. -/
theorem renewed (a : Kept ⟨s.env.objects, b.registry, bs⟩ lost) (hb : s.env.bridge = some b)
    {o : ObjectRef} (new : s.handleOf o = none) (idle : ∀ b' ∈ bs, b'.object ≠ o) :
    Renewed o lost b.registry.last ⟨s.env.objects, b.registry, bs⟩ := by
  refine ⟨UInt32.le_refl _, fun mem object => absurd object (idle _ mem),
    fun hg live object other => ?_⟩
  obtain he | made | gone := a.live hg live
  · have back := a.handleOf_of_lookup he
    rw [State.handleOf, hb, Option.bind_some] at new
    rw [object] at back
    cases new.symm.trans back
  · obtain ⟨b', mem, made⟩ := List.mem_filterMap.mp made
    obtain ⟨g, hg', -, object', -⟩ := a.making mem made
    cases hg.symm.trans hg'
    exact absurd (object'.symm.trans object) (idle b' mem)
  · exact absurd gone other

/-- What is live later for such an object, but was not replaced before, was made since, under a
handle greater than all before. -/
theorem renewed_later {s' : State} {b' : Bridge} {bs' : List Binding} {since : List Nat}
    (a : Kept ⟨s.env.objects, b.registry, bs⟩ lost) (hb : s.env.bridge = some b) {o : ObjectRef}
    (new : s.handleOf o = none) (idle : ∀ b' ∈ bs, b'.object ≠ o)
    (turns : Turns ⟨s.env.objects, b.registry, bs⟩ since ⟨s'.env.objects, b'.registry, bs'⟩)
    (few : (given ⟨s'.env.objects, b'.registry, bs'⟩).length ≤ 2 ^ 32) {n' : Nat}
    (live : s'.objectOfValue (.object n') = some o) (other : n' ∉ lost) :
    s.env.objects.size ≤ n' ∧
      ∀ n < s.env.objects.size, (s.object n).handle.raw < (s'.object n').handle.raw := by
  have renewed := turns.renewed a (a.renewed hb new idle) few
  obtain ⟨g', hg', alive, object⟩ := State.objectOfValue_eq_some_iff.mp live
  have known : s'.object n' = g' := by rw [State.object, hg', Option.getD_some]
  have greater : b.registry.last < g'.handle.raw := renewed.objects hg' alive object other
  have before {n : Nat} (hn : n < s.env.objects.size) :
      (s.object n).handle.raw ≤ b.registry.last :=
    a.given_le _ (mem_given (State.getElem?_object hn))
  rw [known]
  refine ⟨Nat.le_of_not_lt fun lt => ?_, fun n hn => UInt32.lt_of_le_of_lt (before hn) greater⟩
  obtain ⟨g, hg, handle, -⟩ := turns.persists n' _ (State.getElem?_object lt)
  cases hg'.symm.trans hg
  rw [handle] at greater
  exact absurd (before lt) (UInt32.not_le.mpr greater)

end Kept

namespace Collecting

/-- The game objects that are being made. -/
def making (c : Collecting) : List Nat :=
  c.bindings.filterMap (·.made)

/-- How many handles were given out. -/
def allocated (c : Collecting) : Nat :=
  c.state.allocated + (c.bindings.filter (·.made.isNone)).length

end Collecting

/-- As long as fewer than `2 ^ 32` handles were given out, so it is with that of nothing. -/
theorem Collecting.length_given_le {c : Collecting} (r : Registry Nat)
    (few : c.allocated < 2 ^ 32) :
    (Roster.given ⟨c.state.env.objects, r, c.bindings⟩).length ≤ 2 ^ 32 := by
  rw [Roster.length_given]
  unfold Collecting.allocated State.allocated at few
  omega

open Host Collecting

/-- At every moment of a life the roster is kept, unless too many handles were given out. -/
theorem Host.Blueprint.Lived.kept {b : Blueprint} {lost : List Nat} {c : Collecting}
    (h : b.Lived lost c) (few : c.allocated < 2 ^ 32) : ∃ x, c.state.env.bridge = some x ∧
      Kept ⟨c.state.env.objects, x.registry, c.bindings⟩ lost := by
  obtain ⟨account, shared, code, h⟩ := h
  have begins : (Collecting.start ⟨b.environment account, shared⟩ code).roster =
      some ⟨#[.sentinel], .empty, []⟩ := rfl
  obtain ⟨k, hk, turns⟩ := h.turns begins
  obtain ⟨x, hx, rfl⟩ := roster_eq_some.mp hk
  have kept := turns.kept .fresh (length_given_le x.registry few)
  rw [List.append_nil] at kept
  exact ⟨x, hx, kept⟩

/-- **The registry and what scripts hold**, as long as fewer than `2 ^ 32` handles were given out.
A game object is live exactly if the registry leads from its object to it and back, if it is being
made, or if it was replaced, and otherwise it is deleted. One that is being made is about to be
entered. One that was replaced is not found by its handle, and one with a lesser handle stands for
the same object. But for these two an object has one live game object at most, and that is the one
that stands for it, or the sentinel if it is not registered.

What is deleted stays deleted and what was replaced stays live, and neither is ever found by its
handle again. An object that is neither registered nor being registered has a new game object
whenever it is registered later, under a handle greater than all before. -/
theorem registry_faithful_but_replaced (b : Host.Blueprint) (lost : List Nat) (c : Collecting)
    (lived : b.Lived lost c) (few : c.allocated < 2 ^ 32) :
    (∀ n, 0 < n → n < c.state.env.objects.size →
      (c.state.objectOfValue (.object n) = some (c.state.object n).object ↔
        c.state.Knows n ∨ n ∈ c.making ∨ n ∈ lost) ∧
      (c.state.objectOfValue (.object n) ≠ some (c.state.object n).object →
        (c.state.object n).kind = .deleted ∧ c.state.objectOfValue (.object n) = none)) ∧
    (∀ n ∈ c.making, ¬ c.state.Knows n ∧ ∃ cls next,
      c.machine.activity = .host (.write (.register (c.state.object n).object cls) next)) ∧
    (∀ n ∈ lost, n ∉ c.making ∧ c.state.resolveHandle (c.state.object n).handle = none ∧
      ∃ n', (c.state.object n').object = (c.state.object n).object ∧
        (c.state.object n').handle.raw < (c.state.object n).handle.raw) ∧
    (∀ n n' o, c.state.objectOfValue (.object n) = some o →
      c.state.objectOfValue (.object n') = some o → n ∉ c.making → n' ∉ c.making → n ∉ lost →
      n' ∉ lost → n = n') ∧
    (∀ o, (∃ n, c.state.Knows n ∧ (c.state.object n).object = o ∧
        c.state.objectValue o = .ok (.object n) ∧ c.state.objectOfValue (.object n) = some o) ∨
      (c.state.handleOf o = none ∧ c.state.objectValue o = .ok (.object 0) ∧
        c.state.object 0 = .sentinel)) ∧
    ∀ since c', c.Leads since c' → c'.allocated < 2 ^ 32 →
      (∀ n, 0 < n → n < c.state.env.objects.size →
        (c'.state.object n).object = (c.state.object n).object ∧
        (c'.state.object n).handle = (c.state.object n).handle ∧
        (c.state.objectOfValue (.object n) = none →
          c'.state.objectOfValue (.object n) = none ∧ (c'.state.object n).kind = .deleted ∧
          c'.state.resolveHandle (c.state.object n).handle = none) ∧
        (n ∈ lost → c'.state.objectOfValue (.object n) = some (c.state.object n).object ∧
          c'.state.resolveHandle (c.state.object n).handle = none)) ∧
      ∀ o n', c.state.handleOf o = none → (∀ b ∈ c.bindings, b.object ≠ o) →
        c'.state.objectOfValue (.object n') = some o → n' ∉ lost →
          c.state.env.objects.size ≤ n' ∧
          ∀ n < c.state.env.objects.size,
            (c.state.object n).handle.raw < (c'.state.object n').handle.raw := by
  obtain ⟨x, hx, a⟩ := lived.kept few
  refine ⟨fun n _ hn => a.objectOfValue_iff hx hn, fun n mem => ?_,
    fun n gone => a.resolveHandle_lost hx gone,
    fun n n' o live live' idle idle' kept kept' => a.live_unique live live' idle idle' kept kept',
    a.objectValue_cases hx, fun since c' later few' => ?_⟩
  · obtain ⟨b', mem, made⟩ := List.mem_filterMap.mp mem
    obtain ⟨unknown, object⟩ := a.not_knows_of_making hx mem made
    rw [object]
    exact ⟨unknown, lived.placed.making mem made⟩
  · obtain ⟨k', hk', turns⟩ := later.turns (roster_eq_some.mpr ⟨x, hx, rfl⟩)
    obtain ⟨x', hx', rfl⟩ := roster_eq_some.mp hk'
    have few_given := length_given_le x'.registry few'
    have a' := turns.kept a few_given
    refine ⟨fun n _ hn => ?_, fun o n' new idle live other => ?_⟩
    · obtain ⟨object, handle, deleted⟩ := a'.stays hx' turns.persists hn
      refine ⟨object, handle, deleted, fun gone => ?_⟩
      have gone' := List.mem_append_right since gone
      have hn' := Nat.lt_of_lt_of_le hn turns.persists.size_le
      rw [← object, ← handle]
      exact ⟨(a'.objectOfValue_iff hx' hn').1.mpr (.inr (.inr gone')),
        (a'.resolveHandle_lost hx' gone').2.1⟩
    · exact a.renewed_later hx new idle turns few_given live other

/-! ### A registration in a registration -/

/-- A host with one function, which registers a card. -/
def registering : CardBridge.Host :=
  Code.native fun _ _ => (Operation.register (.card ⟨1⟩)).code

/-- Scripts know that function as `ask`, and a script leaves a table to be finalized by it. Then the
card is registered, and unregistered. -/
def nestedRegistration : Collecting :=
  let env := (Blueprint.plain ⟨1⟩).environment 0
  let memory := setGlobal env.memory "ask" (.native (.host 0))
  .start ⟨{ env with memory }, .empty⟩
    ((Operation.evaluate (bytes "setmetatable({}, {__gc = ask})")).code.andThen fun _ =>
      (Operation.register (.card ⟨1⟩)).code.andThen fun _ =>
        (Operation.unregister (.card ⟨1⟩)).code)

/-- What that comes to when the card has been registered. -/
def nestedMoment : List Nat × Collecting :=
  trail registering .usual 37 nestedRegistration

theorem nestedMoment_lived : (Blueprint.plain ⟨1⟩).Lived nestedMoment.1 nestedMoment.2 := by
  have edits := setGlobal_edits (.refl ((Blueprint.plain ⟨1⟩).environment 0).memory) "ask"
    (.native (.host 0))
  have begins : Leads (.start ⟨(Blueprint.plain ⟨1⟩).environment 0, .empty⟩ .done) []
      nestedRegistration := by
    have begins : Later (.start ⟨(Blueprint.plain ⟨1⟩).environment 0, .empty⟩ .done)
        nestedRegistration := .begins edits .empty _
    have nothing := replaced_of_machine (.start ⟨(Blueprint.plain ⟨1⟩).environment 0, .empty⟩ .done)
    exact nothing ▸ Leads.single begins
  have later : Leads nestedRegistration nestedMoment.1 nestedMoment.2 := leads_trail _ _ _ _
  have leads := begins.trans later
  rw [List.append_nil] at leads
  exact ⟨0, .empty, .done, leads⟩

/-- What it comes to in the end. -/
def nestedEnd : List Nat × Collecting :=
  trail registering .usual 20 nestedMoment.2

/-- Two game objects are live for the card, and the registry leads from it to the first handle. -/
def bothLive (s : State) : Bool :=
  s.objectOfValue (.object 1) == some (.card ⟨1⟩) &&
    s.objectOfValue (.object 2) == some (.card ⟨1⟩) &&
    s.handleOf (.card ⟨1⟩) == some ⟨1⟩ && (s.object 1).handle == ⟨2⟩

theorem nestedRegistration_ends : ∃ c since c', (Blueprint.plain ⟨1⟩).Lived [1] c ∧
    c.Leads since c' ∧ c.bindings = [] ∧ c.state.env.objects.size = 3 ∧
    bothLive c.state = true ∧ c'.allocated = 2 ∧ c'.state.handleOf (.card ⟨1⟩) = none := by
  have replaced : nestedMoment.1 = [1] := by decide +kernel
  have idle : nestedMoment.2.bindings = [] := by decide +kernel
  have size : nestedMoment.2.state.env.objects.size = 3 := by decide +kernel
  have both : bothLive nestedMoment.2.state = true := by decide +kernel
  have few : nestedEnd.2.allocated = 2 := by decide +kernel
  have taken : nestedEnd.2.state.handleOf (.card ⟨1⟩) = none := by decide +kernel
  exact ⟨_, _, _, replaced ▸ nestedMoment_lived, leads_trail _ _ _ _, idle, size, both, few, taken⟩

theorem registry_faithful_but_replaced_nested : ∃ lost c since c',
    (Blueprint.plain ⟨1⟩).Lived lost c ∧ c.Leads since c' ∧
    c.state.objectOfValue (.object 1) = some (.card ⟨1⟩) ∧ 1 ∈ lost ∧
    c.state.objectOfValue (.object 2) = some (.card ⟨1⟩) ∧ c.state.Knows 2 ∧
    c'.state.handleOf (.card ⟨1⟩) = none ∧
    c'.state.objectOfValue (.object 1) = some (.card ⟨1⟩) ∧ c'.state.resolveHandle ⟨2⟩ = none := by
  obtain ⟨c, since, c', lived, leads, idle, size, both, few', taken⟩ := nestedRegistration_ends
  simp only [bothLive, Bool.and_eq_true, beq_iff_eq] at both
  obtain ⟨⟨⟨first, second⟩, -⟩, handle⟩ := both
  have few : c.allocated < 2 ^ 32 := by simp [allocated, State.allocated, idle, size]
  obtain ⟨live, -, -, -, -, later⟩ := registry_faithful_but_replaced _ _ _ lived few
  have knows : c.state.Knows 2 := by
    obtain ⟨iff, -⟩ := live 2 (by decide) (by rw [size]; decide)
    rw [State.object_of_objectOfValue second, Collecting.making, idle] at iff
    simpa using iff.mp second
  obtain ⟨stays, -⟩ := later since c' leads (by rw [few']; decide)
  obtain ⟨-, -, -, kept⟩ := stays 1 (by decide) (by rw [size]; decide)
  obtain ⟨still, unknown⟩ := kept (by decide)
  rw [State.object_of_objectOfValue first] at still
  exact ⟨[1], c, since, c', lived, leads, first, by decide, second, knows, taken, still,
    handle ▸ unknown⟩

/-- **The registry and what scripts hold can disagree.** A card that is registered by a finalizer
while it is registered has two live game objects, and the registry leads to only one of them. -/
theorem not_registry_faithful : ∃ lost c, (Blueprint.plain ⟨1⟩).Lived lost c ∧ c.bindings = [] ∧
    c.allocated < 2 ^ 32 ∧ c.state.objectOfValue (.object 1) = some (.card ⟨1⟩) ∧
    c.state.objectOfValue (.object 2) = some (.card ⟨1⟩) ∧
    c.state.handleOf (.card ⟨1⟩) = some ⟨1⟩ ∧ (c.state.object 1).handle = ⟨2⟩ ∧
    ¬ c.state.Knows 1 := by
  obtain ⟨c, since, c', lived, -, idle, size, both, -⟩ := nestedRegistration_ends
  simp only [bothLive, Bool.and_eq_true, beq_iff_eq] at both
  obtain ⟨⟨⟨first, second⟩, registered⟩, handle⟩ := both
  have few : c.allocated < 2 ^ 32 := by simp [allocated, State.allocated, idle, size]
  refine ⟨[1], c, lived, idle, few, first, second, registered, handle, fun knows => ?_⟩
  have known := knows.1
  rw [State.object_of_objectOfValue first, registered, handle] at known
  cases known

end CardBridge
