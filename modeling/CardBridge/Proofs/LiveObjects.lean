import CardBridge.Proofs.Roster
import CardBridge.Proofs.Lives

/-!
# Game objects and the registry in a life

What an effect does to the game objects and the registry is a turn of the roster, or three of them
where an object is registered anew and nothing runs in between (`Effect.turns`). So in a life
without finalizers they agree at every moment, as long as the counter of handles has not run over
(`Reaches.faithful`), and what was made there before has persisted (`Faithful.later`).

The lemmas on `Kept` at the end say what that means for what the host and scripts see.
-/

namespace CardBridge

open Roster Relation

/-! ## Effects -/

/-- The roster of an environment with bookkeeping, while registrations are in progress. -/
def Environment.roster (env : Environment) (bs : List Binding) : Option Roster :=
  env.bridge.map fun b => ⟨env.objects, b.registry, bs⟩

theorem Environment.roster_eq_some {env : Environment} {bs : List Binding} {k : Roster} :
    env.roster bs = some k ↔
      ∃ b, env.bridge = some b ∧ k = ⟨env.objects, b.registry, bs⟩ := by
  rw [roster, Option.map_eq_some_iff]
  exact exists_congr fun b => and_congr_right fun _ => eq_comm

/-- Of the game objects and the registry an effect changes nothing, or it registers or unregisters
an object. -/
theorem Effect.registry_cases {s s' : State} {os os' : List Open} {us : List Update} {b : Bridge}
    (e : Effect s os us s' os') (hb : s.env.bridge = some b) :
    (∃ o cls, us = [.register o cls] ∧ s' = s.register o cls) ∨
      (∃ o, us = [.unregister o] ∧ s' = s.unregister o) ∨
      (s'.env.objects = s.env.objects ∧
        ∃ b', s'.env.bridge = some b' ∧ b'.registry = b.registry) := by
  cases e with
  | quiet | script => exact .inr (.inr ⟨rfl, b, hb, rfl⟩)
  | enter scope h =>
    obtain ⟨objects, depth, noAction, -, hb'⟩ := Scope.enter_bridge h hb
    exact .inr (.inr ⟨objects, _, hb', rfl⟩)
  | leave o r =>
    obtain ⟨objects, noAction, hb'⟩ := o.leave_bridge r hb
    exact .inr (.inr ⟨objects, _, hb', rfl⟩)
  | write u =>
    cases u with
    | register o cls => exact .inl ⟨o, cls, rfl, rfl⟩
    | unregister o => exact .inr (.inl ⟨o, rfl, rfl⟩)
    | report site f =>
      obtain ⟨messages, e⟩ := s.report_env site f
      refine .inr (.inr ⟨by simp [Update.apply, e], { b with messages }, ?_, rfl⟩)
      simp [Update.apply, e, hb]
    | stage q | clear q =>
      refine .inr (.inr ⟨by simp [Update.apply], _,
        by simp only [Update.apply, State.stage_env, State.clear_env, hb]; rfl, ?_⟩)
      cases q <;> rfl
    | abandon id =>
      exact .inr (.inr ⟨rfl, { b with coroutines := (b.coroutines.abandon id).2 },
        by simp [Update.apply, hb], rfl⟩)
    | emit | hold | copySlot | dropSlot | makeClass | makeTable | addChunk | called | ended =>
      exact .inr (.inr ⟨by simp [Update.apply], b, by simpa [Update.apply] using hb, rfl⟩)

/-- An effect that registers no object anew. -/
theorem Effect.turn {s s' : State} {os os' : List Open} {us : List Update} {k : Roster}
    {bs : List Binding} (e : Effect s os us s' os')
    (known : ∀ o cls, us = [.register o cls] → s.isNew o = false)
    (hk : s.env.roster bs = some k) : ∃ k', s'.env.roster bs = some k' ∧ Turn k [] k' := by
  obtain ⟨b, hb, rfl⟩ := Environment.roster_eq_some.mp hk
  obtain ⟨o, cls, rfl, rfl⟩ | ⟨o, -, rfl⟩ | ⟨objects, b', hb', registry⟩ := e.registry_cases hb
  · have old := known o cls rfl
    obtain ⟨n, hn⟩ : ∃ n, b.registry.payload o = some n := by
      simpa [State.isNew, hb, Option.isNone_eq_false_iff, Option.isSome_iff_exists] using old
    rw [s.register_of_known hb hn, State.refresh]
    split
    · exact ⟨_, Environment.roster_eq_some.mpr ⟨b, hb, rfl⟩, .refresh hn cls⟩
    · exact ⟨_, hk, .rest _⟩
  · exact ⟨_, by simp [State.unregister, hb, Environment.roster]; rfl, .unregister _ o⟩
  · refine ⟨_, Environment.roster_eq_some.mpr ⟨b', hb', rfl⟩, ?_⟩
    rw [objects, registry]
    exact .rest _

/-- A registration of a new object in which nothing else runs. -/
theorem State.register_turns {s : State} {o : ObjectRef} (new : s.isNew o = true)
    (cls : Option String) {k : Roster} {bs : List Binding} (hk : s.env.roster bs = some k) :
    ∃ k', (s.register o cls).env.roster bs = some k' ∧ Turns k [] k' := by
  obtain ⟨b, hb, rfl⟩ := Environment.roster_eq_some.mp hk
  obtain ⟨b', hb', unknown⟩ := s.unknown_of_isNew new
  cases hb.symm.trans hb'
  let handle : Handle := ⟨b.registry.last + 1⟩
  let objects := s.env.objects.push ⟨handle, o, false, cls⟩
  have allocates : Turn ⟨s.env.objects, b.registry, bs⟩ []
      ⟨s.env.objects, b.registry.allocate.2, ⟨0, o, handle, none⟩ :: bs⟩ := .allocate unknown 0
  have makes : Turn ⟨s.env.objects, b.registry.allocate.2, ⟨0, o, handle, none⟩ :: bs⟩ []
      ⟨objects, b.registry.allocate.2, ⟨0, o, handle, some s.env.objects.size⟩ :: bs⟩ :=
    .make rfl cls
  have enters : Turn ⟨objects, b.registry.allocate.2, ⟨0, o, handle, some s.env.objects.size⟩ :: bs⟩
      (b.registry.allocate.2.payload o).toList
      ⟨objects, b.registry.allocate.2.insertWith handle o s.env.objects.size, bs⟩ := .enter rfl
  have still : b.registry.allocate.2.payload o = none := unknown
  rw [still] at enters
  rw [s.register_of_unknown hb unknown]
  refine ⟨_, Environment.roster_eq_some.mpr ⟨_, rfl, rfl⟩, ?_⟩
  exact ((Turns.single allocates).tail makes).tail enters

/-- An effect, with the steps of a registration in it one by one. -/
theorem Effect.turns {s s' : State} {os os' : List Open} {us : List Update} {k : Roster}
    {bs : List Binding} (e : Effect s os us s' os') (hk : s.env.roster bs = some k) :
    ∃ k', s'.env.roster bs = some k' ∧ Turns k [] k' := by
  by_cases known : ∀ o cls, us = [.register o cls] → s.isNew o = false
  · obtain ⟨k', hk', turn⟩ := e.turn known hk
    exact ⟨k', hk', .single turn⟩
  · simp only [not_forall, Bool.not_eq_false] at known
    obtain ⟨o, cls, rfl, new⟩ := known
    cases e with
    | write => exact State.register_turns new cls hk

/-! ## Agreement -/

/-- The game objects and a registry agree. -/
def Agrees (objects : Array GameObject) (r : Registry Nat) : Prop :=
  Kept ⟨objects, r, []⟩ []

namespace Agrees

variable {objects : Array GameObject} {r : Registry Nat}

theorem last (a : Agrees objects r) : r.last.toNat + 1 = objects.size := by
  have length := Kept.last a
  rw [length_given] at length
  simpa using length.symm

/-- The next handle is the number of the next game object. -/
theorem toNat_next (a : Agrees objects r) (room : objects.size < 2 ^ 32) :
    (r.last + 1).toNat = objects.size := by
  rw [UInt32.toNat_add, UInt32.toNat_one, a.last, Nat.mod_eq_of_lt room]

/-- What is registered is what the two maps lead to. -/
theorem payload_eq (a : Agrees objects r) {o : ObjectRef} {h : Handle}
    (ho : r.handles.lookup o = some h) : ∃ n g, r.payload o = some n ∧
      r.entries.lookup h = some ⟨o, n⟩ ∧ objects[n]? = some g ∧ g.deleted = false ∧
      g.object = o ∧ g.handle = h := by
  obtain ⟨n, hn⟩ := Kept.handles a ho
  obtain ⟨g, hg, live, object, handle, -⟩ := Kept.entries a hn
  exact ⟨n, g, Kept.payload_eq_some_iff a |>.mpr ⟨h, hn⟩, hn, hg, live, object, handle⟩

end Agrees

/-- From one environment to the next, game objects persist and stay in agreement with the registry,
unless there are too many for the counter of handles. -/
structure Advances (env env' : Environment) (b b' : Bridge) : Prop where
  bridge : env'.bridge = some b'
  persists : Persists env.objects env'.objects
  agrees : env'.objects.size ≤ 2 ^ 32 → Agrees env.objects b.registry →
    Agrees env'.objects b'.registry

/-- What registering a new object makes of an environment. -/
theorem State.register_new {s : State} {b : Bridge} (hb : s.env.bridge = some b) {o : ObjectRef}
    (new : b.registry.handleOf o = none) (cls : Option String) :
    s.register o cls = { s with env := { s.env with
      objects := s.env.objects.push ⟨⟨b.registry.last + 1⟩, o, false, cls⟩
      bridge := some { b with registry :=
        { entries := Keyed.put ⟨b.registry.last + 1⟩ ⟨o, s.env.objects.size⟩ b.registry.entries
          handles := Keyed.put o ⟨b.registry.last + 1⟩ b.registry.handles
          last := b.registry.last + 1 } } } } := by
  have new' : b.registry.allocate.2.handleOf o = none := new
  have unknown : b.registry.payload o = none := by rw [Registry.payload, new]; rfl
  rw [register_of_unknown s hb unknown]
  simp only [Registry.insertWith, new']
  rfl

theorem Advances.effect {s s' : State} {b : Bridge} {os os' : List Open} {us : List Update}
    (hb : s.env.bridge = some b) (e : Effect s os us s' os') :
    ∃ b', Advances s.env s'.env b b' := by
  have hk : s.env.roster [] = some ⟨s.env.objects, b.registry, []⟩ :=
    Environment.roster_eq_some.mpr ⟨b, hb, rfl⟩
  obtain ⟨k', hk', turns⟩ := e.turns hk
  obtain ⟨b', hb', rfl⟩ := Environment.roster_eq_some.mp hk'
  refine ⟨b', hb', turns.persists, fun few a => turns.kept a ?_⟩
  rw [length_given]
  exact few

/-- The environment has come from one with some game objects, and its own agree with its registry
unless there are too many for the counter of handles. -/
def Faithful (objects : Array GameObject) (env : Environment) : Prop :=
  ∃ b, env.bridge = some b ∧ Persists objects env.objects ∧
    (env.objects.size ≤ 2 ^ 32 → Agrees env.objects b.registry)

theorem Faithful.effect {objects : Array GameObject} {s s' : State} {os os' : List Open}
    {us : List Update} (h : Faithful objects s.env) (e : Effect s os us s' os') :
    Faithful objects s'.env := by
  obtain ⟨b, hb, persists, agrees⟩ := h
  obtain ⟨b', advances⟩ := Advances.effect hb e
  refine ⟨b', advances.bridge, persists.trans advances.persists, fun few => ?_⟩
  exact advances.agrees few (agrees (Nat.le_trans advances.persists.size_le few))

open Machine Host Relation

/-- The game objects of an environment agree with its registry at every moment. -/
theorem Host.Blueprint.Reaches.faithful {b : Blueprint} {m : Machine} (reached : b.Reaches m) :
    Faithful #[.sentinel] m.state.env :=
  reached.invariant (P := fun env _ => Faithful #[.sentinel] env)
    (fun _ => ⟨_, rfl, .refl _, fun _ => .fresh⟩) fun h e => h.effect e

/-- They have come from those of any earlier moment. -/
theorem Faithful.later {objects : Array GameObject} {m m' : Machine}
    (faithful : Faithful objects m.state.env) (later : ReflTransGen Later m m') :
    Faithful m.state.env.objects m'.state.env := by
  obtain ⟨b, hb, -, agrees⟩ := faithful
  exact later_invariant (P := fun env _ => Faithful m.state.env.objects env) later
    (fun h e => h.effect e) ⟨b, hb, .refl _, agrees⟩

/-! ## What the host and scripts see -/

namespace State

/-- How many handles were given out. -/
def allocated (s : State) : Nat :=
  s.env.objects.size - 1

/-- The game object that the registry keeps behind a handle. -/
def behind (s : State) (h : Handle) : Option Nat :=
  s.env.bridge.bind (·.registry.payloadByHandle h)

variable {s : State} {n : Nat} {o : ObjectRef}

theorem objectOfValue_object {g : GameObject} (h : s.env.objects[n]? = some g) :
    s.objectOfValue (.object n) = g.live? := by
  simp only [objectOfValue, object, h, Option.getD_some]

theorem objectOfValue_eq_some_iff : s.objectOfValue (.object n) = some o ↔
    ∃ g, s.env.objects[n]? = some g ∧ g.deleted = false ∧ g.object = o := by
  cases h : s.env.objects[n]? with
  | none => simp [objectOfValue, object, h, GameObject.sentinel, GameObject.live?]
  | some g => simp [objectOfValue_object h, GameObject.live?_eq_some_iff]

/-- What is live stands for its object. -/
theorem object_of_objectOfValue (h : s.objectOfValue (.object n) = some o) :
    (s.object n).object = o :=
  (GameObject.live?_eq_some_iff.mp h).2

theorem getElem?_object (h : n < s.env.objects.size) : s.env.objects[n]? = some (s.object n) := by
  rw [object, Array.getElem?_eq_getElem h, Option.getD_some]

end State

/-- The registry leads from the object of a game object to its handle, and from there back to the
object and to the game object itself. -/
def State.Knows (s : State) (n : Nat) : Prop :=
  s.handleOf (s.object n).object = some (s.object n).handle ∧
    s.resolveHandle (s.object n).handle = some (s.object n).object ∧
    s.behind (s.object n).handle = some n

namespace Kept

variable {s : State} {b : Bridge} {bs : List Binding} {lost : List Nat}

theorem knows_iff (a : Kept ⟨s.env.objects, b.registry, bs⟩ lost) (hb : s.env.bridge = some b)
    {n : Nat} : s.Knows n ↔
      b.registry.entries.lookup (s.object n).handle = some ⟨(s.object n).object, n⟩ := by
  simp only [State.Knows, State.handleOf, State.resolveHandle, State.behind, hb, Option.bind_some,
    Registry.handleOf, Registry.resolve, Registry.payloadByHandle, Option.map_eq_some_iff]
  constructor
  · rintro ⟨-, ⟨e, he, object⟩, e', he', number⟩
    cases he.symm.trans he'
    rw [he, ← object, ← number]
  · intro he
    exact ⟨a.handleOf_of_lookup he, ⟨_, he, rfl⟩, _, he, rfl⟩

/-- A game object is live exactly while the registry leads to it, while it is being made, or if it
was replaced. -/
theorem objectOfValue_iff (a : Kept ⟨s.env.objects, b.registry, bs⟩ lost)
    (hb : s.env.bridge = some b) {n : Nat} (hn : n < s.env.objects.size) :
    (s.objectOfValue (.object n) = some (s.object n).object ↔
      s.Knows n ∨ n ∈ bs.filterMap (·.made) ∨ n ∈ lost) ∧
    (s.objectOfValue (.object n) ≠ some (s.object n).object →
      (s.object n).kind = .deleted ∧ s.objectOfValue (.object n) = none) := by
  have hg := State.getElem?_object hn
  have live_of {g : GameObject} (hg' : s.env.objects[n]? = some g) (live : g.deleted = false) :
      (s.object n).deleted = false := by
    cases hg.symm.trans hg'
    exact live
  simp only [State.objectOfValue_object hg, ne_eq, GameObject.live?_eq_some_iff, and_true]
  refine ⟨⟨fun live => ?_, ?_⟩, fun dead => ?_⟩
  · rw [a.knows_iff hb]
    exact a.live hg live
  · rintro (knows | mem | gone)
    · obtain ⟨g, hg', live, -⟩ := a.entries ((a.knows_iff hb).mp knows)
      exact live_of hg' live
    · obtain ⟨b', mem', made⟩ := List.mem_filterMap.mp mem
      obtain ⟨g, hg', live, -⟩ := a.making mem' made
      exact live_of hg' live
    · obtain ⟨g, hg', live, -⟩ := a.lost gone
      exact live_of hg' live
  · have deleted := Bool.of_not_eq_false dead
    exact ⟨by rw [GameObject.kind, if_pos deleted], GameObject.live?_eq_none_iff.mpr deleted⟩

/-- What is being made is not known. -/
theorem not_knows_of_making (a : Kept ⟨s.env.objects, b.registry, bs⟩ lost)
    (hb : s.env.bridge = some b) {b' : Binding} {n : Nat} (mem : b' ∈ bs)
    (made : b'.made = some n) : ¬ s.Knows n ∧ (s.object n).object = b'.object := by
  obtain ⟨g, hg, -, object, handle, unknown⟩ := a.making mem made
  have known : s.object n = g := by rw [State.object, hg, Option.getD_some]
  rw [a.knows_iff hb, known]
  refine ⟨fun he => ?_, object⟩
  rw [handle, unknown] at he
  cases he

/-- What was replaced is behind no handle. -/
theorem resolveHandle_lost (a : Kept ⟨s.env.objects, b.registry, bs⟩ lost)
    (hb : s.env.bridge = some b) {n : Nat} (gone : n ∈ lost) :
    n ∉ bs.filterMap (·.made) ∧ s.resolveHandle (s.object n).handle = none ∧
      ∃ n', (s.object n').object = (s.object n).object ∧
        (s.object n').handle.raw < (s.object n).handle.raw := by
  obtain ⟨g, hg, -, unknown, idle, n', g', hg', object, less⟩ := a.lost gone
  have known : s.object n = g := by rw [State.object, hg, Option.getD_some]
  have known' : s.object n' = g' := by rw [State.object, hg', Option.getD_some]
  refine ⟨idle, ?_, n', ?_⟩
  · rw [State.resolveHandle, hb, Option.bind_some, Registry.resolve, known, unknown,
      Option.map_none]
  · rw [known, known']
    exact ⟨object, less⟩

/-- Two live game objects of one object that are neither being made nor replaced are the same. -/
theorem live_unique (a : Kept ⟨s.env.objects, b.registry, bs⟩ lost)
    {n n' : Nat} {o : ObjectRef} (live : s.objectOfValue (.object n) = some o)
    (live' : s.objectOfValue (.object n') = some o) (idle : n ∉ bs.filterMap (·.made))
    (idle' : n' ∉ bs.filterMap (·.made)) (kept : n ∉ lost) (kept' : n' ∉ lost) : n = n' := by
  have leads {n : Nat} (live : s.objectOfValue (.object n) = some o)
      (idle : n ∉ bs.filterMap (·.made)) (kept : n ∉ lost) : b.registry.payload o = some n := by
    obtain ⟨g, hg, alive, rfl⟩ := State.objectOfValue_eq_some_iff.mp live
    obtain he | made | gone := a.live hg alive
    · exact a.payload_eq_some_iff.mpr ⟨_, he⟩
    · exact absurd made idle
    · exact absurd gone kept
  exact Option.some.inj ((leads live idle kept).symm.trans (leads live' idle' kept'))

/-- The value of an object is its registered game object, or the sentinel. -/
theorem objectValue_cases (a : Kept ⟨s.env.objects, b.registry, bs⟩ lost)
    (hb : s.env.bridge = some b) (o : ObjectRef) :
    (∃ n, s.Knows n ∧ (s.object n).object = o ∧ s.objectValue o = .ok (.object n) ∧
        s.objectOfValue (.object n) = some o) ∨
      (s.handleOf o = none ∧ s.objectValue o = .ok (.object 0) ∧ s.object 0 = .sentinel) := by
  cases ho : b.registry.handles.lookup o with
  | none =>
    refine .inr ⟨by rw [State.handleOf, hb]; exact ho, ?_, ?_⟩
    · simp [State.objectValue, hb, Registry.payload, Registry.handleOf, ho]
    · rw [State.object, a.sentinel, Option.getD_some]
  | some h =>
    obtain ⟨n, hn⟩ := a.handles ho
    obtain ⟨g, hg, live, object, handle, -⟩ := a.entries hn
    have known : s.object n = g := by rw [State.object, hg, Option.getD_some]
    refine .inl ⟨n, ?_, known ▸ object, ?_, ?_⟩
    · rw [a.knows_iff hb, known, handle, object]
      exact hn
    · simp only [State.objectValue, hb, a.payload_eq_some_iff.mpr ⟨h, hn⟩, Option.getD_some]
    · exact State.objectOfValue_eq_some_iff.mpr ⟨g, hg, live, object⟩

/-- Behind the handle of a deleted game object there is nothing. -/
theorem resolveHandle_deleted (a : Kept ⟨s.env.objects, b.registry, bs⟩ lost)
    (hb : s.env.bridge = some b) {n : Nat} {g : GameObject} (hg : s.env.objects[n]? = some g)
    (dead : g.deleted = true) : s.resolveHandle g.handle = none := by
  rw [State.resolveHandle, hb, Option.bind_some, Registry.resolve, Option.map_eq_none_iff]
  refine Option.eq_none_iff_forall_ne_some.mpr fun e he => ?_
  obtain ⟨g', hg', live, -, handle, -⟩ := a.entries he
  obtain rfl := a.number_unique hg' hg handle
  cases hg.symm.trans hg'
  rw [dead] at live
  cases live

/-- What a game object of an earlier state has become. -/
theorem stays {s₀ : State} (a : Kept ⟨s.env.objects, b.registry, bs⟩ lost)
    (hb : s.env.bridge = some b) (persists : Persists s₀.env.objects s.env.objects) {n : Nat}
    (hn : n < s₀.env.objects.size) :
    (s.object n).object = (s₀.object n).object ∧ (s.object n).handle = (s₀.object n).handle ∧
      (s₀.objectOfValue (.object n) = none → s.objectOfValue (.object n) = none ∧
        (s.object n).kind = .deleted ∧ s.resolveHandle (s₀.object n).handle = none) := by
  have hg := State.getElem?_object hn
  obtain ⟨g, hg', handle, object, stays⟩ := persists n _ hg
  have known : s.object n = g := by rw [State.object, hg', Option.getD_some]
  rw [known]
  refine ⟨object, handle, fun dead => ?_⟩
  rw [State.objectOfValue_object hg, GameObject.live?_eq_none_iff] at dead
  refine ⟨?_, by rw [GameObject.kind, if_pos (stays dead)], ?_⟩
  · rw [State.objectOfValue_object hg', GameObject.live?_eq_none_iff]
    exact stays dead
  · rw [← handle]
    exact a.resolveHandle_deleted hb hg' (stays dead)

end Kept

end CardBridge
