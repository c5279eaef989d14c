import CardBridge.Proofs.LiveObjects

/-!
# Handles

The handle of an object changes only where host code registers or unregisters that object
(`Machine.Run.handleOf_eq`). Registering an object that has a handle leaves it its handle, so as
long as it is not unregistered it keeps that (`Machine.Run.handleOf_kept`), and a handle that it
gets is greater than all handles that were given out before (`Machine.Run.handleOf_new`). The last
two need that the counter of handles has not run over.
-/

namespace CardBridge

/-- A change that can give an object another handle, or none. -/
def Update.Rebinds (o : ObjectRef) : Update → Prop
  | register o' _ | unregister o' => o' = o
  | _ => False

namespace State

variable {s : State} {o o' : ObjectRef}

theorem handleOf_of_bridge {b : Bridge} (hb : s.env.bridge = some b) (o : ObjectRef) :
    s.handleOf o = b.registry.handles.lookup o := by
  rw [handleOf, hb]
  rfl

theorem handleOf_register_of_ne (other : o ≠ o') (cls : Option String) :
    (s.register o' cls).handleOf o = s.handleOf o := by
  cases hb : s.env.bridge with
  | none => simp only [register, hb]
  | some b =>
    rw [handleOf_of_bridge hb]
    cases known : b.registry.payload o' with
    | none =>
      rw [register_of_unknown s hb known]
      exact Keyed.lookup_put_of_ne other _ _
    | some n =>
      rw [register_of_known s hb known, refresh]
      split <;> exact handleOf_of_bridge hb o

theorem handleOf_unregister_of_ne (other : o ≠ o') :
    (s.unregister o').handleOf o = s.handleOf o := by
  cases hb : s.env.bridge with
  | none => simp [unregister, hb]
  | some b =>
    have left : (s.unregister o').handleOf o = (b.registry.remove o').2.handles.lookup o := by
      simp [unregister, hb, handleOf, Registry.handleOf]
    rw [left, handleOf_of_bridge hb]
    unfold Registry.remove
    split
    · rfl
    · exact Keyed.lookup_erase_of_ne other _

theorem handleOf_unregister_self {b : Bridge} (hb : s.env.bridge = some b) (o : ObjectRef) :
    (s.unregister o).handleOf o = none := by
  have left : (s.unregister o).handleOf o = (b.registry.remove o).2.handles.lookup o := by
    simp [unregister, hb, handleOf, Registry.handleOf]
  rw [left]
  unfold Registry.remove
  split
  case h_1 unknown => exact unknown
  case h_2 => exact Keyed.lookup_erase_self _ _

/-- An object that has a handle keeps it when it is registered. -/
theorem handleOf_register_self {b : Bridge} (hb : s.env.bridge = some b)
    (a : Agrees s.env.objects b.registry) {h : Handle} (registered : s.handleOf o = some h)
    (cls : Option String) : (s.register o cls).handleOf o = some h := by
  have found := (handleOf_of_bridge hb o).symm.trans registered
  obtain ⟨n, g, payload, -⟩ := a.payload_eq found
  have stays : (s.register o cls).env.bridge = some b := by
    rw [register_of_known s hb payload, refresh]
    split <;> exact hb
  rw [handleOf_of_bridge stays]
  exact found

end State

/-- The handle of a registered object was given out. -/
theorem Agrees.handle_lt {objects : Array GameObject} {r : Registry Nat} (a : Agrees objects r)
    {o : ObjectRef} {h : Handle} (registered : r.handles.lookup o = some h) :
    h.raw.toNat < objects.size := by
  obtain ⟨n, g, -, -, hg, -, -, rfl⟩ := a.payload_eq registered
  rw [← a.last]
  exact Nat.lt_succ_of_le (UInt32.le_iff_toNat_le.mp (Kept.given_le a _ (Kept.mem_given hg)))

/-! ## Steps -/

theorem Update.handleOf_eq {u : Update} {o : ObjectRef} (h : ¬ u.Rebinds o) (s : State) :
    (u.apply s).handleOf o = s.handleOf o := by
  cases u with
  | register o' cls => exact State.handleOf_register_of_ne (Ne.symm h) cls
  | unregister o' => exact State.handleOf_unregister_of_ne (Ne.symm h)
  | report site f =>
    obtain ⟨messages, e⟩ := s.report_env site f
    simp only [apply, State.handleOf, e]
    cases s.env.bridge <;> rfl
  | stage q | clear q =>
    simp only [apply, State.handleOf, State.stage_env, State.clear_env]
    cases s.env.bridge with
    | none => rfl
    | some b => cases q <;> rfl
  | abandon id =>
    simp only [apply, State.handleOf, State.updateBridge_env]
    cases s.env.bridge <;> rfl
  | emit | hold | copySlot | dropSlot | makeClass | makeTable | addChunk | called | ended =>
    simp [apply, State.handleOf]

namespace Effect

variable {s s' : State} {os os' : List Open} {us : List Update} {o : ObjectRef}

/-- What does not rebind an object leaves it its handle. -/
theorem handleOf_eq (e : Effect s os us s' os') (h : ∀ u ∈ us, ¬ u.Rebinds o) :
    s'.handleOf o = s.handleOf o := by
  cases hb : s.env.bridge with
  | none => simp [State.handleOf, hb, e.foreign hb]
  | some b =>
    cases e with
    | quiet | script => rfl
    | write u => exact Update.handleOf_eq (h u List.mem_cons_self) s
    | enter scope enters =>
      obtain ⟨-, depth, noAction, -, hb'⟩ := Scope.enter_bridge enters hb
      rw [State.handleOf_of_bridge hb, State.handleOf_of_bridge hb']
    | leave scope r =>
      obtain ⟨-, noAction, hb'⟩ := scope.leave_bridge r hb
      rw [State.handleOf_of_bridge hb, State.handleOf_of_bridge hb']

/-- An object that is not unregistered keeps its handle. -/
theorem handleOf_kept {b : Bridge} (hb : s.env.bridge = some b)
    (a : Agrees s.env.objects b.registry) (e : Effect s os us s' os') {h : Handle}
    (registered : s.handleOf o = some h) (stays : .unregister o ∉ us) :
    s'.handleOf o = some h := by
  by_cases rebound : ∃ u ∈ us, u.Rebinds o
  · obtain ⟨u, mem, rebinds⟩ := rebound
    cases e with
    | write u' =>
      obtain rfl := List.mem_singleton.mp mem
      cases u with
      | register o' cls =>
        obtain rfl : o' = o := rebinds
        exact State.handleOf_register_self hb a registered cls
      | unregister o' =>
        obtain rfl : o' = o := rebinds
        exact absurd mem stays
      | _ => cases rebinds
    | quiet | script | enter | leave => cases mem
  · rw [e.handleOf_eq fun u mem rebinds => rebound ⟨u, mem, rebinds⟩]
    exact registered

/-- A handle that an object has after a step was its own before, or was not given out before. -/
theorem handleOf_new {b : Bridge} (hb : s.env.bridge = some b)
    (a : Agrees s.env.objects b.registry) (e : Effect s os us s' os')
    (few : s'.env.objects.size ≤ 2 ^ 32) {h : Handle} (registered : s'.handleOf o = some h) :
    s.handleOf o = some h ∨ s.env.objects.size ≤ h.raw.toNat := by
  by_cases rebound : ∃ u ∈ us, u.Rebinds o
  · obtain ⟨u, mem, rebinds⟩ := rebound
    cases e with
    | write u' =>
      obtain rfl := List.mem_singleton.mp mem
      cases u with
      | register o' cls =>
        obtain rfl : o' = o := rebinds
        cases before : s.handleOf o' with
        | some h₀ =>
          rw [Update.apply, State.handleOf_register_self hb a before cls] at registered
          exact .inl registered
        | none =>
          have new : b.registry.handleOf o' = none :=
            (State.handleOf_of_bridge hb o').symm.trans before
          rw [Update.apply, State.register_new hb new] at few registered
          rw [Array.size_push] at few
          have known := (Keyed.lookup_put_self _ _ _).symm.trans registered
          rw [← Option.some.inj known, a.toNat_next few]
          exact .inr (Nat.le_refl _)
      | unregister o' =>
        obtain rfl : o' = o := rebinds
        rw [Update.apply, State.handleOf_unregister_self hb] at registered
        cases registered
      | _ => cases rebinds
    | quiet | script | enter | leave => cases mem
  · rw [e.handleOf_eq fun u mem rebinds => rebound ⟨u, mem, rebinds⟩] at registered
    exact .inl registered

end Effect

/-! ## Runs -/

namespace Machine.Run

variable {K : List Frame} {m m' : Machine} {us : List Update} {objects : Array GameObject}
  {o : ObjectRef} {h : Handle}

/-- The handle of an object changes only where the object is registered or unregistered. -/
theorem handleOf_eq (run : Run K m us m') (others : ∀ u ∈ us, ¬ u.Rebinds o) :
    m'.state.handleOf o = m.state.handleOf o :=
  run.invariant (P := fun s _ => s.handleOf o = m.state.handleOf o)
    (fun before e _ sub => (e.handleOf_eq fun u mem => others u (sub mem)).trans before) rfl

/-- What steps keep while the registry agrees with the game objects, a run keeps that leaves the
counter of handles in bounds. -/
theorem invariant_of_few {P : State → Prop} (run : Run K m us m')
    (faithful : Faithful objects m.state.env) (few : m'.state.env.objects.size ≤ 2 ^ 32)
    (begins : P m.state)
    (step : ∀ {s os ws s' os' b}, s.env.bridge = some b → Agrees s.env.objects b.registry →
      m.state.env.objects.size ≤ s.env.objects.size → s'.env.objects.size ≤ 2 ^ 32 → P s →
      Effect s os ws s' os' → ws ⊆ us → P s') : P m'.state := by
  obtain ⟨b, hb, -, agrees⟩ := faithful
  have kept : Faithful m.state.env.objects m'.state.env ∧
      (m'.state.env.objects.size ≤ 2 ^ 32 → P m'.state) := by
    refine run.invariant (P := fun s _ => Faithful m.state.env.objects s.env ∧
      (s.env.objects.size ≤ 2 ^ 32 → P s)) ?_ ⟨⟨b, hb, .refl _, agrees⟩, fun _ => begins⟩
    rintro s os ws s' os' ⟨⟨b, hb, persists, agrees⟩, before⟩ e - sub
    refine ⟨Faithful.effect ⟨b, hb, persists, agrees⟩ e, fun few' => ?_⟩
    obtain ⟨b', advances⟩ := Advances.effect hb e
    have few₀ := Nat.le_trans advances.persists.size_le few'
    exact step hb (agrees few₀) persists.size_le few' (before few₀) e sub
  exact kept.2 few

/-- An object that is not unregistered keeps its handle. -/
theorem handleOf_kept (run : Run K m us m') (faithful : Faithful objects m.state.env)
    (few : m'.state.env.objects.size ≤ 2 ^ 32) (registered : m.state.handleOf o = some h)
    (stays : .unregister o ∉ us) : m'.state.handleOf o = some h :=
  run.invariant_of_few (P := fun s => s.handleOf o = some h) faithful few registered
    fun hb a _ _ before e sub => e.handleOf_kept hb a before fun mem => stays (sub mem)

/-- A handle that an object has at the end of a run was its own before, or was not given out
before. -/
theorem handleOf_new (run : Run K m us m') (faithful : Faithful objects m.state.env)
    (few : m'.state.env.objects.size ≤ 2 ^ 32) (registered : m'.state.handleOf o = some h) :
    m.state.handleOf o = some h ∨ m.state.env.objects.size ≤ h.raw.toNat := by
  refine run.invariant_of_few (P := fun s => s.handleOf o = some h →
    m.state.handleOf o = some h ∨ m.state.env.objects.size ≤ h.raw.toNat) faithful few .inl ?_
    registered
  intro s os ws s' os' b hb a more few' before e _ registered
  obtain same | new := e.handleOf_new hb a few' registered
  · exact before same
  · exact .inr (Nat.le_trans more new)

end Machine.Run

end CardBridge
