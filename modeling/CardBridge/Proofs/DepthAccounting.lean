import CardBridge.Proofs.Lives

/-!
# Depth accounting

Every level of invocation is a scope of host code, so the depth that an environment counts is the
number of those scopes which are open (`guards`). `Effect.depth` says the three things that can
happen to the depth in one step : the begin of a level within the bound, the end of one, or nothing.
From it follow that the count is right at every moment of every life, that host code leaves the
depth as it found it, and that the host is told exactly when the last level ends
(`call_depth_accounted`).
-/

namespace CardBridge

open Script (Value Memory)

/-! ## The journal -/

/-- The sessions that were told that no invocation is left, last one first. -/
def Shared.clearings (s : Shared) : List SessionId :=
  s.journal.filterMap fun
    | .cleared session => some session
    | _ => none

/-- The sessions that were told that no invocation is left, last one first. -/
def State.clearings (s : State) : List SessionId :=
  s.shared.clearings

namespace Shared

variable (s : Shared)

@[simp] theorem own_clearings (c : Callable) : (s.own c).clearings = s.clearings :=
  rfl

@[simp] theorem disown_clearings (c : Callable) : (s.disown c).clearings = s.clearings := by
  unfold disown
  split
  · rfl
  · dsimp only
    split <;> rfl

@[simp] theorem ownArgument_clearings (a : Argument) :
    (s.ownArgument a).clearings = s.clearings := by
  cases a <;> rfl

@[simp] theorem disownArgument_clearings (a : Argument) :
    (s.disownArgument a).clearings = s.clearings := by
  cases a with
  | function c => exact s.disown_clearings c
  | nil | int | bool | text | object | value => rfl

theorem foldl_clearings {α : Type} {f : Shared → α → Shared}
    (hf : ∀ s a, (f s a).clearings = s.clearings) :
    ∀ (as : List α) (s : Shared), (as.foldl f s).clearings = s.clearings
  | [], s => rfl
  | a :: as, s => by rw [List.foldl_cons, foldl_clearings hf as, hf]

@[simp] theorem disownAll_clearings (args : List Argument) :
    (s.disownAll args).clearings = s.clearings :=
  foldl_clearings disownArgument_clearings args s

@[simp] theorem dropSlot_clearings (slot : String) :
    (s.dropSlot slot).clearings = s.clearings := by
  unfold dropSlot
  split
  · rfl
  · rw [disown_clearings]
    rfl

@[simp] theorem fillSlot_clearings (slot : String) (c : Callable) :
    (s.fillSlot slot c).clearings = s.clearings :=
  s.dropSlot_clearings slot

end Shared

namespace State

variable (s : State)

@[simp] theorem emit_clearings (kind : MessageKind) (text : String) :
    (s.emit kind text).clearings = s.clearings := by
  unfold emit
  split
  · split <;> rfl
  · rfl

@[simp] theorem report_clearings (site : String) (f : Failure) :
    (s.report site f).clearings = s.clearings :=
  s.report_induction (P := fun t => t.clearings = s.clearings) (fun _ _ h => h)
    (fun t kind text h => (t.emit_clearings kind text).trans h) rfl site f

end State

/-- No change tells a session that no invocation is left. -/
theorem Update.apply_clearings (u : Update) (s : State) : (u.apply s).clearings = s.clearings := by
  cases u with
  | stage q front a =>
    simp only [apply, State.stage]
    split
    · rfl
    · exact s.shared.ownArgument_clearings a
  | clear q => exact s.shared.disownAll_clearings _
  | register o cls =>
    exact congrArg Shared.clearings (s.register_shared o cls)
  | unregister o =>
    simp only [apply, State.unregister]
    split <;> rfl
  | emit kind text => exact s.emit_clearings kind text
  | report site f => exact s.report_clearings site f
  | hold slot f =>
    simp only [apply, State.hold]
    split
    · rfl
    · exact Shared.fillSlot_clearings _ slot _
  | copySlot source target =>
    simp only [apply, State.copySlot]
    split
    · rfl
    · exact Shared.fillSlot_clearings _ target _
  | dropSlot slot => exact s.shared.dropSlot_clearings slot
  | abandon | makeClass | makeTable | addChunk | called | ended => rfl

/-! ## Levels -/

/-- How many levels of invocation some open scopes are. -/
def guards : List Open → Nat
  | [] => 0
  | .guard :: os => guards os + 1
  | _ :: os => guards os

theorem guards_le_of_suffix {os os' : List Open} (h : os <:+ os') : guards os ≤ guards os' := by
  obtain ⟨front, rfl⟩ := h
  induction front with
  | nil => exact Nat.le_refl _
  | cons o front ih =>
    cases o with
    | guard => exact Nat.le_succ_of_le ih
    | query | step | loading | holding => exact ih

theorem guards_append (os os' : List Open) : guards (os ++ os') = guards os + guards os' := by
  induction os with
  | nil => exact (Nat.zero_add _).symm
  | cons o os ih =>
    cases o with
    | guard => rw [List.cons_append, guards, guards, ih, Nat.add_right_comm]
    | query | step | loading | holding => exact ih

/-- The end of a level counts it down, and tells the session if it was the last one. -/
theorem State.leaveGuard_clearings {s : State} {b : Bridge} {session : SessionId}
    (hb : s.env.bridge = some b) (hs : s.env.session = some session) :
    s.leaveGuard.clearings = if b.depth.leave.current = 0 ∧ s.env.hooked then
      session :: s.clearings else s.clearings := by
  unfold leaveGuard
  simp only [hb, updateBridge_env, hs]
  split <;> rfl

/-- The begin of a scope tells nothing. -/
theorem Scope.enter_clearings {scope : Scope} {s s' : State} {o : Open}
    (h : scope.enter s = .ok (o, s')) : s'.clearings = s.clearings := by
  cases scope with
  | guard =>
    obtain ⟨-, b, depth, -, -, rfl⟩ := Scope.enter_guard h
    rfl
  | query =>
    obtain ⟨-, rfl⟩ := Scope.enter_query h
    rfl
  | start id f =>
    obtain ⟨b, -, -, -, rfl⟩ := Scope.enter_start h
    rfl
  | proceed id =>
    obtain ⟨b, e, -, -, -, -, rfl⟩ := Scope.enter_proceed h
    rfl
  | loading code =>
    obtain ⟨-, m, -, rfl⟩ := Scope.enter_loading h
    rfl
  | holding cs =>
    obtain ⟨-, rfl⟩ := Scope.enter_holding h
    exact Shared.foldl_clearings Shared.own_clearings cs s.shared

/-- What can happen to the depth in one step : a level begins, a level ends, or nothing. -/
theorem Effect.depth {s s' : State} {os os' : List Open} {us : List Update}
    (h : Effect s os us s' os') {b : Bridge} (hb : s.env.bridge = some b) :
    ∃ b', s'.env.bridge = some b' ∧
      ((os' = .guard :: os ∧ b.depth.enter? = some b'.depth ∧ s'.clearings = s.clearings) ∨
      (os = .guard :: os' ∧ b'.depth = b.depth.leave ∧ s' = s.leaveGuard) ∨
      (guards os' = guards os ∧ b'.depth = b.depth ∧ s'.clearings = s.clearings)) := by
  cases h with
  | quiet | script => exact ⟨b, hb, .inr (.inr ⟨rfl, rfl, rfl⟩)⟩
  | write u =>
    obtain ⟨registry, messages, hu⟩ := u.apply_bridge hb
    exact ⟨_, hu, .inr (.inr ⟨rfl, rfl, u.apply_clearings s⟩)⟩
  | @enter _ scope o _ h =>
    obtain ⟨-, depth, noAction, hd, hb'⟩ := Scope.enter_bridge h hb
    refine ⟨_, hb', ?_⟩
    cases o with
    | guard => exact .inl ⟨rfl, hd, Scope.enter_clearings h⟩
    | query | step | loading | holding =>
      cases hd
      exact .inr (.inr ⟨rfl, rfl, Scope.enter_clearings h⟩)
  | leave o r =>
    obtain ⟨-, noAction, hb'⟩ := o.leave_bridge r hb
    refine ⟨_, hb', ?_⟩
    cases o with
    | guard => exact .inr (.inl ⟨rfl, rfl, rfl⟩)
    | query | step => exact .inr (.inr ⟨rfl, rfl, rfl⟩)
    | loading cls table code =>
      obtain ⟨m, -, e⟩ := s.endLoading_eq cls table code r.isFailure
      exact .inr (.inr ⟨rfl, rfl, by rw [Open.leave, e]; rfl⟩)
    | holding cs =>
      exact .inr (.inr ⟨rfl, rfl, Shared.foldl_clearings Shared.disown_clearings cs s.shared⟩)

/-! ## Whole runs -/

open Machine Host

/-- The depth and the levels that are open differ as `d` and `k` do. -/
def Balanced (d k : Nat) (env : Environment) (os : List Open) : Prop :=
  ∃ x, env.bridge = some x ∧ x.depth.current + k = d + guards os

theorem Balanced.effect {d k : Nat} {s s' : State} {os os' : List Open} {us : List Update}
    (h : Balanced d k s.env os) (e : Effect s os us s' os') (above : k ≤ guards os') :
    Balanced d k s'.env os' := by
  obtain ⟨x, hx, eq⟩ := h
  obtain ⟨x', hx', ⟨rfl, enters, -⟩ | ⟨rfl, leaves, -⟩ | ⟨same, stays, -⟩⟩ := e.depth hx
  · obtain ⟨-, hd⟩ := (CallDepth.enter?_eq_some_iff _ _).mp enters
    refine ⟨x', hx', ?_⟩
    simp only [← hd, guards]
    omega
  · refine ⟨x', hx', ?_⟩
    simp only [guards] at eq above ⊢
    simp only [leaves, CallDepth.leave]
    omega
  · refine ⟨x', hx', ?_⟩
    rw [stays, same]
    exact eq

/-- Host code leaves the depth as it found it, however it ends. -/
theorem Code.returns_depth {K : List Frame} {s s' : State} {c : Code} {us : List Update}
    {r : Reply} (h : Returns K s c us r s') : s'.callDepth = s.callDepth := by
  cases hb : s.env.bridge with
  | none =>
    have foreign : s'.env.bridge = none := Run.foreign h hb
    rw [State.callDepth, State.callDepth, hb, foreign]
  | some b =>
    have balanced : Balanced b.depth.current (guards (opens K)) s'.env (opens K) :=
      Run.invariant (P := fun s os => Balanced b.depth.current (guards (opens K)) s.env os) h
        (fun hs e above _ => hs.effect e (guards_le_of_suffix above)) ⟨b, hb, rfl⟩
    obtain ⟨b', hb', eq⟩ := balanced
    rw [State.callDepth, State.callDepth, hb, hb']
    exact Nat.add_right_cancel eq

/-- The depth of an environment is counted rightly while `os` are open. -/
structure Accounted (b : Blueprint) (env : Environment) (os : List Open) : Prop where
  session : env.session = some b.session
  hooked : env.hooked = b.hooked
  depth : ∃ x, env.bridge = some x ∧ x.depth.max = b.config.maxCallDepth ∧
    x.depth.current = guards os ∧ x.depth.current ≤ x.depth.peak ∧ x.depth.peak ≤ x.depth.max

namespace Accounted

variable {b : Blueprint} {s s' : State} {os os' : List Open} {us : List Update}

theorem fresh (b : Blueprint) (account : Nat) : Accounted b (b.environment account) [] :=
  ⟨rfl, rfl, _, rfl, rfl, rfl, Nat.le_refl _, Nat.zero_le _⟩

theorem effect (h : Accounted b s.env os) (e : Effect s os us s' os') :
    Accounted b s'.env os' := by
  obtain ⟨x, hx, max, count, low, high⟩ := h.depth
  obtain ⟨memory, objects, bridge, env⟩ := e.env_eq
  refine ⟨by rw [env]; exact h.session, by rw [env]; exact h.hooked, ?_⟩
  obtain ⟨x', hx', ⟨rfl, enters, -⟩ | ⟨rfl, leaves, -⟩ | ⟨same, stays, -⟩⟩ := e.depth hx
  · obtain ⟨room, hd⟩ := (CallDepth.enter?_eq_some_iff _ _).mp enters
    refine ⟨x', hx', ?_⟩
    rw [← hd, guards]
    exact ⟨max, congrArg (· + 1) count, Nat.le_max_right _ _, Nat.max_le.mpr ⟨high, room⟩⟩
  · refine ⟨x', hx', ?_⟩
    rw [guards] at count
    rw [leaves]
    exact ⟨max, by simp only [CallDepth.leave]; omega, by simp only [CallDepth.leave]; omega, high⟩
  · refine ⟨x', hx', ?_⟩
    rw [stays, same]
    exact ⟨max, count, low, high⟩

/-- In a step the session is told that no invocation is left if the last level ends in it. -/
theorem clearings (h : Accounted b s.env os) (e : Effect s os us s' os') :
    s'.clearings = if s.callDepth = 1 ∧ s'.callDepth = 0 ∧ b.hooked then
      b.session :: s.clearings else s.clearings := by
  obtain ⟨x, hx, -, count, -⟩ := h.depth
  have depth : s.callDepth = guards os := by rw [State.callDepth, hx]; exact count
  obtain ⟨x', hx', cases⟩ := e.depth hx
  have depth' : s'.callDepth = x'.depth.current := by rw [State.callDepth, hx']; rfl
  rcases cases with ⟨rfl, enters, silent⟩ | ⟨rfl, leaves, left⟩ | ⟨same, stays, silent⟩
  · obtain ⟨-, hd⟩ := (CallDepth.enter?_eq_some_iff _ _).mp enters
    rw [silent, if_neg]
    rw [depth', ← hd]
    simp
  · have told := State.leaveGuard_clearings hx h.session
    rw [← left, h.hooked, ← leaves, ← depth'] at told
    have before : s.callDepth = s'.callDepth + 1 := by
      rw [depth, depth', leaves, CallDepth.leave, count, guards]
      rfl
    rw [told, before]
    by_cases last : s'.callDepth = 0 <;> simp [last]
  · rw [silent, if_neg]
    rw [depth', stays, count, ← depth]
    omega

end Accounted

/-- A level begins below the bound, and is refused at it with no effect. -/
theorem Machine.Move.level {s : State} {body : Code} {refused : Failure → Code} {k : Reply → Code}
    {K : List Frame} {m : Machine} {x : Bridge}
    (h : Move ⟨s, .host (.scope .guard body refused k), K⟩ m) (hx : s.env.bridge = some x) :
    if x.depth.current < x.depth.max then
      m.state.callDepth = x.depth.current + 1 ∧ m.activity = .host body ∧
        m.stack = .scope .guard k :: K
    else m = ⟨s, .host (refused (.depthExceeded x.depth.max)), K⟩ := by
  cases h with
  | enter h =>
    obtain ⟨rfl, x', depth, hx', hd, rfl⟩ := Scope.enter_guard h
    cases hx.symm.trans hx'
    obtain ⟨room, rfl⟩ := (CallDepth.enter?_eq_some_iff _ _).mp hd
    rw [if_pos room]
    exact ⟨by simp [State.callDepth, hx], rfl, rfl⟩
  | refuse h =>
    simp only [Scope.enter, State.enterGuard, hx] at h
    cases hd : x.depth.enter? with
    | none =>
      rw [hd] at h
      cases h
      rw [if_neg (Nat.not_lt.mpr ((CallDepth.enter?_eq_none_iff _).mp hd))]
    | some depth =>
      rw [hd] at h
      cases h

/-- **Depth accounting.** At every moment in the life of an environment the depth is the number of
levels that are open, and within the peak and the bound. The session is told that no invocation is
left in the steps from depth 1 to depth 0 and in no others. A level is refused at the bound, with
no effect, and begins below it. Every operation leaves the depth as it found it. -/
theorem call_depth_accounted (b : Blueprint) :
    (∀ m, b.Reaches m →
      m.state.callDepth = guards (opens m.stack) ∧
      m.state.callDepth ≤ m.state.peakDepth ∧
      m.state.peakDepth ≤ b.config.maxCallDepth ∧
      (∀ m', m.Move m' → m'.state.clearings =
        if m.state.callDepth = 1 ∧ m'.state.callDepth = 0 ∧ b.hooked then
          b.session :: m.state.clearings
        else m.state.clearings) ∧
      ∀ body refused k m', m.activity = .host (.scope .guard body refused k) → m.Move m' →
        if m.state.callDepth < b.config.maxCallDepth then
          m'.state.callDepth = m.state.callDepth + 1 ∧ m'.activity = .host body ∧
            m'.stack = .scope .guard k :: m.stack
        else m' = ⟨m.state, .host (refused (.depthExceeded b.config.maxCallDepth)), m.stack⟩) ∧
    ∀ (o : Operation) K s us r s', o.code.Returns K s us r s' → s'.callDepth = s.callDepth := by
  refine ⟨fun m reached => ?_, fun o K s us r s' h => Code.returns_depth h⟩
  have accounted : Accounted b m.state.env (opens m.stack) :=
    reached.invariant (Accounted.fresh b) fun h e => h.effect e
  obtain ⟨x, hx, max, count, low, high⟩ := accounted.depth
  have depth : m.state.callDepth = x.depth.current := by rw [State.callDepth, hx]; rfl
  have peak : m.state.peakDepth = x.depth.peak := by rw [State.peakDepth, hx]; rfl
  refine ⟨depth.trans count, by omega, by omega, fun m' h => accounted.clearings h.effect, ?_⟩
  obtain ⟨s, activity, K⟩ := m
  rintro body refused k m' rfl h
  rw [depth, ← max]
  exact h.level hx

theorem call_depth_accounted_plain :
    (∃ m m' m'', (Blueprint.plain ⟨1⟩).Reaches m ∧ m.Move m' ∧ m'.Move m'' ∧
      m.state.callDepth = 0 ∧ m'.state.callDepth = 1 ∧ m''.state.callDepth = 0 ∧
      m''.state.clearings = [⟨1⟩]) ∧
    ∃ us r s, (Operation.callValue (.native .inertZero) 0 .all).code.Returns []
      ⟨(Blueprint.plain ⟨1⟩).environment 0, .empty⟩ us r s ∧ s.callDepth = 0 := by
  have accounted := call_depth_accounted (Blueprint.plain ⟨1⟩)
  constructor
  · have new : (Blueprint.plain ⟨1⟩).Reaches
        (.start ⟨(Blueprint.plain ⟨1⟩).environment 0, .empty⟩ (.within .guard .done)) :=
      ⟨0, .empty, _, .refl⟩
    have enters : Move
        (.start ⟨(Blueprint.plain ⟨1⟩).environment 0, .empty⟩ (.within .guard .done)) _ :=
      .enter rfl
    obtain ⟨-, -, -, -, level⟩ := accounted.1 _ new
    have begun := level _ _ _ _ rfl enters
    rw [if_pos (by decide)] at begun
    obtain ⟨-, -, -, told, -⟩ := accounted.1 _ (new.later (.single (.move enters)))
    have ended := told _ .leave
    rw [if_pos (by decide)] at ended
    exact ⟨_, _, _, new, enters, .leave, rfl, begun.1, rfl, ended⟩
  · obtain ⟨r, s, stops⟩ : ∃ r s, run idle 30
        (.start ⟨(Blueprint.plain ⟨1⟩).environment 0, .empty⟩
          (Operation.callValue (.native .inertZero) 0 .all).code) = .ended r s := ⟨_, _, rfl⟩
    have returns := run_of_ended _ _ stops
    exact ⟨_, r, s, returns, accounted.2 _ _ _ _ _ _ returns⟩

end CardBridge
