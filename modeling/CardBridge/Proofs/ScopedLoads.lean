import CardBridge.Proofs.Globals
import CardBridge.Proofs.LoadingOnDemand

/-!
# Scoped loads

While the script of a card is loaded, two globals name its class and its code. Loads nest through
functions of the host to any depth, and each of them saves the two globals and puts them back when
it ends, however it ends. Scripts may assign the globals at any time.

What the two globals are to become when all loads above some frame have ended is settled by the
outermost of these loads, which has saved it (`restored`). No begin and no end of a nested load
changes that (`Effect.restored_eq`), so outside nested loads the globals are what they were, unless
they were assigned there (`named_of_unassigned`). `load_card_script_scoped` has the whole of it :
nothing is touched if there is nothing to load, otherwise the globals are put back, and a load that
fails leaves no class, so that the next one runs the script again.
-/

namespace CardBridge

open Relation (ReflTransGen)
open Machine Host

/-- Whether a scope is the load of a card's script. -/
def Open.IsLoading : Open → Prop
  | .loading .. => True
  | _ => False

/-- The values of the two globals that tell the script of a card which one it is. -/
def State.named (s : State) : Script.Value × Script.Value :=
  (s.global State.classGlobal, s.global State.codeGlobal)

/-! ## Nested loads -/

/-- What the two globals are when all loads among some scopes, innermost first, have ended. -/
def restored (now : Script.Value × Script.Value) : List Open → Script.Value × Script.Value
  | [] => now
  | .loading _ t c :: os => restored (t, c) os
  | _ :: os => restored now os

theorem restored_cons_of_not_loading {now : Script.Value × Script.Value} {o : Open} {os : List Open}
    (h : ¬ o.IsLoading) : restored now (o :: os) = restored now os := by
  cases o with
  | loading => exact absurd trivial h
  | guard | query | step | holding => rfl

theorem restored_of_outside {now : Script.Value × Script.Value} {os : List Open}
    (h : ∀ o ∈ os, ¬ o.IsLoading) : restored now os = now := by
  induction os with
  | nil => rfl
  | cons o os ih =>
    obtain ⟨here, there⟩ := List.forall_mem_cons.mp h
    rw [restored_cons_of_not_loading here, ih there]

/-- What the globals are inside a load makes no difference to what they are after it. -/
theorem restored_of_loading {os : List Open} {o : Open} (mem : o ∈ os) (h : o.IsLoading)
    (now now' : Script.Value × Script.Value) : restored now os = restored now' os := by
  induction os with
  | nil => cases mem
  | cons o' os ih =>
    by_cases here : o'.IsLoading
    · cases o' with
      | loading => rfl
      | guard | query | step | holding => cases here
    · obtain rfl | there := List.mem_cons.mp mem
      · exact absurd h here
      · rw [restored_cons_of_not_loading here, restored_cons_of_not_loading here, ih there]

theorem Scope.enter_isLoading {scope : Scope} {s s' : State} {o : Open}
    (h : scope.enter s = .ok (o, s')) (loads : o.IsLoading) : ∃ code, scope = .loading code := by
  cases scope with
  | loading code => exact ⟨code, rfl⟩
  | guard =>
    obtain ⟨rfl, -⟩ := Scope.enter_guard h
    cases loads
  | query =>
    obtain ⟨rfl, -⟩ := Scope.enter_query h
    cases loads
  | start id f =>
    obtain ⟨b, -, -, rfl, -⟩ := Scope.enter_start h
    cases loads
  | proceed id =>
    obtain ⟨b, e, -, -, -, rfl, -⟩ := Scope.enter_proceed h
    cases loads
  | holding cs =>
    obtain ⟨rfl, -⟩ := Scope.enter_holding h
    cases loads

theorem Scope.enter_named {scope : Scope} {s s' : State} {o : Open}
    (h : scope.enter s = .ok (o, s'))
    (os : List Open) : restored s'.named (o :: os) = restored s.named os := by
  by_cases loads : ∃ code, scope = .loading code
  · obtain ⟨code, rfl⟩ := loads
    obtain ⟨rfl, -⟩ := Scope.enter_loading h
    rfl
  · have other (code) (eq : scope = .loading code) : False := loads ⟨code, eq⟩
    have same : s'.named = s.named :=
      Prod.ext (Scope.enter_global h other _) (Scope.enter_global h other _)
    rw [same,
      restored_cons_of_not_loading fun isLoading => loads (Scope.enter_isLoading h isLoading)]

/-- A load has the name of the class it fills. -/
def Open.Proper : Open → Prop
  | .loading cls _ _ => ∃ code, cls = scriptClass code
  | _ => True

theorem Scope.enter_proper {scope : Scope} {s s' : State} {o : Open}
    (h : scope.enter s = .ok (o, s')) : o.Proper := by
  cases scope with
  | guard =>
    obtain ⟨rfl, -⟩ := Scope.enter_guard h
    trivial
  | query =>
    obtain ⟨rfl, -⟩ := Scope.enter_query h
    trivial
  | start id f =>
    obtain ⟨b, -, -, rfl, -⟩ := Scope.enter_start h
    trivial
  | proceed id =>
    obtain ⟨b, e, -, -, -, rfl, -⟩ := Scope.enter_proceed h
    trivial
  | loading code =>
    obtain ⟨rfl, -⟩ := Scope.enter_loading h
    exact ⟨code, rfl⟩
  | holding cs =>
    obtain ⟨rfl, -⟩ := Scope.enter_holding h
    trivial

/-- The end of a load puts back what it has saved. -/
theorem Open.leave_named {o : Open} (proper : o.Proper) {s : State}
    (h : s.env.memory.HasGlobals) (r : Reply) (os : List Open) :
    restored (o.leave s r).named os = restored s.named (o :: os) := by
  by_cases loads : o.IsLoading
  · cases o with
    | loading cls t c =>
      obtain ⟨code, rfl⟩ := proper
      obtain ⟨table, number, -⟩ := State.global_endLoading h code t c r.isFailure
      exact congrArg (restored · os) (Prod.ext table number)
    | guard | query | step | holding => cases loads
  · have other (cls : String) (t c : Script.Value) (eq : o = .loading cls t c) : False :=
      loads (eq ▸ trivial)
    have same : (o.leave s r).named = s.named :=
      Prod.ext (Open.leave_global other s r _) (Open.leave_global other s r _)
    rw [same, restored_cons_of_not_loading loads]

theorem Effect.proper {s s' : State} {os os' : List Open} {us : List Update}
    (e : Effect s os us s' os') (h : ∀ o ∈ os, o.Proper) : ∀ o ∈ os', o.Proper := by
  cases e with
  | quiet | script | write => exact h
  | enter scope enters => exact List.forall_mem_cons.mpr ⟨Scope.enter_proper enters, h⟩
  | leave => exact (List.forall_mem_cons.mp h).2

/-- At every moment all loads have the name of the class they fill. -/
theorem Host.Blueprint.Reaches.proper {b : Host.Blueprint} {m : Machine} (h : b.Reaches m) :
    ∀ o ∈ opens m.stack, o.Proper :=
  h.invariant (P := fun _ os => ∀ o ∈ os, o.Proper)
    (fun _ _ mem => (List.not_mem_nil mem).elim) fun kept e => e.proper kept

/-- A step above `os` does not change what the two globals are to become, unless they are assigned
outside the loads above `os`. -/
theorem Effect.restored_eq {s s' : State} {B B' os : List Open} {us : List Update}
    (e : Effect s (B ++ os) us s' (B' ++ os)) (h : s.env.memory.HasGlobals)
    (proper : ∀ o ∈ B, o.Proper)
    (kept : B' = B → (∀ o ∈ B, ¬ o.IsLoading) → s'.named = s.named) :
    restored s'.named B' = restored s.named B ∧ ∀ o ∈ B', o.Proper := by
  have stays (same : B' = B) :
      restored s'.named B' = restored s.named B ∧ ∀ o ∈ B', o.Proper := by
    subst same
    refine ⟨?_, proper⟩
    by_cases outside : ∀ o ∈ B', ¬ o.IsLoading
    · rw [kept rfl outside]
    · simp only [Classical.not_forall, Classical.not_not] at outside
      obtain ⟨o, mem, loads⟩ := outside
      exact restored_of_loading mem loads _ _
  generalize before : B ++ os = opened at e
  generalize after : B' ++ os = opened' at e
  cases e with
  | quiet | script | write => exact stays (List.append_cancel_right (after.trans before.symm))
  | enter scope enters =>
    rw [← before, ← List.cons_append] at after
    obtain rfl := List.append_cancel_right after
    exact ⟨Scope.enter_named enters B,
      List.forall_mem_cons.mpr ⟨Scope.enter_proper enters, proper⟩⟩
  | leave o r =>
    rw [← after, ← List.cons_append] at before
    obtain rfl := List.append_cancel_right before
    obtain ⟨top, below⟩ := List.forall_mem_cons.mp proper
    exact ⟨Open.leave_named top h r B', below⟩

namespace Machine

variable {K : List Frame} {m m' : Machine}

/-- Above `K` no script of a card is being loaded. -/
def Outside (K : List Frame) (m : Machine) : Prop :=
  ∃ L, m.stack = L ++ K ∧ ∀ o ∈ opens L, ¬ o.IsLoading

/-- One of the two globals gets another value in a step with which no scope begins or ends. -/
def Assigns (m m' : Machine) : Prop :=
  opens m'.stack = opens m.stack ∧ m'.state.named ≠ m.state.named

/-- A step above `K` that does not assign the two globals outside the loads above `K`. -/
def Unassigned (K : List Frame) (m m' : Machine) : Prop :=
  Move m m' ∧ K <:+ m'.stack ∧ (Outside K m → ¬ Assigns m m')

/-- The two globals are to become `v` when all loads above `K` have ended. -/
structure Naming (K : List Frame) (v : Script.Value × Script.Value) (m : Machine) : Prop where
  hasGlobals : m.state.env.memory.HasGlobals
  becomes : ∃ L, m.stack = L ++ K ∧ (∀ o ∈ opens L, o.Proper) ∧
    restored m.state.named (opens L) = v

theorem Naming.step {v : Script.Value × Script.Value} (h : Naming K v m)
    (step : Unassigned K m m') : Naming K v m' := by
  obtain ⟨move, ⟨L', stack'⟩, unassigned⟩ := step
  obtain ⟨L, stack, proper, becomes⟩ := h.becomes
  have effect := move.effect
  have opened : opens m.stack = opens L ++ opens K := by rw [stack, opens_append]
  have opened' : opens m'.stack = opens L' ++ opens K := by rw [← stack', opens_append]
  refine ⟨h.hasGlobals.edits effect.memory_edits, L', stack'.symm, ?_⟩
  rw [opened, opened'] at effect
  obtain ⟨same, proper'⟩ := effect.restored_eq h.hasGlobals proper fun same outside => by
    refine Classical.byContradiction fun assigned => unassigned ⟨L, stack, outside⟩ ⟨?_, assigned⟩
    rw [opened, opened', same]
  exact ⟨proper', same.trans becomes⟩

theorem Naming.steps {v : Script.Value × Script.Value} (h : Naming K v m)
    (steps : ReflTransGen (Unassigned K) m m') : Naming K v m' := by
  induction steps with
  | refl => exact h
  | tail _ step ih => exact ih.step step

/-- Outside nested loads the globals are what they were, unless they were assigned there. -/
theorem named_of_unassigned (begins : m.stack = K) (h : m.state.env.memory.HasGlobals)
    (steps : ReflTransGen (Unassigned K) m m') (outside : Outside K m') :
    m'.state.named = m.state.named := by
  have naming : Naming K m.state.named m :=
    ⟨h, [], begins, fun _ mem => (List.not_mem_nil mem).elim, rfl⟩
  obtain ⟨L, stack, -, becomes⟩ := (naming.steps steps).becomes
  obtain ⟨L', stack', free⟩ := outside
  obtain rfl := List.append_cancel_right (stack.symm.trans stack')
  rwa [restored_of_outside free] at becomes

end Machine

/-! ## Loads -/

namespace Code

variable {host : Host} {K : List Frame} {s s' : State} {us : List Update} {r : Reply}
  {code : UInt32}

/-- The moment at which the script of a code begins to be loaded, with `k` to go on after it. -/
def loadBegun (s : State) (code : UInt32) (source : Bytes) (k : Reply → Code) (K : List Frame) :
    Machine :=
  ⟨s.beginLoading code, .host (loadScript source (scriptName code)),
    .scope (.loading (scriptClass code) (s.global State.classGlobal) (s.global State.codeGlobal)) k
      :: K⟩

theorem loadBegun_state (source : Bytes) (k : Reply → Code) :
    (loadBegun s code source k K).state = s.beginLoading code :=
  rfl

/-- While the script of a card is loaded, a new table stands for its class. Outside nested loads the
two globals name that and the code, unless they have been assigned. -/
theorem named_while_loading (hs : s.env.memory.HasGlobals) {source : Bytes} {k : Reply → Code}
    {m : Machine} (steps : ReflTransGen (Unassigned (loadBegun s code source k K).stack)
      (loadBegun s code source k K) m)
    (outside : Outside (loadBegun s code source k K).stack m) :
    m.state.named = (.table s.newClass, .int (Int64.ofNat code.toNat)) := by
  have kept : (s.beginLoading code).env.memory.HasGlobals := by
    obtain ⟨memory, edits, eq⟩ := s.beginLoading_eq code
    rw [eq]
    exact hs.edits edits
  rw [← loadBegun_state (K := K) source k] at kept
  obtain ⟨-, table, number⟩ := State.global_beginLoading hs code
  rw [named_of_unassigned rfl kept steps outside, loadBegun_state, State.named, table, number]

/-- A class that is there, or a script that is not, leaves nothing to be done. -/
theorem returns_loadCard_of_idle (h : Returns K s (loadCard code) us r s')
    (idle : isClassLoaded s code = true ∨ s.readScript (scriptName code) = none) :
    us = [] ∧ s' = s ∧ r = if isClassLoaded s code then .answer .done
      else .failed (.scriptNotFound (scriptName code)) := by
  replace h := returns_read h
  by_cases there : isClassLoaded s code = true
  · rw [if_pos there] at h ⊢
    obtain ⟨rfl, rfl, rfl⟩ := returns_finish h
    exact ⟨rfl, rfl, rfl⟩
  · have missing := idle.resolve_left there
    simp only [if_neg there, missing] at h ⊢
    obtain ⟨rfl, rfl, rfl⟩ := returns_finish h
    exact ⟨rfl, rfl, rfl⟩

/-- A load that has something to do puts the two globals back, and keeps the class only if the
script has not failed. -/
theorem returns_loadCard_of_source {source : Bytes} (hs : s.env.memory.HasGlobals)
    (h : Returns K s (loadCard code) us r s') (missing : isClassLoaded s code = false)
    (found : s.readScript (scriptName code) = some source) :
    s'.named = s.named ∧ (r.isFailure = true → isClassLoaded s' code = false) := by
  replace h := returns_read h
  simp only [missing, found, Bool.false_eq_true, if_false, within] at h
  obtain ⟨f, refused, -⟩ | ⟨o, s₁, us₁, r₁, s₂, us₂, enters, body, after, rfl⟩ := returns_scope h
  · cases refused
  · obtain ⟨rfl, m, edits, rfl⟩ := Scope.enter_loading enters
    obtain ⟨rfl, rfl, rfl⟩ := returns_finish after
    have kept : s₂.env.memory.HasGlobals :=
      body.invariant (P := fun s _ => s.env.memory.HasGlobals)
        (fun kept e _ _ => kept.edits e.memory_edits) (hs.edits edits)
    obtain ⟨table, number, away⟩ := State.global_endLoading kept code
      (s.global State.classGlobal) (s.global State.codeGlobal) r.isFailure
    rw [Open.leave]
    refine ⟨?_, fun failed => ?_⟩
    · rw [State.named, State.named, table, number]
    · rw [isClassLoaded, away failed]

theorem steps_read {k : State → Code} {L : List Frame} (hL : K <:+ L) :
    Steps host K ⟨s, .host (.read k), L⟩ ⟨s, .host (k s), L⟩ :=
  .step rfl hL (.done _)

/-- A scope that begins leads into its body. -/
theorem steps_enter {scope : Scope} {body : Code} {refused : Failure → Code} {k : Reply → Code}
    {o : Open} {s₁ : State} {L : List Frame} (enters : scope.enter s = .ok (o, s₁)) (hL : K <:+ L) :
    Steps host K ⟨s, .host (.scope scope body refused k), L⟩ ⟨s₁, .host body, .scope o k :: L⟩ := by
  refine .step ?_ (hL.trans (List.suffix_cons _ _)) (.done _)
  simp [Machine.step, stepHost, enters]

/-- A load that has something to do begins. -/
theorem steps_loadBegun {source : Bytes} (missing : isClassLoaded s code = false)
    (found : s.readScript (scriptName code) = some source) :
    Steps host K ⟨s, .host (loadCard code), K⟩ (loadBegun s code source .finish K) := by
  have enters : (Scope.loading code).enter s =
      .ok (.loading (scriptClass code) (s.global State.classGlobal) (s.global State.codeGlobal),
        s.beginLoading code) := rfl
  rw [loadCard]
  refine (steps_read List.suffix_rfl).trans ?_
  simp only [missing, found, Bool.false_eq_true, if_false, within]
  exact steps_enter enters List.suffix_rfl

/-- A chunk that is run is called as a closure of its own. -/
theorem steps_runChunk {chunk : Bytes} {body : List Script.Stat} {k : List Script.Value → Code}
    {failed : String → Code} {L : List Frame} (hL : K <:+ L) :
    ∃ s₁ id base F, Steps host K ⟨s, .host (runChunk chunk body k failed), L⟩
        ⟨s₁, .script (.call (.closure id) [] .outside) [] base, F :: L⟩ ∧
      s₁.env.memory.closures[id]? = some ⟨.mk 0 true body, [], chunk⟩ :=
  ⟨(Update.addChunk chunk body).apply s, s.env.memory.closures.size, baseOf L, _,
    .step rfl hL (.step rfl hL (.step rfl (hL.trans (List.suffix_cons _ _)) (.done _))),
    Array.getElem?_push_size⟩

/-- A load that has begun runs the script, if that can be compiled and one more invocation is
allowed. -/
theorem steps_chunk {source chunk : Bytes} {body : List Script.Stat} {b : Bridge}
    {k : Reply → Code} (compiles : compile (scriptName code) source = .ok (chunk, body))
    (hb : s.env.bridge = some b) (room : b.depth.current < b.depth.max) :
    ∃ s₁ id base F G, Steps host K (loadBegun s code source k K)
        ⟨s₁, .script (.call (.closure id) [] .outside) [] base,
          F :: G :: (loadBegun s code source k K).stack⟩ ∧
      s₁.env.memory.closures[id]? = some ⟨.mk 0 true body, [], chunk⟩ := by
  have hb' : (s.beginLoading code).env.bridge = some b := by
    obtain ⟨m, -, eq⟩ := s.beginLoading_eq code
    rw [eq, State.setMemory_env, hb]
  obtain ⟨depth, enters⟩ : ∃ depth, b.depth.enter? = some depth :=
    ⟨_, (CallDepth.enter?_eq_some_iff _ _).mpr ⟨room, rfl⟩⟩
  have guarded : Scope.guard.enter (s.beginLoading code) =
      .ok (.guard, (s.beginLoading code).updateBridge fun b => { b with depth }) := by
    simp [Scope.enter, State.enterGuard, hb', enters, Except.map]
  have below : K <:+ (loadBegun s code source k K).stack := List.suffix_cons _ _
  obtain ⟨s₁, id, base, F, runs, closure⟩ := steps_runChunk
    (below.trans (List.suffix_cons (.scope .guard .finish) _))
  refine ⟨s₁, id, base, F, .scope .guard .finish, .trans ?_ runs, closure⟩
  rw [loadBegun, loadScript, compiles]
  exact steps_enter guarded below

/-- A script that has another one loaded, goes on when that has failed, and fails itself. -/
def outerScript : String :=
  "self_table.kept = true pcall(ask) c5 = 3 self_code = self_table error('outer')"

/-- A script that assigns the globals of its load and fails. -/
def innerScript : String :=
  "self_table = 1 self_code = 2 error('inner')"

/-- An environment with these scripts for the codes `5` and `7`. The two globals have values. -/
def withNestedScripts : State :=
  let blueprint := { Blueprint.plain ⟨1⟩ with
    reader := .store [("c5.lua", bytes outerScript), ("c7.lua", bytes innerScript)] }
  let env := blueprint.environment 0
  let memory := setGlobal env.memory "ask" (.native (.host 0))
  ⟨{ env with memory := setGlobal memory State.classGlobal (.int 4) }, .empty⟩

end Code

end CardBridge
