import CardBridge.Proofs.ClassTables
import CardBridge.Proofs.PublicCode
import CardBridge.Proofs.ScopedLoads
import Mathlib.Data.Finset.Card
import Mathlib.Data.Set.List

/-!
# Loads within loads

The script of a card may have other scripts loaded while it is loaded itself, in any pattern and by
any of the operations that load one. What bounds this is that the class of a script is there before
the script is run, and that a script whose class is there is not loaded : so the loads that are open
are of scripts with different classes, and no script is run again, as long as none fails and only
loads take classes away.

A load is at one of few places (`LoadPhase`), of which those after the call of the chunk come to no
failure. That and the classes make up the invariant `Loading`, which a move keeps (`Loading.move`)
and a whole history has (`History.loading`).
-/

namespace CardBridge

open Machine

/-- The classes whose scripts are being loaded, innermost first. -/
def loadChain : List Open → List String
  | [] => []
  | .loading cls _ _ :: os => cls :: loadChain os
  | _ :: os => loadChain os

theorem loadChain_cons_of_not_loading {o : Open} (h : ¬ o.IsLoading) (os : List Open) :
    loadChain (o :: os) = loadChain os := by
  cases o with
  | loading => exact absurd trivial h
  | guard | query | step | holding => rfl

theorem mem_loadChain_iff {cls : String} {os : List Open} :
    cls ∈ loadChain os ↔ ∃ t c, .loading cls t c ∈ os := by
  induction os with
  | nil => simp [loadChain]
  | cons o os ih =>
    cases o with
    | loading cls' t c =>
      simp only [loadChain, List.mem_cons, ih, Open.loading.injEq]
      constructor
      · rintro (rfl | ⟨t', c', mem⟩)
        · exact ⟨t, c, .inl ⟨rfl, rfl, rfl⟩⟩
        · exact ⟨t', c', .inr mem⟩
      · rintro ⟨t', c', ⟨rfl, -⟩ | mem⟩
        · exact .inl rfl
        · exact .inr ⟨t', c', mem⟩
    | guard | query | step | holding => simp [loadChain, ih]

theorem Code.isClassLoaded_congr {s s' : State} {code : UInt32}
    (same : s'.global (scriptClass code) = s.global (scriptClass code)) :
    isClassLoaded s' code = isClassLoaded s code := by
  rw [isClassLoaded, isClassLoaded, same]

namespace Machine

/-! ## Regular code over a history -/

/-- All host code is regular, that at work with regard to what was read in the step before. -/
structure Regularly (past : List Machine) (m : Machine) : Prop where
  active {c : Code} : m.activity = .host c → ∃ seen, c.RegularAfter seen ∧
    ∀ st c₀, seen = some (st, c₀) → st = m.state ∧ ⟨st, .host c₀, m.stack⟩ ∈ past
  waiting : ∀ F ∈ m.stack, F.Waits Code.Regular

theorem regularly_host {past : List Machine} {s : State} {c : Code} {K : List Frame} (h : c.Regular)
    (hK : ∀ F ∈ K, F.Waits Code.Regular) : Regularly past ⟨s, .host c, K⟩ :=
  ⟨fun | rfl => ⟨none, h, nofun⟩, hK⟩

theorem Regularly.step {host : Host} {m m' : Machine} {past : List Machine} (h : m.Regularly past)
    (lent : ∀ n args, (host n args).Regular) (step : m.step host = .next m') :
    m'.Regularly (m :: past) := by
  have move := move_of_step step
  cases move with
  | leave =>
    obtain ⟨top, below⟩ := List.forall_mem_cons.mp h.waiting
    exact regularly_host (top _) below
  | back => exact ⟨nofun, (List.forall_mem_cons.mp h.waiting).2⟩
  | read =>
    obtain ⟨seen, regular, -⟩ := h.active rfl
    refine ⟨?_, h.waiting⟩
    rintro _ ⟨⟩
    refine ⟨_, regular _, ?_⟩
    rintro _ _ ⟨⟩
    exact ⟨rfl, List.mem_cons_self⟩
  | write =>
    obtain ⟨seen, regular, -⟩ := h.active rfl
    exact regularly_host regular h.waiting
  | run =>
    obtain ⟨seen, regular, -⟩ := h.active rfl
    exact ⟨nofun, List.forall_mem_cons.mpr ⟨regular, h.waiting⟩⟩
  | trace =>
    obtain ⟨seen, regular, -⟩ := h.active rfl
    exact regularly_host (regular _) h.waiting
  | enter =>
    obtain ⟨seen, ⟨-, -, body, -, after⟩, -⟩ := h.active rfl
    exact regularly_host body (List.forall_mem_cons.mpr ⟨after, h.waiting⟩)
  | refuse =>
    obtain ⟨seen, ⟨-, -, -, refused, -⟩, -⟩ := h.active rfl
    exact regularly_host (refused _) h.waiting
  | script => exact ⟨nofun, h.waiting⟩
  | call calls c =>
    simp only [Machine.step, stepScript, calls] at step
    cases step
    exact regularly_host (lent _ _) (List.forall_mem_cons.mpr ⟨trivial, h.waiting⟩)
  | settle =>
    obtain ⟨top, below⟩ := List.forall_mem_cons.mp h.waiting
    exact regularly_host (top _) below

end Machine

theorem Host.Blueprint.History.regularly {b : Host.Blueprint} {m : Machine} {past : List Machine}
    (life : b.History Code.Regular (m :: past)) : m.Regularly past := by
  generalize eq : m :: past = ms at life
  induction life generalizing m past with
  | new account shared h =>
    cases eq
    exact regularly_host h fun _ mem => (List.not_mem_nil mem).elim
  | step life lent h ih =>
    cases eq
    exact (ih rfl).step lent h
  | begins life h shared hc ih =>
    cases eq
    exact regularly_host hc fun _ mem => (List.not_mem_nil mem).elim

namespace Machine

/-! ## Chunks -/

/-- The load of the script of a code is asked for. -/
def Requests (code : UInt32) (m : Machine) : Prop :=
  ∃ next, m.activity = .host ((Code.loadCard code).andThen next)

/-- The chunk of a card's script is about to be called : its load has come as far as that. -/
def Starts (code : UInt32) (m : Machine) : Prop :=
  ∃ id k k₁ k₂ t c K, m.activity = .host (.run (.call (.closure id) []) k) ∧
    m.stack = .scope .guard k₁ :: .scope (.loading (scriptClass code) t c) k₂ :: K

/-- The chunk of a card's script raises an error that it does not catch. -/
def ChunkFails (m : Machine) : Prop :=
  ∃ control stack base v memory k k₁ k₂ cls t c K, m.activity = .script control stack base ∧
    Script.State.step ⟨m.state.env.memory, control, stack, base⟩ = .settled (.raised v) memory ∧
    m.stack = .script k :: .scope .guard k₁ :: .scope (.loading cls t c) k₂ :: K

/-- The classes of scripts that are there stay there, unless a load begins or ends. -/
def LeavesClasses (m m' : Machine) : Prop :=
  loadChain (opens m'.stack) = loadChain (opens m.stack) →
    ∀ code, Code.isClassLoaded m.state code = true → Code.isClassLoaded m'.state code = true

end Machine

/-- What is on a stack with one more frame on it is there without it, if it is not that frame. -/
theorem suffix_of_push {F G : Frame} {K L : List Frame} (on : F :: K <:+ G :: L) (other : F ≠ G) :
    F :: K <:+ L :=
  (List.suffix_cons_iff.mp on).resolve_left fun eq => other (List.cons.inj eq).1

/-! ## Where a load is -/

/-- The host is about to have a script run. -/
def Activity.Runs : Activity → Prop
  | .host (.run _ _) => True
  | _ => False

/-- Code that makes changes only and then ends with `r`. -/
inductive Code.Ends (r : Reply) : Code → Prop
  | finish : Ends r (.finish r)
  | write {u : Update} {c : Code} (h : Ends r c) : Ends r (.write u c)

/-- Where the load of a script is : what is at work, and what is on the stack above the load. Where
its chunk may still be called, and where it comes to a failure, that has not been `started`. -/
inductive LoadPhase (started : Prop) : Activity → List Frame → Prop
  | begun {source : Bytes} {name : String} (h : ¬ started) :
    LoadPhase started (.host (Code.loadScript source name)) []
  | outside {c : Code} {r : Reply} (ends : c.Ends r) (h : r.isFailure = true → ¬ started) :
    LoadPhase started (.host c) []
  | inside {c : Code} {r : Reply} (ends : c.Ends r) (h : r.isFailure = true → ¬ started) :
    LoadPhase started (.host c) [.scope .guard .finish]
  | reads {u : Update} {id : State → Nat} {name : String} (h : ¬ started) :
    LoadPhase started
      (.host (.read fun s => .write u
        (Code.attempt (.call (.closure (id s)) []) (fun _ => Code.done) (Code.reportScript name))))
      [.scope .guard .finish]
  | adds {u : Update} {id : Nat} {name : String} (h : ¬ started) :
    LoadPhase started
      (.host (.write u (Code.attempt (.call (.closure id) []) (fun _ => Code.done)
        (Code.reportScript name))))
      [.scope .guard .finish]
  | calls {id : Nat} {name : String} (h : ¬ started) :
    LoadPhase started
      (.host (Code.attempt (.call (.closure id) []) (fun _ => Code.done) (Code.reportScript name)))
      [.scope .guard .finish]
  | runs {a : Activity} {A : List Frame} {k : Script.Completion → Code}
    (returns : ∀ c, (∀ v, c ≠ .raised v) → k c = Code.done) :
    LoadPhase started a (A ++ [.script k, .scope .guard .finish])

namespace LoadPhase

variable {started starts : Prop} {m m' : Machine} {A K : List Frame} {o : Open} {k : Reply → Code}

/-- The code that a load runs in its level of invocation. -/
theorem body (source : Bytes) (name : String) (h : ¬ started) :
    LoadPhase started (.host (match Code.compile name source with
      | .error text => Code.reportScript name text
      | .ok (chunk, body) =>
        Code.runChunk chunk body (fun _ => Code.done) (Code.reportScript name)))
      [.scope .guard .finish] := by
  split
  · exact .inside (.write .finish) fun _ => h
  · exact .reads h

/-- While a script of the load runs, nothing but the end of its chunk leads away. -/
theorem move_of_runs {S : List Frame} {k : Script.Completion → Code}
    (returns : ∀ c, (∀ v, c ≠ .raised v) → k c = Code.done) (move : Move m m')
    (stack : m.stack = A ++ .script k :: .scope .guard .finish :: S)
    (settled : ∀ control stack base v memory, A = [] → m.activity = .script control stack base →
      Script.State.step ⟨m.state.env.memory, control, stack, base⟩ ≠ .settled (.raised v) memory) :
    ∃ A', m'.stack = A' ++ S ∧ LoadPhase started m'.activity A' := by
  have runs (A' : List Frame) (eq : m'.stack = A' ++ .script k :: .scope .guard .finish :: S) :
      ∃ A', m'.stack = A' ++ S ∧ LoadPhase started m'.activity A' :=
    ⟨A' ++ [.script k, .scope .guard .finish], by simp [eq], .runs returns⟩
  rcases move.stack with same | ⟨G, push⟩ | ⟨G, pop⟩
  · exact runs A (same.trans stack)
  · exact runs (G :: A) (by rw [push, stack, List.cons_append])
  · cases A with
    | nil =>
      obtain ⟨control, script, base, c, memory, active, step, rfl⟩ :=
        move.settles stack (List.cons.inj (pop.symm.trans stack)).2
      rw [returns c fun v eq => settled control script base v memory rfl active (eq ▸ step)]
      exact ⟨[.scope .guard .finish], rfl, .inside .finish nofun⟩
    | cons F A => exact runs A (List.cons.inj (pop.symm.trans stack)).2

/-- A move goes from place to place, or ends the load. -/
theorem move (h : LoadPhase started m.activity A) {cls : String} {t c : Script.Value}
    (stack : m.stack = A ++ .scope (.loading cls t c) k :: K) (move : Move m m')
    (kept : .scope (.loading cls t c) k :: K <:+ m'.stack) (sound : ¬ m.ChunkFails)
    (starts_runs : starts → m.activity.Runs) :
    ∃ A', m'.stack = A' ++ .scope (.loading cls t c) k :: K ∧
      LoadPhase (started ∨ starts) m'.activity A' := by
  obtain ⟨s, a, L⟩ := m
  subst stack
  have still (h : ¬ started) (idle : ¬ a.Runs) : ¬ (started ∨ starts) :=
    not_or.mpr ⟨h, fun new => idle (starts_runs new)⟩
  cases h with
  | begun h =>
    have not_started := still h id
    cases move with
    | enter enters =>
      obtain ⟨rfl, -⟩ := Scope.enter_guard enters
      exact ⟨[.scope .guard .finish], rfl, body _ _ not_started⟩
    | refuse => exact ⟨[], rfl, .outside (.write .finish) fun _ => not_started⟩
  | outside ends h =>
    cases ends with
    | finish =>
      cases move with
      | leave => exact absurd kept Code.not_cons_suffix
    | write ends =>
      cases move with
      | write => exact ⟨[], rfl, .outside ends fun fails => still (h fails) id⟩
  | inside ends h =>
    cases ends with
    | finish =>
      cases move with
      | leave => exact ⟨[], rfl, .outside .finish fun fails => still (h fails) id⟩
    | write ends =>
      cases move with
      | write => exact ⟨[.scope .guard .finish], rfl, .inside ends fun fails => still (h fails) id⟩
  | reads h =>
    cases move with
    | read => exact ⟨[.scope .guard .finish], rfl, .adds (still h id)⟩
  | adds h =>
    cases move with
    | write => exact ⟨[.scope .guard .finish], rfl, .calls (still h id)⟩
  | calls h =>
    cases move with
    | run =>
      refine ⟨[.script _, .scope .guard .finish], rfl, @runs _ _ [] _ fun c returned => ?_⟩
      cases c with
      | returned | yielded => rfl
      | raised v => exact absurd rfl (returned v)
  | @runs a A k returns =>
    refine move_of_runs (A := A) returns move (by simp)
      fun control script base v memory empty active step => ?_
    subst empty
    exact sound ⟨control, script, base, v, memory, _, _, _, _, _, _, _, active, step, rfl⟩

/-- A load that is about to end with a failure has not called its chunk. -/
theorem not_started {r : Reply} (h : LoadPhase started (.host (.finish r)) [])
    (fails : r.isFailure = true) : ¬ started := by
  generalize active : Activity.host (.finish r) = a at h
  generalize above : ([] : List Frame) = A at h
  cases h with
  | begun h => exact h
  | outside ends h =>
    cases active
    cases ends
    exact h fails
  | inside | reads | adds | calls => cases above
  | runs => simp at above

/-- A load calls its chunk once only. -/
theorem not_started_of_calls {task : Task} {k : Script.Completion → Code}
    {k₁ : Reply → Code} (h : LoadPhase started (.host (.run task k)) [.scope .guard k₁]) :
    ¬ started := by
  generalize active : Activity.host (.run task k) = a at h
  generalize above : [Frame.scope .guard k₁] = A at h
  cases h with
  | calls h => exact h
  | inside ends h =>
    cases active
    cases ends
  | reads | adds => cases active
  | begun | outside => cases above
  | runs =>
    have longer := congrArg List.length above
    simp at longer

end LoadPhase

/-! ## All loads at a moment -/

/-- The chunk of a card's script has been called. -/
def Started (past : List Machine) (code : UInt32) : Prop :=
  ∃ m ∈ past, m.Starts code

theorem started_cons {m : Machine} {past : List Machine} {code : UInt32} :
    Started (m :: past) code ↔ Started past code ∨ m.Starts code := by
  unfold Started
  rw [List.exists_mem_cons_iff, or_comm]

namespace Machine

variable {m m' : Machine} {past : List Machine} {code : UInt32}

theorem Starts.runs (h : m.Starts code) : m.activity.Runs := by
  obtain ⟨id, k, k₁, k₂, t, c, K, active, -⟩ := h
  rw [active]
  trivial

theorem Starts.mem_loadChain (h : m.Starts code) :
    scriptClass code ∈ loadChain (opens m.stack) := by
  obtain ⟨id, k, k₁, k₂, t, c, K, -, stack⟩ := h
  rw [stack]
  exact List.mem_cons_self

/-- The loads that are open have been asked for, are of different scripts whose classes are there,
and each of them is at its place. The classes of all scripts that were run are there, too. -/
structure Loading (past : List Machine) (m : Machine) : Prop where
  loaded {code : UInt32} : scriptClass code ∈ loadChain (opens m.stack) →
    Code.isClassLoaded m.state code = true
  nodup : (loadChain (opens m.stack)).Nodup
  started {code : UInt32} : Started past code → Code.isClassLoaded m.state code = true
  requested {code : UInt32} : scriptClass code ∈ loadChain (opens m.stack) →
    ∃ m₀ ∈ past, m₀.Requests code
  phase {code : UInt32} {t c : Script.Value} {k : Reply → Code} {K : List Frame} :
    .scope (.loading (scriptClass code) t c) k :: K <:+ m.stack →
    ∃ A, m.stack = A ++ .scope (.loading (scriptClass code) t c) k :: K ∧
      LoadPhase (Started past code) m.activity A

namespace Loading

theorem phase_move (h : m.Loading past) (move : Move m m') (sound : ¬ m.ChunkFails)
    {t c : Script.Value} {k : Reply → Code} {K : List Frame}
    (on : .scope (.loading (scriptClass code) t c) k :: K <:+ m.stack)
    (kept : .scope (.loading (scriptClass code) t c) k :: K <:+ m'.stack) :
    ∃ A, m'.stack = A ++ .scope (.loading (scriptClass code) t c) k :: K ∧
      LoadPhase (Started (m :: past) code) m'.activity A := by
  obtain ⟨A, stack, phase⟩ := h.phase on
  rw [started_cons]
  exact phase.move stack move kept sound Starts.runs

/-- Nothing but a load begins or ends a load. -/
theorem move_of_same (h : m.Loading past) (move : Move m m') (sound : ¬ m.ChunkFails)
    (leaves : m.LeavesClasses m')
    (same : loadChain (opens m'.stack) = loadChain (opens m.stack))
    (old : ∀ code t c k K, .scope (.loading (scriptClass code) t c) k :: K <:+ m'.stack →
      .scope (.loading (scriptClass code) t c) k :: K <:+ m.stack) :
    m'.Loading (m :: past) where
  loaded mem := leaves same _ (h.loaded (same ▸ mem))
  nodup := same ▸ h.nodup
  started started := (started_cons.mp started).elim (fun old => leaves same _ (h.started old))
    fun new => leaves same _ (h.loaded new.mem_loadChain)
  requested mem := by
    obtain ⟨m₀, mem₀, requests⟩ := h.requested (same ▸ mem)
    exact ⟨m₀, List.mem_cons_of_mem _ mem₀, requests⟩
  phase on := h.phase_move move sound (old _ _ _ _ _ on) on

/-- A load begins, and its class is there. -/
theorem move_begins (h : m.Loading past) (move : Move m m') (sound : ¬ m.ChunkFails)
    (globals : m.state.env.memory.HasGlobals) {code : UInt32} {source : Bytes} {k : Reply → Code}
    (idle : ¬ m.activity.Runs) (missing : Code.isClassLoaded m.state code = false)
    (asked : ∃ m₀ ∈ past, m₀.Requests code)
    (begins : m' = Code.loadBegun m.state code source k m.stack) : m'.Loading (m :: past) := by
  have quiet (code' : UInt32) : Started (m :: past) code' ↔ Started past code' :=
    started_cons.trans (or_iff_left fun starts => idle starts.runs)
  have fresh : scriptClass code ∉ loadChain (opens m.stack) := fun mem =>
    Bool.false_ne_true (missing.symm.trans (h.loaded mem))
  have never : ¬ Started past code := fun started =>
    Bool.false_ne_true (missing.symm.trans (h.started started))
  have others {code' : UInt32} (loaded : Code.isClassLoaded m.state code' = true) :
      Code.isClassLoaded (m.state.beginLoading code) code' = true := by
    have other : code' ≠ code := by
      rintro rfl
      exact Bool.false_ne_true (missing.symm.trans loaded)
    rw [Code.isClassLoaded_congr (State.global_beginLoading_of_ne globals other)]
    exact loaded
  subst begins
  refine ⟨fun mem => ?_, List.nodup_cons.mpr ⟨fresh, h.nodup⟩,
    fun started => others (h.started ((quiet _).mp started)), fun mem => ?_,
    fun {code'} _ _ _ _ on => ?_⟩
  · obtain new | old := List.mem_cons.mp mem
    · obtain rfl := scriptClass_injective new
      simp only [Code.loadBegun, Code.isClassLoaded, (State.global_beginLoading globals _).1]
    · exact others (h.loaded old)
  · obtain new | old := List.mem_cons.mp mem
    · obtain rfl := scriptClass_injective new
      obtain ⟨m₀, mem₀, requests⟩ := asked
      exact ⟨m₀, List.mem_cons_of_mem _ mem₀, requests⟩
    · obtain ⟨m₀, mem₀, requests⟩ := h.requested old
      exact ⟨m₀, List.mem_cons_of_mem _ mem₀, requests⟩
  · obtain new | old := List.suffix_cons_iff.mp on
    · simp only [List.cons.injEq, Frame.scope.injEq, Open.loading.injEq] at new
      obtain ⟨⟨⟨same, rfl, rfl⟩, rfl⟩, rfl⟩ := new
      obtain rfl := scriptClass_injective same
      exact ⟨[], rfl, .begun fun started => never ((quiet _).mp started)⟩
    · exact h.phase_move move sound old on

/-- A load ends, and its class is away only if its chunk was not called. -/
theorem move_ends (h : m.Loading past) (move : Move m m') (sound : ¬ m.ChunkFails)
    (globals : m.state.env.memory.HasGlobals) {code : UInt32} {r : Reply} {t c : Script.Value}
    {k : Reply → Code} {K : List Frame} (active : m.activity = .host (.finish r))
    (stack : m.stack = .scope (.loading (scriptClass code) t c) k :: K)
    (ends : m' = ⟨m.state.endLoading (scriptClass code) t c r.isFailure, .host (k r), K⟩) :
    m'.Loading (m :: past) := by
  have quiet (code' : UInt32) : Started (m :: past) code' ↔ Started past code' :=
    started_cons.trans (or_iff_left fun starts => by
      have runs := starts.runs
      rw [active] at runs
      exact runs)
  have chain : loadChain (opens m.stack) = scriptClass code :: loadChain (opens K) := by
    rw [stack]
    rfl
  obtain ⟨fresh, nodup⟩ := List.nodup_cons.mp (chain ▸ h.nodup)
  have never (fails : r.isFailure = true) : ¬ Started past code := by
    have on : .scope (.loading (scriptClass code) t c) k :: K <:+ m.stack := by
      rw [stack]
    obtain ⟨A, above, phase⟩ := h.phase on
    obtain rfl := List.append_left_eq_self.mp (above.symm.trans stack)
    exact LoadPhase.not_started (active ▸ phase) fails
  have others {code' : UInt32} (loaded : Code.isClassLoaded m.state code' = true)
      (other : r.isFailure = true → code' ≠ code) : Code.isClassLoaded m'.state code' = true := by
    subst ends
    rw [Code.isClassLoaded_congr (State.global_endLoading_of_kept globals fun fails =>
      scriptClass_injective.ne (other fails))]
    exact loaded
  have below {code' : UInt32} (mem : scriptClass code' ∈ loadChain (opens K)) :
      scriptClass code' ∈ loadChain (opens m.stack) := chain ▸ List.mem_cons_of_mem _ mem
  have stack' : m'.stack = K := ends ▸ rfl
  refine ⟨fun mem => ?_, stack' ▸ nodup, fun started => ?_, fun mem => ?_, fun on => ?_⟩
  · rw [stack'] at mem
    refine others (h.loaded (below mem)) fun _ => ?_
    rintro rfl
    exact fresh mem
  · rw [quiet] at started
    refine others (h.started started) fun fails => ?_
    rintro rfl
    exact never fails started
  · obtain ⟨m₀, mem₀, requests⟩ := h.requested (below (stack' ▸ mem))
    exact ⟨m₀, List.mem_cons_of_mem _ mem₀, requests⟩
  · refine h.phase_move move sound ?_ on
    rw [stack' ] at on
    rw [stack]
    exact on.trans (List.suffix_cons _ _)

/-- A move of regular code keeps all of it. -/
theorem move (h : m.Loading past) (move : Move m m') (regular : m.Regularly past)
    (globals : m.state.env.memory.HasGlobals) (proper : ∀ o ∈ opens m.stack, o.Proper)
    (sound : ¬ m.ChunkFails) (leaves : m.LeavesClasses m') : m'.Loading (m :: past) := by
  have same := h.move_of_same move sound leaves
  cases move with
  | @leave s o k r K =>
    by_cases loads : o.IsLoading
    · cases o with
      | loading cls t c =>
        obtain ⟨code, rfl⟩ := proper _ List.mem_cons_self
        exact h.move_ends .leave sound globals rfl rfl rfl
      | guard | query | step | holding => cases loads
    · refine same (loadChain_cons_of_not_loading loads _).symm fun _ _ _ _ _ on => ?_
      exact on.trans (List.suffix_cons _ _)
  | back => exact same rfl fun _ _ _ _ _ on => on.trans (List.suffix_cons _ _)
  | read | write | trace | refuse | script => exact same rfl fun _ _ _ _ _ on => on
  | run | call => exact same rfl fun _ _ _ _ _ on => suffix_of_push on nofun
  | settle => exact same rfl fun _ _ _ _ _ on => on.trans (List.suffix_cons _ _)
  | @enter s scope body refused k K o s' enters =>
    by_cases loads : ∃ code, scope = .loading code
    · obtain ⟨code, rfl⟩ := loads
      obtain ⟨seen, ⟨-, reads, -⟩, before⟩ := regular.active rfl
      obtain ⟨st, next, source, rfl, missing, rfl⟩ := reads code rfl
      obtain ⟨rfl, mem⟩ := before _ _ rfl
      cases enters
      exact h.move_begins (.enter rfl) sound globals id missing ⟨_, mem, next, rfl⟩ rfl
    · have other : ¬ o.IsLoading := fun isLoading => loads (Scope.enter_isLoading enters isLoading)
      refine same (loadChain_cons_of_not_loading other _) fun _ _ _ _ _ on => suffix_of_push on ?_
      rintro ⟨⟩
      exact other trivial

/-- The chunk that is about to be called was not called before. -/
theorem not_started (h : m.Loading past) (starts : m.Starts code) : ¬ Started past code := by
  obtain ⟨id, k, k₁, k₂, t, c, K, active, stack⟩ := starts
  have on : .scope (.loading (scriptClass code) t c) k₂ :: K <:+ m.stack := by
    rw [stack]
    exact List.suffix_cons _ _
  obtain ⟨A, above, phase⟩ := h.phase on
  obtain rfl : [.scope .guard k₁] = A := List.append_cancel_right (stack.symm.trans above)
  exact LoadPhase.not_started_of_calls (active ▸ phase)

/-- The open loads are of codes. -/
theorem codes (h : m.Loading past) (proper : ∀ o ∈ opens m.stack, o.Proper) :
    ∃ codes : List UInt32, loadChain (opens m.stack) = codes.map scriptClass ∧ codes.Nodup ∧
      ∀ code ∈ codes, ∃ m₀ ∈ past, m₀.Requests code := by
  have named : ∀ cls ∈ loadChain (opens m.stack), cls ∈ Set.range scriptClass := by
    intro cls mem
    obtain ⟨t, c, mem⟩ := mem_loadChain_iff.mp mem
    obtain ⟨code, rfl⟩ := proper _ mem
    exact ⟨code, rfl⟩
  obtain ⟨codes, eq⟩ : loadChain (opens m.stack) ∈ Set.range (List.map scriptClass) := by
    rw [Set.range_list_map]
    exact named
  refine ⟨codes, eq.symm, (eq ▸ h.nodup).of_map _, fun code mem => h.requested ?_⟩
  rw [← eq]
  exact List.mem_map_of_mem mem

end Loading

end Machine

/-! ## Histories -/

namespace Host

variable {b : Blueprint} {m : Machine} {past : List Machine}

/-- No chunk of a card's script has failed, and between the begin and the end of loads no class of a
script has gone away. -/
structure Undisturbed (ms : List Machine) : Prop where
  sound : ∀ m ∈ ms, ¬ m.ChunkFails
  leaves : ms.IsChain fun after before => before.LeavesClasses after

theorem Undisturbed.tail (h : Undisturbed (m :: past)) : Undisturbed past where
  sound m' mem := h.sound m' (List.mem_cons_of_mem _ mem)
  leaves := h.leaves.tail

theorem Blueprint.History.loading (life : b.History Code.Regular (m :: past))
    (calm : Undisturbed (m :: past)) : m.Loading past := by
  generalize eq : m :: past = ms at life
  induction life generalizing m past with
  | new account shared h =>
    cases eq
    exact ⟨nofun, List.nodup_nil, fun ⟨_, mem, _⟩ => (List.not_mem_nil mem).elim, nofun,
      fun on => (not_suffix_start on).elim⟩
  | @step host m m' past life lent h ih =>
    cases eq
    exact (ih calm.tail rfl).move (move_of_step h) life.regularly life.reaches.lived.hasGlobals
      life.reaches.proper (calm.sound _ (List.mem_cons_of_mem _ List.mem_cons_self))
      (List.isChain_cons_cons.mp calm.leaves).1
  | begins life h shared hc ih =>
    cases eq
    have leaves := (List.isChain_cons_cons.mp calm.leaves).1
    refine ⟨nofun, List.nodup_nil, fun started => ?_, nofun, fun on => (not_suffix_start on).elim⟩
    obtain before | now := started_cons.mp started
    · exact leaves rfl _ ((ih calm.tail rfl).started before)
    · exact now.runs.elim

/-- No chunk is called at two moments. -/
theorem Blueprint.History.starts_once {ms : List Machine} (life : b.History Code.Regular ms)
    (calm : Undisturbed ms) :
    ms.Pairwise fun after before => ∀ code, ¬ (before.Starts code ∧ after.Starts code) := by
  have latest {m : Machine} {past : List Machine} (loading : m.Loading past) :
      ∀ before ∈ past, ∀ code, ¬ (before.Starts code ∧ m.Starts code) :=
    fun before mem _ ⟨first, again⟩ => loading.not_started again ⟨before, mem, first⟩
  induction life with
  | new account shared h => exact List.pairwise_singleton _ _
  | step life lent h ih =>
    exact .cons (latest ((life.step lent h).loading calm)) (ih calm.tail)
  | begins life h shared hc ih =>
    exact .cons (latest ((life.begins h shared hc).loading calm)) (ih calm.tail)

/-- Only what was asked for is called. -/
theorem Blueprint.History.requested {ms : List Machine} (life : b.History Code.Regular ms)
    (calm : Undisturbed ms) : ∀ m ∈ ms, ∀ code, m.Starts code → ∃ m₀ ∈ ms, m₀.Requests code := by
  have latest {m : Machine} {past : List Machine} (loading : m.Loading past)
      (earlier : ∀ m ∈ past, ∀ code, m.Starts code → ∃ m₀ ∈ past, m₀.Requests code) :
      ∀ m' ∈ m :: past, ∀ code, m'.Starts code → ∃ m₀ ∈ m :: past, m₀.Requests code := by
    intro m' mem code starts
    have asked : ∃ m₀ ∈ past, m₀.Requests code := by
      obtain rfl | mem := List.mem_cons.mp mem
      · exact loading.requested starts.mem_loadChain
      · exact earlier m' mem code starts
    obtain ⟨m₀, mem₀, requests⟩ := asked
    exact ⟨m₀, List.mem_cons_of_mem _ mem₀, requests⟩
  induction life with
  | new account shared h =>
    exact latest ((Blueprint.History.new account shared h).loading calm) fun _ mem =>
      (List.not_mem_nil mem).elim
  | step life lent h ih => exact latest ((life.step lent h).loading calm) (ih calm.tail)
  | begins life h shared hc ih =>
    exact latest ((life.begins h shared hc).loading calm) (ih calm.tail)

/-- Different codes that are asked for are no more than all that are. -/
theorem length_le_card {codes : List UInt32} (nodup : codes.Nodup) {requested : Finset UInt32}
    (asked : ∀ code ∈ codes, code ∈ requested) : codes.length ≤ requested.card := by
  rw [← List.toFinset_card_of_nodup nodup]
  exact Finset.card_le_card fun code mem => asked code (List.mem_toFinset.mp mem)

/-- Moments at which chunks are called are no more than the codes of these, if each is called
once. -/
theorem exists_codes_of_starts {ms : List Machine}
    (once : ms.Pairwise fun after before => ∀ code, ¬ (before.Starts code ∧ after.Starts code))
    (starts : ∀ m ∈ ms, ∃ code, m.Starts code) : ∃ codes : List UInt32, codes.length = ms.length ∧
      codes.Nodup ∧ ∀ code ∈ codes, ∃ m ∈ ms, m.Starts code := by
  induction ms with
  | nil => exact ⟨[], rfl, List.nodup_nil, nofun⟩
  | cons m ms ih =>
    obtain ⟨here, later⟩ := List.pairwise_cons.mp once
    obtain ⟨⟨code, called⟩, others⟩ := List.forall_mem_cons.mp starts
    obtain ⟨codes, length, nodup, calls⟩ := ih later others
    refine ⟨code :: codes, congrArg (· + 1) length, List.nodup_cons.mpr ⟨fun mem => ?_, nodup⟩,
      List.forall_mem_cons.mpr ⟨⟨m, List.mem_cons_self, called⟩, fun code mem => ?_⟩⟩
    · obtain ⟨m', mem', again⟩ := calls code mem
      exact here m' mem' code ⟨again, called⟩
    · obtain ⟨m', mem', called⟩ := calls code mem
      exact ⟨m', List.mem_cons_of_mem _ mem', called⟩

/-- A host with a function that has the script of the code `5` loaded, and one for the code `7`. -/
def loadsFiveOrSeven : CardBridge.Host :=
  Code.native fun n _ => Code.loadCard (if n = 0 then 5 else 7)

/-- The globals of a new environment with these two functions. -/
def withLoaders : Script.Memory :=
  setGlobal (setGlobal libraryMemory "five" (.native (.host 0))) "seven" (.native (.host 1))

/-- The first script loads the second one, and that loads the first one and itself. -/
def circularBlueprint : Blueprint :=
  { Blueprint.plain ⟨1⟩ with
    reader := .store [("c5.lua", bytes "seven()"), ("c7.lua", bytes "five() seven()")] }

/-- A new environment at rest. -/
def circularRest : Machine :=
  .start ⟨circularBlueprint.environment 0, .empty⟩ .done

/-- The begin of the load of the first script. -/
def circularLoad : Machine :=
  .start ⟨{ circularRest.state.env with memory := withLoaders }, .empty⟩ (Code.loadCard 5)

/-- What comes up until the second script asks for itself, the latest moment in front. -/
def circularMoments : List Machine :=
  moments loadsFiveOrSeven 34 circularLoad [circularRest]

/-- Whether a script is about to end with an error. -/
def raises (m : Machine) : Bool :=
  match m.activity with
  | .script control stack base =>
    match Script.State.step ⟨m.state.env.memory, control, stack, base⟩ with
    | .settled (.raised _) _ => true
    | _ => false
  | .host _ => false

theorem not_chunkFails_of_not_raises {m : Machine} (quiet : (!raises m) = true) :
    ¬ m.ChunkFails := by
  rintro ⟨control, stack, base, v, memory, k, k₁, k₂, cls, t, c, K, active, step, -⟩
  simp [raises, active, step] at quiet

/-- Whether a step begins or ends a load or leaves the globals alone. -/
def leavesGlobals (m m' : Machine) : Bool :=
  loadChain (opens m'.stack) != loadChain (opens m.stack) ||
    (m'.state.env.memory.table Script.globalTable).fields ==
      (m.state.env.memory.table Script.globalTable).fields

theorem leavesClasses_of_leavesGlobals {m m' : Machine} (quiet : leavesGlobals m m' = true) :
    m.LeavesClasses m' := by
  intro same code loaded
  have fields : (m'.state.env.memory.table Script.globalTable).fields =
      (m.state.env.memory.table Script.globalTable).fields := by
    simpa [leavesGlobals, same] using quiet
  have global : m'.state.global (scriptClass code) = m.state.global (scriptClass code) := by
    simp only [State.global, Script.Memory.rawGet, Script.Table.get_text, fields]
  exact (Code.isClassLoaded_congr global).trans loaded

/-- Whether the chunk of a card's script is about to be called. -/
def callsChunk (code : UInt32) (m : Machine) : Bool :=
  match m.activity, m.stack with
  | .host (.run (.call (.closure _) []) _), .scope .guard _ :: .scope (.loading cls _ _) _ :: _ =>
    cls == scriptClass code
  | _, _ => false

theorem starts_of_callsChunk {code : UInt32} {m : Machine} (calls : callsChunk code m = true) :
    m.Starts code := by
  obtain ⟨s, activity, stack⟩ := m
  unfold callsChunk at calls
  dsimp only at calls
  split at calls
  case h_1 id k k₁ cls t c k₂ K =>
    obtain rfl := beq_iff_eq.mp calls
    exact ⟨id, k, k₁, k₂, t, c, K, rfl, rfl⟩
  case h_2 => cases calls

theorem circularMoments_life : circularBlueprint.History Code.Regular circularMoments := by
  have rest : circularBlueprint.History Code.Regular [circularRest] := .new 0 .empty trivial
  have edits : circularRest.state.env.memory.Edits withLoaders :=
    setGlobal_edits (setGlobal_edits (.refl _) _ _) _ _
  have begins : circularBlueprint.History Code.Regular [circularLoad, circularRest] :=
    .begins rest edits .empty (Code.regular_loadCard 5)
  exact .moments
    (fun n args => Code.regular_native (fun _ _ => Code.regular_loadCard _) n args) 34 begins

theorem circularMoments_undisturbed : Undisturbed circularMoments where
  sound m mem := by
    have quiet : circularMoments.all (!raises ·) = true := by decide +kernel
    exact not_chunkFails_of_not_raises (List.all_eq_true.mp quiet m mem)
  leaves := by
    have quiet : stepsAs leavesGlobals loadsFiveOrSeven 34 circularLoad = true := by decide +kernel
    refine isChain_moments (fun _ _ => leavesClasses_of_leavesGlobals) 34 ?_ quiet
    refine .cons_cons (fun _ code loaded => ?_) (.singleton _)
    have none : circularRest.state.global (scriptClass code) = .nil := global_libraryMemory code
    rw [Code.isClassLoaded, none] at loaded
    cases loaded

end Host

end CardBridge
