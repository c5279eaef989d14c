import CardBridge.Proofs.Courses
import CardBridge.Proofs.ForeignCallables
import CardBridge.Proofs.Interleaving

/-!
# Host code that asks scripts for one thing

What the host wants of scripts are tasks, and between its begin and its end host code may have
several of them (`Machine.ownTasks`). The code of a call has one, to call the function, and others
only if that fails with a value for which a metatable has the words (`Task.IsWording`).
`Code.AsksOnce` says so of a piece of code that begins in some state, with the state in which the
task is begun, and its consequences are that under every host the code comes to that task, and that
in the end nothing else was asked for (`Code.AsksOnce.calledOnce`).

A call and a first step ask for one thing if they pass their checks
(`Code.asksOnce_invokeStaged`, `Code.asksOnce_runStep`).
-/

namespace CardBridge

open Script (Value Memory Completion)

/-! ## Tasks -/

namespace Task

/-- A metatable is asked for the words for a value. -/
def IsWording (task : Task) : Prop :=
  ∃ (m : Memory) (v : Value), task = .call (m.metafield v .tostring) [v]

/-- A task that begins with the call of a function : the call itself, or the begin of a coroutine
that is to run the function. -/
def Calls (m : Memory) (f : Value) (args : List Value) : Task → Prop
  | call g vs => g = f ∧ vs = args
  | resume n vs => m.threads[n]? = some (.fresh f) ∧ vs = args
  | index .. => False

end Task

namespace Machine

/-- What host code has scripts do next. -/
def tasks (m : Machine) : List Task :=
  match m.activity with
  | .host (.run task _) => [task]
  | _ => []

/-- What the host code at work above `K` itself has had scripts do at some moments. -/
def ownTasks (K : List Frame) (ms : List Machine) : List Task :=
  ofOwn tasks K ms

variable {host : Host} {K : List Frame} {m : Machine} {s s' : State} {ms : List Machine}

theorem ownTasks_append (ms ms' : List Machine) :
    ownTasks K (ms ++ ms') = ownTasks K ms ++ ownTasks K ms' :=
  ofOwn_append ms ms'

theorem ownTasks_run {task : Task} {k : Completion → Code} :
    ownTasks K (⟨s, .host (.run task k), K⟩ :: ms) = task :: ownTasks K ms :=
  ofOwn_top rfl

theorem ownTasks_of_nil (h : m.tasks = []) : ownTasks K (m :: ms) = ownTasks K ms :=
  ofOwn_of_nil h

theorem ownTasks_scope {o : Open} {k : Reply → Code} :
    ownTasks (.scope o k :: K) ms = ownTasks K ms :=
  rfl

/-- While a script is at work for it, host code asks for nothing. -/
theorem Settles.ownTasks {task : Task} {k : Completion → Code} {c : Completion}
    (h : Settles K s task k ms c s') : Machine.ownTasks K ms = [] :=
  h.ofOwn fun _ _ _ _ _ => rfl

/-- A function that a task begins with is called. -/
theorem steps_calls {task : Task} {f : Value} {args : List Value} (k : Completion → Code)
    (h : task.Calls s.env.memory f args) : ∃ memory stack,
      Steps host K ⟨s, .host (.run task k), K⟩
        ⟨s.setMemory memory, .script (.call f args .outside) stack (baseOf K), .script k :: K⟩ := by
  have above : K <:+ .script k :: K := List.suffix_cons _ _
  cases task with
  | call g vs =>
    obtain ⟨rfl, rfl⟩ := h
    exact ⟨s.env.memory, [], .step rfl above (.done _)⟩
  | resume n vs =>
    obtain ⟨fresh, rfl⟩ := h
    refine ⟨s.env.memory.setThread n .active, [.boundary n .host], .step rfl above ?_⟩
    refine .script (t := ⟨_, _, _, baseOf K⟩) ?_ above (.done _)
    simp only [Script.State.step, taskControl, Script.State.resume, fresh, Script.State.push]
    rfl
  | index => cases h

end Machine

open Machine

namespace Code

/-! ## What code asks for -/

/-- All that the code itself has scripts do satisfies `P`. -/
def Asks (P : Task → Prop) : Code → Prop
  | finish _ => True
  | read k => ∀ s, (k s).Asks P
  | write _ c => c.Asks P
  | run task k => P task ∧ ∀ c, (k c).Asks P
  | trace k => ∀ ls, (k ls).Asks P
  | scope _ body refused k => body.Asks P ∧ (∀ f, (refused f).Asks P) ∧ ∀ r, (k r).Asks P

variable {P : Task → Prop} {K : List Frame} {s s' : State} {ms : List Machine} {r : Reply}

theorem Asks.ownTasks {c : Code} (h : c.Asks P) (goes : Goes K s c ms r s') :
    ∀ task ∈ ownTasks K ms, P task := by
  induction c generalizing K s ms r s' with
  | finish =>
    obtain ⟨rfl, -⟩ := goes_finish goes
    exact fun _ mem => (List.not_mem_nil mem).elim
  | read k ih =>
    obtain ⟨ms₁, rfl, rest⟩ := goes_read goes
    rw [ownTasks_of_nil rfl]
    exact ih s (h s) rest
  | write u c ih =>
    obtain ⟨ms₁, rfl, rest⟩ := goes_write goes
    rw [ownTasks_of_nil rfl]
    exact ih h rest
  | run task k ih =>
    obtain ⟨ms₁, c, s₁, ms₂, settles, rest, rfl⟩ := goes_run goes
    rw [ownTasks_run, ownTasks_append, settles.ownTasks]
    exact List.forall_mem_cons.mpr ⟨h.1, ih c (h.2 c) rest⟩
  | trace k ih =>
    obtain ⟨ms₁, rfl, rest⟩ := goes_trace goes
    rw [ownTasks_of_nil rfl]
    exact ih _ (h _) rest
  | scope scope body refused k ihb ihr ihk =>
    obtain ⟨f, ms₁, -, rest, rfl⟩ | ⟨o, s₁, ms₁, r₁, s₂, ms₂, -, inside, rest, rfl⟩ :=
      goes_scope goes
    · rw [ownTasks_of_nil rfl]
      exact ihr f (h.2.1 f) rest
    · rw [ownTasks_of_nil rfl, ownTasks_append, ownTasks_of_nil rfl]
      have before := ihb h.1 inside
      rw [ownTasks_scope] at before
      exact List.forall_mem_append.mpr ⟨before, ihk r₁ (h.2.2 r₁) rest⟩

theorem asks_andThen {c : Code} {next : Reply → Code} (h : c.Asks P) (h' : ∀ r, (next r).Asks P) :
    (c.andThen next).Asks P := by
  induction c with
  | finish r => exact h' r
  | read k ih => exact fun s => ih s (h s)
  | write u c ih => exact ih h
  | run task k ih => exact ⟨h.1, fun c => ih c (h.2 c)⟩
  | trace k ih => exact fun ls => ih ls (h ls)
  | scope s body refused k _ ihr ihk =>
    exact ⟨h.1, fun f => ihr f (h.2.1 f), fun r => ihk r (h.2.2 r)⟩

theorem asks_wording {k : String → Code} (hk : ∀ text, (k text).Asks Task.IsWording) :
    ∀ (fuel : Nat) (v : Value), (wording fuel v k).Asks Task.IsWording
  | 0, v => hk _
  | fuel + 1, v => by
    unfold wording
    split
    · exact hk _
    · exact fun s => hk _
    · intro s
      dsimp only
      split
      · exact hk _
      · refine ⟨⟨_, _, rfl⟩, fun c => ?_⟩
        cases c with
        | returned vs | yielded vs =>
          dsimp only
          split <;> exact hk _
        | raised w => exact asks_wording hk fuel w

/-! ## One task -/

/-- Code that begins in `s` has scripts do one thing, for which it asks in the state `t`, and beside
that at most has them find words for an error. -/
inductive AsksOnce (task : Task) (t : State) : State → Code → Prop
  | run {k : Completion → Code} (h : ∀ c, (k c).Asks Task.IsWording) :
    AsksOnce task t t (.run task k)
  | read {s : State} {k : State → Code} (h : AsksOnce task t s (k s)) : AsksOnce task t s (.read k)
  | write {s : State} {u : Update} {c : Code} (h : AsksOnce task t (u.apply s) c) :
    AsksOnce task t s (.write u c)
  | scope {s s₁ : State} {scope : Scope} {body : Code} {refused : Failure → Code}
    {k : Reply → Code} {o : Open} (enters : scope.enter s = .ok (o, s₁))
    (h : AsksOnce task t s₁ body) (h' : ∀ r, (k r).Asks Task.IsWording) :
    AsksOnce task t s (.scope scope body refused k)

/-- Code has a script call a function with some arguments, under any host and once. -/
def CallsOnce (K : List Frame) (s : State) (c : Code) (f : Value) (args : List Value) : Prop :=
  ∃ task t, task.Calls t.env.memory f args ∧ t.staged .call = [] ∧
    (∀ host, ∃ k B, Steps host K ⟨s, .host c, K⟩ ⟨t, .host (.run task k), B ++ K⟩) ∧
    ∀ ms r s', Goes K s c ms r s' →
      ∃ words, ownTasks K ms = task :: words ∧ ∀ word ∈ words, word.IsWording

namespace AsksOnce

variable {task : Task} {t : State} {c : Code}

theorem andThen {next : Reply → Code} (h : AsksOnce task t s c)
    (h' : ∀ r, (next r).Asks Task.IsWording) : AsksOnce task t s (c.andThen next) := by
  induction h with
  | run h => exact .run fun c => asks_andThen (h c) h'
  | read _ ih => exact .read ih
  | write _ ih => exact .write ih
  | scope enters h after _ => exact .scope enters h fun r => asks_andThen (after r) h'

/-- Under every host it comes to that task. -/
theorem steps (h : AsksOnce task t s c) (host : Host) (K : List Frame) :
    ∃ k B, Steps host K ⟨s, .host c, K⟩ ⟨t, .host (.run task k), B ++ K⟩ := by
  induction h generalizing K with
  | run => exact ⟨_, [], .done _⟩
  | read _ ih =>
    obtain ⟨k, B, rest⟩ := ih K
    exact ⟨k, B, .step rfl List.suffix_rfl rest⟩
  | write _ ih =>
    obtain ⟨k, B, rest⟩ := ih K
    exact ⟨k, B, .step rfl List.suffix_rfl rest⟩
  | @scope _ _ _ _ _ next o enters _ _ ih =>
    obtain ⟨k, B, rest⟩ := ih (.scope o next :: K)
    have on : K <:+ .scope o next :: K := List.suffix_cons _ _
    refine ⟨k, B ++ [.scope o next], ?_⟩
    rw [List.append_assoc]
    refine .step ?_ on (rest.mono on)
    simp [Machine.step, stepHost, enters]

/-- In the end it was the first that was asked for, and nothing but words after it. -/
theorem ownTasks (h : AsksOnce task t s c) (goes : Goes K s c ms r s') :
    ∃ words, Machine.ownTasks K ms = task :: words ∧ ∀ word ∈ words, word.IsWording := by
  induction h generalizing K ms r s' with
  | run h =>
    obtain ⟨ms₁, c, s₁, ms₂, settles, rest, rfl⟩ := goes_run goes
    refine ⟨Machine.ownTasks K ms₂, ?_, (h c).ownTasks rest⟩
    rw [ownTasks_run, ownTasks_append, settles.ownTasks]
    rfl
  | read _ ih =>
    obtain ⟨ms₁, rfl, rest⟩ := goes_read goes
    rw [ownTasks_of_nil rfl]
    exact ih rest
  | write _ ih =>
    obtain ⟨ms₁, rfl, rest⟩ := goes_write goes
    rw [ownTasks_of_nil rfl]
    exact ih rest
  | scope enters _ after ih =>
    obtain ⟨f, ms₁, refuses, -⟩ | ⟨o, s₁, ms₁, r₁, s₂, ms₂, eq, inside, rest, rfl⟩ :=
      goes_scope goes
    · cases enters.symm.trans refuses
    · cases enters.symm.trans eq
      obtain ⟨words, first, wording⟩ := ih inside
      rw [ownTasks_scope] at first
      refine ⟨words ++ Machine.ownTasks K ms₂, ?_,
        List.forall_mem_append.mpr ⟨wording, (after r₁).ownTasks rest⟩⟩
      rw [ownTasks_of_nil rfl, ownTasks_append, ownTasks_of_nil rfl, first]
      rfl

theorem callsOnce {f : Value} {args : List Value} (h : AsksOnce task t s c)
    (calls : task.Calls t.env.memory f args) (taken : t.staged .call = []) (K : List Frame) :
    CallsOnce K s c f args :=
  ⟨task, t, calls, taken, fun host => h.steps host K, fun _ _ _ => h.ownTasks⟩

end AsksOnce

/-- The function is called, when nothing is staged any more. -/
theorem CallsOnce.called {c : Code} {f : Value} {args : List Value} (h : CallsOnce K s c f args)
    (host : Host) : ∃ t stack base k B, t.staged .call = [] ∧
      Steps host K ⟨s, .host c, K⟩
        ⟨t, .script (.call f args .outside) stack base, .script k :: (B ++ K)⟩ := by
  obtain ⟨task, t, calls, taken, comes, -⟩ := h
  obtain ⟨k, B, steps⟩ := comes host
  obtain ⟨memory, stack, begins⟩ : ∃ memory stack, Steps host (B ++ K) _ _ := steps_calls k calls
  exact ⟨t.setMemory memory, stack, _, k, B, taken,
    steps.trans (begins.mono (List.suffix_append B K))⟩

/-! ## Calls and first steps -/

theorem asks_settled (site : String) : ∀ r : Reply, Asks Task.IsWording (match r with
    | .failed f => write (.clear .call) (write (.report site f) (fail f))
    | r => finish r) := by
  intro r
  cases r <;> trivial

/-- A call with the staged arguments asks for the call of its function. -/
theorem asksOnce_invokeStaged {f : Value} {declared : Nat} {args : List Value}
    (counted : (s.staged .call).length = declared) (room : s.HasRoom)
    (passed : s.stagedValues .call = .ok args) (ret : ReturnCount) :
    ∃ t, t.staged .call = [] ∧ AsksOnce (.call f args) t s (invokeStaged f declared ret) := by
  obtain ⟨s₁, enters, -⟩ := room.enter
  have level : Scope.guard = .guard ∨ Scope.guard.IsStep ⟨0⟩ := .inl rfl
  have values : s₁.stagedValues .call = .ok args :=
    (Scope.stagedValues_enter level enters).trans passed
  refine ⟨s₁.clear .call, s₁.staged_clear _, .read ?_⟩
  rw [if_pos counted]
  refine .scope enters (.read (.write ?_)) fun _ => trivial
  rw [values]
  refine .run fun c => ?_
  cases c with
  | returned vs | yielded vs => exact trivial
  | raised v =>
    refine asks_wording (fun text => ?_) _ v
    exact trivial

/-- The first step of an operation asks for the begin of its coroutine. -/
theorem asksOnce_runStep {f : Value} {args : List Value} {id : CoroutineId} (room : s.HasRoom)
    (unused : s.operations.lookup id = none) (passed : s.stagedValues .call = .ok args) :
    ∃ n t, t.staged .call = [] ∧ (Task.resume n args).Calls t.env.memory f args ∧
      AsksOnce (.resume n args) t s (runStep .call (.start id f) id) := by
  obtain ⟨s₁, enters, -, same, opened⟩ := room.enter
  obtain ⟨s₂, starts, alike, begun⟩ := State.enter_start opened (same ▸ unused) f
  have level : Scope.guard = .guard ∨ Scope.guard.IsStep id := .inl rfl
  have values : s₂.stagedValues .call = .ok args :=
    (Scope.stagedValues_enter (.inr (.inr ⟨f, rfl⟩)) starts).trans
      ((Scope.stagedValues_enter level enters).trans passed)
  let n := s₁.env.memory.threads.size
  have fresh : (s₂.clear .call).env.memory.threads[n]? = some (.fresh f) := by
    have memory : (s₂.clear .call).env.memory = (s₁.addThread f).env.memory :=
      (s₂.alike_clear .call).memory.trans alike.memory
    rw [memory]
    simp [n, State.addThread, Memory.addThread]
  have running : (s₂.clear .call).operations.lookup id = some ⟨.running, n⟩ := by
    rw [State.operations_clear, begun]
    exact Keyed.lookup_put_self _ _ _
  refine ⟨n, s₂.clear .call, s₂.staged_clear _, ⟨fresh, rfl⟩, ?_⟩
  rw [runStep_eq]
  refine .scope enters (.scope starts (.read (.write ?_)) fun r => ?_) fun r => ?_
  · rw [values]
    refine .read ?_
    have lookedUp : ((Update.clear .call).apply s₂).env.bridge.bind (·.coroutines.lookup id) =
        some ⟨.running, n⟩ := (State.lookup_operations _ id).symm.trans running
    rw [lookedUp]
    refine .run fun c => ?_
    cases c with
    | returned vs | yielded vs => exact trivial
    | raised v =>
      refine asks_wording (fun text => ?_) _ v
      exact trivial
  · cases r with
    | answer a => cases a <;> exact trivial
    | suspended | failed | raised => exact trivial
  · cases r <;> exact trivial

end Code

end CardBridge
