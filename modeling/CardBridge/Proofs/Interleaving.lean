import CardBridge.Proofs.AlikeStates
import CardBridge.Proofs.DepthAccounting
import CardBridge.Proofs.HostRuns
import CardBridge.Proofs.RefusedSteps
import Mathlib.Logic.Function.Basic

/-!
# Operations side by side

The coroutine of an operation is a `Process` : resumed with values it yields values, returns values
or raises an error, and what it does hangs on what it was resumed with so far and on nothing else.
`Bodies` says when the coroutines of a session are processes : what each of them goes on as is kept
by whatever the others do, and by what the session does for the steps of operations.

In such a session the operations do not notice each other, though they share a table and two queues
of arguments. Whatever the order of the requests is, each name is answered as one is that is driven
alone by what was staged when its own requests were made (`interleaved_operations`).
-/

namespace CardBridge

open Script (Value Memory)

/-! ## Processes -/

/-- What a process answers when it is resumed. -/
inductive Response
  | yields (vs : List Value)
  | returns (vs : List Value)
  | raises (text : String)

/-- What the process answers to the last of some lists of values, having been resumed with all of
them in turn. -/
abbrev Process := List (List Value) → Response

/-- The process after it was resumed once. -/
def Process.after (p : Process) (args : List Value) : Process :=
  fun later => p (args :: later)

/-- The result of a step in which a process answers so. -/
def Response.result : Response → CoroutineResult
  | yields vs => ⟨.yield, vs.getLast?.map toInteger, none⟩
  | returns vs => ⟨.finish, vs.getLast?.map toInteger, none⟩
  | raises text => ⟨.error, none, some (.script text)⟩

/-- What is left of an operation after a step, and the result of that. -/
def Process.resume (p : Process) (args : List Value) : Option Process × CoroutineResult :=
  match p [args] with
  | .yields vs => (some (p.after args), (Response.yields vs).result)
  | response => (none, response.result)

/-- What a request for a step asks of an operation. -/
inductive Input
  | start (f : Value) (args : Except Failure (List Value))
  | resume (args : Except Failure (List Value))
  /-- The request is refused whatever the operation is. -/
  | refused (f : Failure)

/-- An operation by itself : what is left of it and what is answered when it is asked for a step.
`begin` are the processes that functions begin. -/
def advance (begin : Value → Process) (id : CoroutineId) (p : Option Process) :
    Input → Option Process × CoroutineResult
  | .refused f => (p, .failed f)
  | .start f args =>
    match p, args with
    | some p, _ => (some p, .failed (.coroutine id .alreadyLive))
    | none, .error e => (none, .failed e)
    | none, .ok args => (begin f).resume args
  | .resume args =>
    match p, args with
    | none, _ => (none, .failed (.coroutine id .unknown))
    | some _, .error e => (none, .failed e)
    | some p, .ok args => p.resume args

/-- What an operation by itself answers to some requests, and what is left of it. -/
def drive (begin : Value → Process) (id : CoroutineId) :
    Option Process → List Input → List CoroutineResult × Option Process
  | p, [] => ([], p)
  | p, i :: is =>
    let first := advance begin id p i
    let rest := drive begin id first.1 is
    (first.2 :: rest.1, rest.2)

/-! ## Sessions -/

/-- What a request for a step finds : the function and the arguments staged for its queue, or why it
is refused before the operation counts. -/
def State.input (s : State) (c : Callable) (declared step : Nat) : Input :=
  if step = 0 then
    if (s.staged .call).length = declared then
      match s.resolve c with
      | .ok f => .start f (s.stagedValues .call)
      | .error f => .refused f
    else .refused (.paramCount declared (s.staged .call).length)
  else .resume (s.stagedValues .resume)

/-- A request for a step that was made and answered. -/
structure Answered where
  id : CoroutineId
  input : Input
  result : CoroutineResult

/-- The operations with which steps are asked for : the requests, and what stages their
arguments. -/
def Operation.ForSteps : Operation → Prop
  | stage .. | stageTyped .. | clear .. | callCoroutine .. => True
  | _ => False

/-- What is noted of an operation that came to a reply. -/
def Operation.answered (s : State) (r : Reply) : Operation → List Answered
  | callCoroutine c declared id step =>
    match r with
    | .answer (.step result) => [⟨id, s.input c declared step, result⟩]
    | _ => []
  | _ => []

/-- Operations that are run one after the other under a host, above `K`. -/
inductive Session (host : Host) (K : List Frame) :
    State → List Operation → List Answered → State → Prop
  | done (s : State) : Session host K s [] [] s
  | next {s s' s'' : State} {o : Operation} {os : List Operation} {r : Reply}
    {log : List Answered} (h : o.code.Gives host K s r s') (rest : Session host K s' os log s'') :
    Session host K s (o :: os) (o.answered s r ++ log) s''

/-- Of some requests, those for one name. -/
def requestsFor (id : CoroutineId) (log : List Answered) : List Answered :=
  log.filter (·.id = id)

/-! ## Coroutines that are processes -/

/-- A new coroutine for a function. -/
def State.addThread (s : State) (f : Value) : State :=
  s.setMemory (s.env.memory.addThread f).2

namespace Code

/-- Resume a coroutine. -/
def resumeThread (n : Nat) (args : List Value) : Code :=
  run (.resume n args) fun
    | .returned vs => values vs
    | .yielded vs => finish (.suspended vs)
    | .raised v => wording wordingLimit v fun text => finish (.raised text)

/-- What is done after a step, inside or outside of the bound. -/
def settleStep (q : Queue) : Reply → Code
  | .failed f => failStep q f
  | r => finish r

theorem runStep_eq (q : Queue) (sc : Scope) (id : CoroutineId) : runStep q sc id =
    scope .guard (scope sc (resumeStaged q id) fail stepResult) (failStep q) (settleStep q) :=
  rfl

end Code

/-- How a coroutine stops that answers so. -/
def Response.reply : Response → Reply
  | yields vs => .suspended vs
  | returns vs => .answer (.values vs)
  | raises text => .raised text

/-- In states that are `Fit` the functions that the host holds begin processes, and coroutines go on
as the processes that they are at. What a coroutine goes on as is kept by a session's bookkeeping,
by the begin of others and by what the others do. No coroutine does anything to the operations. -/
structure Bodies (host : Host) (K : List Frame) where
  begin : Value → Process
  Fit : State → Prop
  At : State → Nat → Process → Prop
  fit_alike {s s' : State} (h : s.Alike s') : Fit s → Fit s'
  at_alike {s s' : State} {n : Nat} {p : Process} (h : s.Alike s') : At s n p → At s' n p
  fit_new {s : State} {c : Callable} {f : Value} (h : s.resolve c = .ok f) :
    Fit s → Fit (s.addThread f)
  at_new {s : State} {c : Callable} {f : Value} (h : s.resolve c = .ok f) :
    Fit s → At (s.addThread f) s.env.memory.threads.size (begin f)
  at_other {s : State} {f : Value} {n : Nat} {p : Process} : At s n p → At (s.addThread f) n p
  /-- In a step, which is a scope in another one, a coroutine does what its process does. -/
  resumes {s : State} {n : Nat} {p : Process} {o o' : Open} {k k' : Reply → Code} :
    Fit s → At s n p → ∀ args, ∃ s',
      (Code.resumeThread n args).Gives host (.scope o k :: .scope o' k' :: K) s
        (p [args]).reply s' ∧
      s'.operations = s.operations ∧ Fit s' ∧
      (∀ vs, p [args] = .yields vs → At s' n (p.after args)) ∧
      ∀ n' p', n' ≠ n → At s n' p' → At s' n' p'

/-! ## One step -/

namespace State

variable {s : State} {id : CoroutineId}

/-- There is a level of invocation left. -/
def HasRoom (s : State) : Prop :=
  ∃ x, s.env.bridge = some x ∧ x.depth.current < x.depth.max

theorem HasRoom.enter (h : s.HasRoom) :
    ∃ s₁, Scope.guard.enter s = .ok (.guard, s₁) ∧ s.Alike s₁ ∧ s₁.operations = s.operations ∧
      s₁.env.bridge.isSome = true := by
  obtain ⟨x, hx, room⟩ := h
  obtain ⟨depth, free⟩ : ∃ depth, x.depth.enter? = some depth :=
    ⟨_, (CallDepth.enter?_eq_some_iff x.depth _).mpr ⟨room, rfl⟩⟩
  refine ⟨s.updateBridge fun b => { b with depth }, ?_, ?_, ?_, ?_⟩
  · simp only [Scope.enter, State.enterGuard, hx, free]
    rfl
  · exact s.alike_updateBridge fun b => ⟨rfl, rfl, rfl⟩
  · simp [operations, hx]
  · simp [hx]

/-- A new operation begins under a name that is free. -/
theorem enter_start (hb : s.env.bridge.isSome = true) (unused : s.operations.lookup id = none)
    (f : Value) : ∃ s₁,
      (Scope.start id f).enter s = .ok (.step id s.env.memory.threads.size, s₁) ∧
      (s.addThread f).Alike s₁ ∧
      s₁.operations = Keyed.put id ⟨.running, s.env.memory.threads.size⟩ s.operations := by
  obtain ⟨b, hb⟩ := Option.isSome_iff_exists.mp hb
  have hl : b.coroutines.lookup id = none := by simpa [lookup_operations, hb] using unused
  let running := Keyed.put id ⟨.running, s.env.memory.threads.size⟩ s.operations
  refine ⟨(s.addThread f).updateBridge fun b => { b with coroutines := running }, ?_, ?_, ?_⟩
  · simp [Scope.enter, startStep, hb, CoroutineTable.create, hl, beginStep, CoroutineTable.begin,
      CoroutinePhase.canBecome, addThread, updateBridge, Memory.addThread, bind, Except.bind,
      Except.map, pure, Except.pure, running, operations]
  · exact (s.addThread f).alike_updateBridge fun b => ⟨rfl, rfl, rfl⟩
  · simp [operations, addThread, hb, running]

/-- No operation begins under a name that is not free. -/
theorem not_enter_start {e : CoroutineEntry Nat} (there : s.operations.lookup id = some e)
    (f : Value) : (Scope.start id f).enter s = .error (.coroutine id .alreadyLive) := by
  cases hb : s.env.bridge with
  | none => simp [lookup_operations, hb] at there
  | some b =>
    have hl : b.coroutines.lookup id = some e := by simpa [lookup_operations, hb] using there
    simp [Scope.enter, startStep, hb, CoroutineTable.create, hl, CoroutineTable.refused, bind,
      Except.bind, Except.map]

/-- An operation that is suspended goes on. -/
theorem enter_proceed {n : Nat} (there : s.operations.lookup id = some ⟨.yielded, n⟩) : ∃ s₁,
    (Scope.proceed id).enter s = .ok (.step id n, s₁) ∧ s.Alike s₁ ∧
    s₁.operations = Keyed.put id ⟨.running, n⟩ s.operations := by
  cases hb : s.env.bridge with
  | none => simp [lookup_operations, hb] at there
  | some b =>
    have hl : b.coroutines.lookup id = some ⟨.yielded, n⟩ := by
      simpa [lookup_operations, hb] using there
    let running := Keyed.put id ⟨.running, n⟩ s.operations
    refine ⟨s.updateBridge fun b => { b with coroutines := running }, ?_, ?_, ?_⟩
    · simp [Scope.enter, beginStep, hb, CoroutineTable.begin, hl, CoroutinePhase.canBecome,
        updateBridge, bind, Except.bind, Except.map, pure, Except.pure, running, operations]
    · exact s.alike_updateBridge fun b => ⟨rfl, rfl, rfl⟩
    · simp [operations, hb, running]

/-- No operation goes on under a name that is free. -/
theorem not_enter_proceed (hb : s.env.bridge.isSome = true)
    (unused : s.operations.lookup id = none) :
    (Scope.proceed id).enter s = .error (.coroutine id .unknown) := by
  obtain ⟨b, hb⟩ := Option.isSome_iff_exists.mp hb
  have hl : b.coroutines.lookup id = none := by simpa [lookup_operations, hb] using unused
  simp [Scope.enter, beginStep, hb, CoroutineTable.begin, hl, CoroutineTable.refused, bind,
    Except.bind, Except.map]

end State

/-- Code takes no coroutine away. -/
theorem Code.returns_threads_le {K : List Frame} {s s' : State} {c : Code} {us : List Update}
    {r : Reply} (h : Returns K s c us r s') :
    s.env.memory.threads.size ≤ s'.env.memory.threads.size := by
  refine Machine.Run.invariant (P := fun s' _ => s.env.memory.threads.size ≤
    s'.env.memory.threads.size) h (fun le e _ _ => ?_) (Nat.le_refl _)
  exact Nat.le_trans le e.memory_edits.threads_size_le

namespace Bodies

variable {host : Host} {K : List Frame} {bodies : Bodies host K} {t : CoroutineTable Nat}
  {s s' : State} {procs : CoroutineId → Option Process} {id : CoroutineId} {n : Nat} {p : Process}

/-- The operations in a table are suspended as the processes `procs`, on coroutines of their own. -/
structure Keeps (bodies : Bodies host K) (t : CoroutineTable Nat) (s : State)
    (procs : CoroutineId → Option Process) : Prop where
  fit : bodies.Fit s
  free {id : CoroutineId} (h : procs id = none) : t.lookup id = none
  kept {id : CoroutineId} {p : Process} (h : procs id = some p) :
    ∃ n, t.lookup id = some ⟨.yielded, n⟩ ∧ bodies.At s n p
  apart {id id' : CoroutineId} {e e' : CoroutineEntry Nat} (h : t.lookup id = some e)
    (h' : t.lookup id' = some e') (same : e.payload = e'.payload) : id = id'
  there {id : CoroutineId} {e : CoroutineEntry Nat} (h : t.lookup id = some e) :
    e.payload < s.env.memory.threads.size

namespace Keeps

theorem alike (h : bodies.Keeps t s procs) (same : s.Alike s') : bodies.Keeps t s' procs where
  fit := bodies.fit_alike same h.fit
  free := h.free
  kept hp := (h.kept hp).imp fun _ => And.imp_right (bodies.at_alike same)
  apart := h.apart
  there he := by
    rw [same.memory]
    exact h.there he

/-- An operation is left out. -/
theorem erase (h : bodies.Keeps t s procs) (id : CoroutineId) :
    bodies.Keeps (Keyed.erase id t) s (Function.update procs id none) where
  fit := h.fit
  free {id'} hp := by
    by_cases same : id' = id
    · rw [same]
      exact Keyed.lookup_erase_self _ _
    · rw [Function.update_of_ne same] at hp
      rw [Keyed.lookup_erase_of_ne same]
      exact h.free hp
  kept {id'} p hp := by
    by_cases same : id' = id
    · rw [same, Function.update_self] at hp
      cases hp
    · rw [Function.update_of_ne same] at hp
      rw [Keyed.lookup_erase_of_ne same]
      exact h.kept hp
  apart he he' same := h.apart (Keyed.lookup_erase_cases he).2 (Keyed.lookup_erase_cases he').2 same
  there he := h.there (Keyed.lookup_erase_cases he).2

/-- An operation is kept again, on a coroutine that no other one is on. -/
theorem put (h : bodies.Keeps (Keyed.erase id t) s (Function.update procs id none))
    (own : bodies.At s n p) (lt : n < s.env.memory.threads.size)
    (other : ∀ id' e, (Keyed.erase id t).lookup id' = some e → e.payload ≠ n) :
    bodies.Keeps (Keyed.put id ⟨.yielded, n⟩ t) s (Function.update procs id (some p)) where
  fit := h.fit
  free {id'} hp := by
    by_cases same : id' = id
    · rw [same, Function.update_self] at hp
      cases hp
    · rw [Function.update_of_ne same] at hp
      have before := h.free ((Function.update_of_ne same _ _).trans hp)
      rwa [Keyed.lookup_erase_of_ne same, ← Keyed.lookup_put_of_ne same] at before
  kept {id'} p' hp := by
    by_cases same : id' = id
    · rw [same, Function.update_self] at hp
      cases hp
      exact ⟨n, by rw [same, Keyed.lookup_put_self], own⟩
    · rw [Function.update_of_ne same] at hp
      have before := h.kept ((Function.update_of_ne same _ _).trans hp)
      rwa [Keyed.lookup_erase_of_ne same, ← Keyed.lookup_put_of_ne same] at before
  apart {id₁ id₂ e₁ e₂} he he' same := by
    have before {id' : CoroutineId} {e : CoroutineEntry Nat} (ne : id' ≠ id)
        (h : t.lookup id' = some e) : (Keyed.erase id t).lookup id' = some e :=
      (Keyed.lookup_erase_of_ne ne t).trans h
    obtain ⟨rfl, rfl⟩ | ⟨ne, there⟩ := Keyed.lookup_put_cases he
    · obtain ⟨rfl, rfl⟩ | ⟨ne', there'⟩ := Keyed.lookup_put_cases he'
      · rfl
      · exact absurd same.symm (other _ _ (before ne' there'))
    · obtain ⟨rfl, rfl⟩ | ⟨ne', there'⟩ := Keyed.lookup_put_cases he'
      · exact absurd same (other _ _ (before ne there))
      · exact h.apart (before ne there) (before ne' there') same
  there {id'} e he := by
    obtain ⟨rfl, rfl⟩ | ⟨ne, he⟩ := Keyed.lookup_put_cases he
    · exact lt
    · exact h.there ((Keyed.lookup_erase_of_ne ne t).trans he)

/-- A new coroutine is there. -/
theorem new (h : bodies.Keeps t s procs) {c : Callable} {f : Value} (hf : s.resolve c = .ok f) :
    bodies.Keeps t (s.addThread f) procs where
  fit := bodies.fit_new hf h.fit
  free := h.free
  kept hp := (h.kept hp).imp fun _ => And.imp_right bodies.at_other
  apart := h.apart
  there he := by
    simpa [State.addThread, Memory.addThread] using Nat.lt_succ_of_lt (h.there he)

/-- A coroutine that is not that of an operation in the table does what its process does. -/
theorem resumes (h : bodies.Keeps t s procs) (own : bodies.At s n p)
    (other : ∀ id' e, t.lookup id' = some e → e.payload ≠ n) (o o' : Open) (k k' : Reply → Code)
    (args : List Value) : ∃ s',
      (Code.resumeThread n args).Gives host (.scope o k :: .scope o' k' :: K) s
        (p [args]).reply s' ∧
      s'.operations = s.operations ∧ bodies.Keeps t s' procs ∧
      ∀ vs, p [args] = .yields vs → bodies.At s' n (p.after args) := by
  obtain ⟨s', gives, same, fit, goes_on, others⟩ :=
    @bodies.resumes s n p o o' k k' h.fit own args
  obtain ⟨us, returns⟩ := gives.returns
  refine ⟨s', gives, same, ⟨fit, h.free, fun hp => ?_, h.apart, fun he => ?_⟩, goes_on⟩
  · obtain ⟨n', he, at'⟩ := h.kept hp
    exact ⟨n', he, others n' _ (other _ _ he) at'⟩
  · exact Nat.lt_of_lt_of_le (h.there he) (Code.returns_threads_le returns)

open Code in
/-- A step that has begun ends as the process of its coroutine says. -/
theorem step {q : Queue} {scope : Scope} {n : Nat} {s₁ : State}
    (enters : scope.enter s = .ok (.step id n, s₁))
    (running : s₁.operations.lookup id = some ⟨.running, n⟩)
    (h : bodies.Keeps (Keyed.erase id s₁.operations) s₁ (Function.update procs id none))
    (own : bodies.At s₁ n p) (lt : n < s₁.env.memory.threads.size)
    (other : ∀ id' e, (Keyed.erase id s₁.operations).lookup id' = some e → e.payload ≠ n)
    {args : List Value} (values : s₁.stagedValues q = .ok args) (k : Reply → Code) : ∃ s',
      Gives host (.scope .guard k :: K) s (.scope scope (resumeStaged q id) fail stepResult)
        (.answer (.step (p.resume args).2)) s' ∧
      bodies.Keeps s'.operations s' (Function.update procs id (p.resume args).1) := by
  have cleared := s₁.alike_clear q
  have unchanged : ((Update.clear q).apply s₁).operations = s₁.operations := s₁.operations_clear q
  obtain ⟨s₂, gives, same, kept, goes_on⟩ := (h.alike cleared).resumes (bodies.at_alike cleared own)
    other (.step id n) .guard stepResult k args
  have body : Gives host (.scope (.step id n) stepResult :: .scope .guard k :: K) s₁
      (resumeStaged q id) (p [args]).reply s₂ := by
    refine .read (.write ?_)
    rw [values]
    refine .read ?_
    rw [← State.lookup_operations, unchanged, running]
    exact gives
  obtain ⟨us, returns⟩ := gives.returns
  have there : n < s₂.env.memory.threads.size :=
    Nat.lt_of_lt_of_le (show n < (s₁.clear q).env.memory.threads.size from lt)
      (returns_threads_le returns)
  have still : s₂.operations = s₁.operations := same.trans unchanged
  have after (r : Reply) := State.operations_leave_step (still ▸ running) r
  rw [still] at after
  cases answer : p [args] with
  | yields vs =>
    have eq : p.resume args = (some (p.after args), (Response.yields vs).result) := by
      simp [Process.resume, answer]
    rw [answer] at body
    rw [eq]
    refine ⟨_, .scope enters body .finish, ?_⟩
    rw [after, if_pos (show State.phaseAfter (Response.yields vs).reply = .yielded from rfl)]
    exact (kept.put (goes_on vs answer) there other).alike (s₂.alike_endStep id .yielded)
  | returns vs =>
    have eq : p.resume args = (none, (Response.returns vs).result) := by
      simp [Process.resume, answer]
    rw [answer] at body
    rw [eq]
    refine ⟨_, .scope enters body .finish, ?_⟩
    rw [after, if_neg (by simp [Response.reply, State.phaseAfter])]
    exact kept.alike (s₂.alike_endStep id .finished)
  | raises text =>
    have eq : p.resume args = (none, (Response.raises text).result) := by
      simp [Process.resume, answer]
    rw [answer] at body
    rw [eq]
    refine ⟨_, .scope enters body (.write .finish), ?_⟩
    rw [show (Update.apply _ (.report _ _)).operations = _ from State.operations_report _ _ _,
      after, if_neg (by simp [Response.reply, State.phaseAfter])]
    exact kept.alike ((s₂.alike_endStep id .errored).trans (State.alike_report _ _ _))

open Code in
/-- A step that has begun and has no arguments is withdrawn, and its operation with it. -/
theorem withdrawn {q : Queue} {scope : Scope} {n : Nat} {s₁ : State}
    (enters : scope.enter s = .ok (.step id n, s₁))
    (running : s₁.operations.lookup id = some ⟨.running, n⟩)
    (h : bodies.Keeps (Keyed.erase id s₁.operations) s₁ (Function.update procs id none))
    {f : Failure} (values : s₁.stagedValues q = .error f) (k : Reply → Code) : ∃ s',
      Gives host (.scope .guard k :: K) s (.scope scope (resumeStaged q id) fail stepResult)
        (.failed f) s' ∧
      bodies.Keeps s'.operations s' (Function.update procs id none) := by
  have body : Gives host (.scope (.step id n) stepResult :: .scope .guard k :: K) s₁
      (resumeStaged q id) (.failed f) (s₁.clear q) := by
    refine .read (.write ?_)
    rw [values]
    exact .finish
  refine ⟨_, .scope enters body .finish, ?_⟩
  rw [State.operations_leave_step (by simpa using running), if_neg (by simp [State.phaseAfter]),
    State.operations_clear]
  exact h.alike ((s₁.alike_clear q).trans (State.alike_endStep _ id .errored))

end Keeps

/-- Code answers with the result of a step, and operations are left as processes. -/
def Answers (bodies : Bodies host K) (s : State) (c : Code) (result : CoroutineResult)
    (procs : CoroutineId → Option Process) : Prop :=
  ∃ s', c.Gives host K s (.answer (.step result)) s' ∧ bodies.Keeps s'.operations s' procs

open Code in
theorem Keeps.failStep (h : bodies.Keeps s.operations s procs) (q : Queue) (f : Failure) :
    bodies.Answers s (failStep q f) (.failed f) procs := by
  refine ⟨_, .write (.write .finish), ?_⟩
  have same : ((s.clear q).report "call_coroutine" f).operations = s.operations := by simp
  exact same ▸ h.alike ((s.alike_clear q).trans (State.alike_report _ _ _))

theorem Keeps.leaveGuard (h : bodies.Keeps s.operations s procs) :
    bodies.Keeps s.leaveGuard.operations s.leaveGuard procs := by
  rw [s.operations_leaveGuard]
  exact h.alike s.alike_leaveGuard

section

variable {q : Queue} {scope : Scope} {s₁ s₂ : State}

open Code

/-- The step of a coroutine comes to a result. -/
theorem Answers.ran (enters : Scope.guard.enter s = .ok (.guard, s₁)) {result : CoroutineResult}
    (inner : Gives host (.scope .guard (settleStep q) :: K) s₁
      (.scope scope (resumeStaged q id) fail stepResult) (.answer (.step result)) s₂)
    (h : bodies.Keeps s₂.operations s₂ procs) :
    bodies.Answers s (runStep q scope id) result procs := by
  rw [runStep_eq]
  exact ⟨_, .scope enters inner .finish, h.leaveGuard⟩

/-- The step of a coroutine is refused or withdrawn. -/
theorem Answers.refused (enters : Scope.guard.enter s = .ok (.guard, s₁)) {f : Failure}
    (inner : Gives host (.scope .guard (settleStep q) :: K) s₁
      (.scope scope (resumeStaged q id) fail stepResult) (.failed f) s₂)
    (h : bodies.Keeps s₂.operations s₂ procs) :
    bodies.Answers s (runStep q scope id) (.failed f) procs := by
  obtain ⟨s', gives, keeps⟩ := h.leaveGuard.failStep q f
  rw [runStep_eq]
  exact ⟨s', .scope enters inner gives, keeps⟩

/-- A step whose scope has begun answers as its process does, or is withdrawn for its arguments. -/
theorem Keeps.begun (enters : Scope.guard.enter s = .ok (.guard, s₁))
    (begins : scope.enter s₁ = .ok (.step id n, s₂))
    (running : s₂.operations.lookup id = some ⟨.running, n⟩)
    (h : bodies.Keeps (Keyed.erase id s₂.operations) s₂ (Function.update procs id none))
    (own : bodies.At s₂ n p) (lt : n < s₂.env.memory.threads.size)
    (other : ∀ id' e, (Keyed.erase id s₂.operations).lookup id' = some e → e.payload ≠ n)
    {args : Except Failure (List Value)} (values : s₂.stagedValues q = args) :
    bodies.Answers s (runStep q scope id)
      (advance bodies.begin id (some p) (.resume args)).2
      (Function.update procs id (advance bodies.begin id (some p) (.resume args)).1) := by
  cases args with
  | ok args =>
    obtain ⟨s', gives, keeps⟩ := h.step begins running own lt other values (settleStep q)
    exact .ran enters gives keeps
  | error f =>
    obtain ⟨s', gives, keeps⟩ := h.withdrawn begins running values (settleStep q)
    exact .refused enters gives keeps

/-- A step that is refused with its scope changes no operation. -/
theorem Keeps.not_begun (h : bodies.Keeps s₁.operations s₁ procs)
    (enters : Scope.guard.enter s = .ok (.guard, s₁)) {f : Failure}
    (refuses : scope.enter s₁ = .error f) :
    bodies.Answers s (runStep q scope id) (.failed f) procs :=
  .refused enters (.refused refuses .finish) h

end

/-- The scopes of a step leave the arguments that it is for. -/
theorem stagedValues_step {q : Queue} {scope : Scope} {s₁ s₂ : State} {o : Open}
    (step : scope.IsStep id) (enters : Scope.guard.enter s = .ok (.guard, s₁))
    (begins : scope.enter s₁ = .ok (o, s₂)) : s₂.stagedValues q = s.stagedValues q := by
  have level : Scope.guard = .guard ∨ Scope.guard.IsStep id := .inl rfl
  exact (Scope.stagedValues_enter (.inr step) begins).trans
    (Scope.stagedValues_enter level enters)

/-- A first step is answered as the operation by itself answers. -/
theorem Keeps.start (h : bodies.Keeps s.operations s procs) (room : s.HasRoom) {c : Callable}
    {f : Value} (hf : s.resolve c = .ok f) (id : CoroutineId) :
    bodies.Answers s (Code.runStep .call (.start id f) id)
      (advance bodies.begin id (procs id) (.start f (s.stagedValues .call))).2
      (Function.update procs id
        (advance bodies.begin id (procs id) (.start f (s.stagedValues .call))).1) := by
  obtain ⟨s₁, enters, alike, same, hb⟩ := room.enter
  have h₁ : bodies.Keeps s₁.operations s₁ procs := same ▸ h.alike alike
  cases hp : procs id with
  | some p =>
    obtain ⟨n, there, -⟩ := h₁.kept hp
    rw [advance, ← hp, Function.update_eq_self]
    exact h₁.not_begun enters (State.not_enter_start there f)
  | none =>
    have unused := h₁.free hp
    obtain ⟨s₂, begins, alike₂, ops⟩ := State.enter_start hb unused f
    have hf₁ := (alike.resolve c).trans hf
    have left : Keyed.erase id s₂.operations = Keyed.erase id s₁.operations := by
      rw [ops, Keyed.erase_put]
    have values : s₂.stagedValues .call = s.stagedValues .call :=
      stagedValues_step (.inr ⟨f, rfl⟩) enters begins
    have kept : bodies.Keeps (Keyed.erase id s₂.operations) s₂ (Function.update procs id none) :=
      left ▸ ((h₁.erase id).new hf₁).alike alike₂
    have started := kept.begun enters begins (by rw [ops, Keyed.lookup_put_self])
      (bodies.at_alike alike₂ (bodies.at_new hf₁ h₁.fit))
      (by simp [alike₂.memory, State.addThread, Memory.addThread])
      (fun id' e he => Nat.ne_of_lt (h₁.there (Keyed.lookup_erase_cases (left ▸ he)).2))
      values
    cases hv : s.stagedValues .call with
    | ok args =>
      rw [hv] at started
      exact started
    | error e =>
      rw [hv] at started
      exact started

/-- A later step is answered as the operation by itself answers. -/
theorem Keeps.proceed (h : bodies.Keeps s.operations s procs) (room : s.HasRoom)
    (id : CoroutineId) :
    bodies.Answers s (Code.runStep .resume (.proceed id) id)
      (advance bodies.begin id (procs id) (.resume (s.stagedValues .resume))).2
      (Function.update procs id
        (advance bodies.begin id (procs id) (.resume (s.stagedValues .resume))).1) := by
  obtain ⟨s₁, enters, alike, same, hb⟩ := room.enter
  have h₁ : bodies.Keeps s₁.operations s₁ procs := same ▸ h.alike alike
  cases hp : procs id with
  | none =>
    rw [advance, ← hp, Function.update_eq_self]
    exact h₁.not_begun enters (State.not_enter_proceed hb (h₁.free hp))
  | some p =>
    obtain ⟨n, there, own⟩ := h₁.kept hp
    obtain ⟨s₂, begins, alike₂, ops⟩ := State.enter_proceed there
    have left : Keyed.erase id s₂.operations = Keyed.erase id s₁.operations := by
      rw [ops, Keyed.erase_put]
    refine Keeps.begun enters begins (by rw [ops, Keyed.lookup_put_self])
      (left ▸ (h₁.erase id).alike alike₂) (bodies.at_alike alike₂ own)
      (alike₂.memory ▸ h₁.there there) (fun id' e he eq => ?_) ?_
    · obtain ⟨other, he⟩ := Keyed.lookup_erase_cases (left ▸ he)
      exact other (h₁.apart he there eq)
    · exact stagedValues_step (.inl rfl) enters begins

/-- A request is answered as the operation that it is for answers by itself, and the others are left
as they are. -/
theorem Keeps.request (h : bodies.Keeps s.operations s procs) (room : s.HasRoom) (c : Callable)
    (declared : Nat) (id : CoroutineId) (step : Nat) :
    bodies.Answers s (Operation.callCoroutine c declared id step).code
      (advance bodies.begin id (procs id) (s.input c declared step)).2
      (Function.update procs id
        (advance bodies.begin id (procs id) (s.input c declared step)).1) := by
  have refused (f : Failure) : bodies.Answers s (Code.failStep .call f)
      (advance bodies.begin id (procs id) (.refused f)).2
      (Function.update procs id (advance bodies.begin id (procs id) (.refused f)).1) := by
    rw [advance, Function.update_eq_self]
    exact h.failStep .call f
  unfold State.input
  change bodies.Answers s (Code.callCoroutine c declared id step) _ _
  rw [Code.callCoroutine]
  split
  case isTrue first =>
    suffices answers : bodies.Answers s _ _ _ from
      answers.imp fun s' => And.imp_left Code.Gives.read
    dsimp only
    split
    case isTrue count =>
      cases hf : s.resolve c with
      | ok f => exact h.start room hf id
      | error f => exact refused f
    case isFalse count => exact refused _
  case isFalse later => exact h.proceed room id

end Bodies

/-! ## Whole sessions -/

theorem drive_append (begin : Value → Process) (id : CoroutineId) (is js : List Input) :
    ∀ p, drive begin id p (is ++ js) =
      ((drive begin id p is).1 ++ (drive begin id (drive begin id p is).2 js).1,
        (drive begin id (drive begin id p is).2 js).2) := by
  induction is with
  | nil => exact fun p => rfl
  | cons i is ih =>
    intro p
    simp only [List.cons_append, drive, ih]

/-- What an operation by itself answers to the requests for its name, and what is left of it. -/
def driveAlone (begin : Value → Process) (id : CoroutineId) (p : Option Process)
    (log : List Answered) : List CoroutineResult × Option Process :=
  drive begin id p ((requestsFor id log).map (·.input))

/-- All requests were answered as each operation by itself answers, which leaves `procs'`. -/
def Apart (begin : Value → Process) (procs : CoroutineId → Option Process) (log : List Answered)
    (procs' : CoroutineId → Option Process) : Prop :=
  ∀ id, driveAlone begin id (procs id) log =
    ((requestsFor id log).map (·.result), procs' id)

theorem Apart.none (begin : Value → Process) (procs : CoroutineId → Option Process) :
    Apart begin procs [] procs :=
  fun _ => rfl

theorem Apart.one (begin : Value → Process) (procs : CoroutineId → Option Process)
    (id : CoroutineId) (i : Input) : Apart begin procs [⟨id, i, (advance begin id (procs id) i).2⟩]
      (Function.update procs id (advance begin id (procs id) i).1) := by
  intro id'
  by_cases same : id' = id
  · subst same
    simp [driveAlone, requestsFor, drive]
  · simp [driveAlone, requestsFor, drive, Ne.symm same, Function.update_of_ne same]

theorem Apart.append {begin : Value → Process} {procs procs' procs'' : CoroutineId → Option Process}
    {log log' : List Answered} (h : Apart begin procs log procs')
    (h' : Apart begin procs' log' procs'') : Apart begin procs (log ++ log') procs'' := by
  intro id
  have first := h id
  have second := h' id
  rw [driveAlone] at first second
  rw [driveAlone, requestsFor, List.filter_append, List.map_append, List.map_append, drive_append]
  change ((drive _ _ _ ((requestsFor id log).map _)).1 ++ _, _) = _
  rw [show List.filter _ log = requestsFor id log from rfl,
    show List.filter _ log' = requestsFor id log' from rfl, first, second]

/-- Host code leaves a level of invocation if there was one. -/
theorem Code.returns_hasRoom {K : List Frame} {s s' : State} {c : Code} {us : List Update}
    {r : Reply} (h : Returns K s c us r s') (room : s.HasRoom) : s'.HasRoom := by
  obtain ⟨x, hx, room⟩ := room
  obtain ⟨x', hx', same⟩ : ∃ x', s'.env.bridge = some x' ∧ x'.depth.max = x.depth.max := by
    refine Machine.Run.invariant (P := fun s _ => ∃ x', s.env.bridge = some x' ∧
      x'.depth.max = x.depth.max) h (fun ⟨y, hy, eq⟩ e _ _ => ?_) ⟨x, hx, rfl⟩
    obtain ⟨y', hy', ⟨-, enters, -⟩ | ⟨-, leaves, -⟩ | ⟨-, stays, -⟩⟩ := e.depth hy
    · obtain ⟨-, hd⟩ := (CallDepth.enter?_eq_some_iff _ _).mp enters
      exact ⟨y', hy', by rw [← hd, ← eq]⟩
    · exact ⟨y', hy', by rw [leaves, ← eq]; rfl⟩
    · exact ⟨y', hy', by rw [stays, eq]⟩
  have depth := returns_depth h
  rw [State.callDepth, State.callDepth, hx, hx'] at depth
  refine ⟨x', hx', ?_⟩
  rw [same, show x'.depth.current = x.depth.current from depth]
  exact room

namespace Bodies

variable {host : Host} {K : List Frame} {bodies : Bodies host K} {s : State}
  {procs : CoroutineId → Option Process}

theorem Keeps.staged (h : bodies.Keeps s.operations s procs) (q : Queue) (front : Bool)
    (a : Argument) : bodies.Keeps (s.stage q front a).operations (s.stage q front a) procs := by
  have same : (s.stage q front a).operations = s.operations := by
    cases hb : s.env.bridge <;> cases q <;> simp [State.operations, hb, Bridge.setQueue]
  exact same ▸ h.alike (s.alike_stage q front a)

/-- An operation of a session comes to a reply, and what it answers is what the operation that it
asks for answers by itself. -/
theorem Keeps.operation (h : bodies.Keeps s.operations s procs) (room : s.HasRoom) {o : Operation}
    (for_steps : o.ForSteps) : ∃ r s' procs', o.code.Gives host K s r s' ∧
      bodies.Keeps s'.operations s' procs' ∧ Apart bodies.begin procs (o.answered s r) procs' := by
  cases o with
  | stage q front a =>
    exact ⟨_, _, procs, .write .finish, h.staged q front a, .none _ _⟩
  | stageTyped raw type front =>
    suffices gives : ∃ r s', (Code.stageTyped raw type front).Gives host K s r s' ∧
        bodies.Keeps s'.operations s' procs from
      let ⟨r, s', gives, keeps⟩ := gives
      ⟨r, s', procs, gives, keeps, .none _ _⟩
    rw [Code.stageTyped]
    cases Argument.ofRaw? raw type with
    | none => exact ⟨_, s, .finish, h⟩
    | some a =>
      cases hb : s.env.bridge with
      | none =>
        refine ⟨.failed .environmentClosed, s, .read ?_, h⟩
        simp only [hb]
        exact .finish
      | some b =>
        refine ⟨.answer .done, _, .read ?_, h.staged .call front a⟩
        simp only [hb]
        exact .write .finish
  | clear q =>
    have same : (s.clear q).operations = s.operations := s.operations_clear q
    exact ⟨_, _, procs, .write .finish, same ▸ h.alike (s.alike_clear q), .none _ _⟩
  | callCoroutine c declared id step =>
    obtain ⟨s', gives, keeps⟩ := h.request room c declared id step
    exact ⟨_, s', _, gives, keeps, .one _ _ _ _⟩
  | _ => cases for_steps

/-- A session has a run, and every run of it answers as the operations by themselves do. -/
theorem Keeps.session (os : List Operation) (for_steps : ∀ o ∈ os, o.ForSteps) :
    ∀ {s : State} {procs : CoroutineId → Option Process}, bodies.Keeps s.operations s procs →
      s.HasRoom → (∃ log s', Session host K s os log s') ∧
      ∀ log s', Session host K s os log s' → ∃ procs', bodies.Keeps s'.operations s' procs' ∧
        Apart bodies.begin procs log procs' := by
  induction os with
  | nil =>
    intro s procs h _
    refine ⟨⟨[], s, .done s⟩, fun log s' session => ?_⟩
    cases session
    exact ⟨procs, h, .none _ _⟩
  | cons o os ih =>
    intro s procs h room
    obtain ⟨r, s₁, procs₁, gives, keeps, apart⟩ := h.operation room (for_steps o List.mem_cons_self)
    obtain ⟨us, returns⟩ := gives.returns
    obtain ⟨⟨log₁, s₂, rest⟩, every⟩ := ih (fun o mem => for_steps o (List.mem_cons_of_mem _ mem))
      keeps (Code.returns_hasRoom returns room)
    refine ⟨⟨_, s₂, .next gives rest⟩, fun log s' session => ?_⟩
    cases session with
    | next gives' rest' =>
      obtain ⟨rfl, rfl⟩ := gives.unique gives'
      obtain ⟨procs₂, keeps₂, apart₂⟩ := every _ _ rest'
      exact ⟨procs₂, keeps₂, apart.append apart₂⟩

theorem Keeps.phase (h : bodies.Keeps s.operations s procs) (id : CoroutineId) :
    s.phase id = (procs id).map fun _ => .yielded := by
  have phase : s.phase id = (s.operations.lookup id).map (·.phase) := by
    cases hb : s.env.bridge <;> simp [State.phase, State.operations, hb, CoroutineTable.phase]
  rw [phase]
  cases hp : procs id with
  | none => rw [h.free hp]; rfl
  | some p =>
    obtain ⟨n, there, -⟩ := h.kept hp
    rw [there]
    rfl

end Bodies

/-- **Interleaving.** Let the operations of a state be suspended on coroutines that are processes,
and let there be a level of invocation left. Then all requests for steps, in whatever order and with
whatever is staged between them, are answered. The requests for each name are answered as a process
driven alone answers to them, and the name is free at the end unless that process is left. -/
theorem interleaved_operations {host : Host} {K : List Frame} {bodies : Bodies host K} {s : State}
    {procs : CoroutineId → Option Process} (h : bodies.Keeps s.operations s procs)
    (room : s.HasRoom) (os : List Operation) (for_steps : ∀ o ∈ os, o.ForSteps) :
    (∃ log s', Session host K s os log s') ∧
    ∀ log s', Session host K s os log s' → ∀ id,
      (requestsFor id log).map (·.result) =
        (drive bodies.begin id (procs id) ((requestsFor id log).map (·.input))).1 ∧
      s'.phase id =
        (drive bodies.begin id (procs id) ((requestsFor id log).map (·.input))).2.map
          fun _ => .yielded := by
  obtain ⟨run, every⟩ := Bodies.Keeps.session os for_steps h room
  refine ⟨run, fun log s' session id => ?_⟩
  obtain ⟨procs', keeps, apart⟩ := every log s' session
  rw [show drive _ _ _ _ = _ from apart id]
  exact ⟨rfl, keeps.phase id⟩

/-! ### Functions that suspend their coroutine -/

/-- Gives back what it is resumed with, once as a yield and then as a return. -/
def echo : Process
  | [args] => .yields args
  | [_, args] => .returns args
  | _ => .returns []

namespace Echo

open Script

/-- The coroutine of `echo` between its two steps. -/
def between : ThreadState :=
  .suspended [.activation ⟨.outside, 1, 2, true⟩]

/-- A coroutine goes on as `echo`, from its begin or from between its steps. -/
def At (threads : Array ThreadState) (n : Nat) (p : Process) : Prop :=
  threads[n]? = some (.fresh (.builtin .coroutineYield)) ∧ p = echo ∨
    threads[n]? = some between ∧ ∃ args, p = echo.after args

theorem At.of_eq {threads threads' : Array ThreadState} {n : Nat} {p : Process}
    (h : threads'[n]? = threads[n]?) (own : At threads n p) : At threads' n p := by
  rw [At, h]
  exact own

theorem At.lt {threads : Array ThreadState} {n : Nat} {p : Process} (own : At threads n p) :
    n < threads.size := by
  rcases own with ⟨there, -⟩ | ⟨there, -⟩ <;> exact (Array.getElem?_eq_some_iff.mp there).1

theorem At.setThread {m : Memory} {n n' : Nat} {t : ThreadState} {p : Process} (other : n' ≠ n)
    (own : At m.threads n' p) : At (m.setThread n t).threads n' p :=
  own.of_eq (Array.getElem?_setIfInBounds_ne (Ne.symm other))

variable {host : Host} {s : State} {o o' : Open} {k k' : Reply → Code} {n : Nat}

/-- A coroutine that is new is suspended with what it is passed. -/
theorem gives_fresh (fresh : s.env.memory.threads[n]? = some (.fresh (.builtin .coroutineYield)))
    (args : List Value) :
    (Code.resumeThread n args).Gives host [.scope o k, .scope o' k'] s (.suspended args)
      (s.setMemory ((s.env.memory.setThread n .active).setThread n between)) := by
  have resumed (base : Base) :
      Script.State.step ⟨s.env.memory, .resume n args .host, [], base⟩ =
        .next ⟨s.env.memory.setThread n .active, .call (.builtin .coroutineYield) args .outside,
          [.boundary n .host], base⟩ := by
    simp [Script.State.step, Script.State.resume, fresh, Script.State.push]
  refine .step rfl (List.suffix_cons _ _) (.script (resumed _) (List.suffix_cons _ _) ?_)
  exact .script rfl (List.suffix_cons _ _) (.settle rfl List.suffix_rfl (.done _))

/-- Between its steps it returns what it is passed. -/
theorem gives_between (there : s.env.memory.threads[n]? = some between) (args : List Value) :
    (Code.resumeThread n args).Gives host [.scope o k, .scope o' k'] s (.answer (.values args))
      (s.setMemory ((s.env.memory.setThread n .active).setThread n .dead)) := by
  have resumed (base : Base) :
      Script.State.step ⟨s.env.memory, .resume n args .host, [], base⟩ =
        .next ⟨s.env.memory.setThread n .active, .give args,
          [.activation ⟨.outside, 1, 2, true⟩, .boundary n .host], base⟩ := by
    simp [Script.State.step, Script.State.resume, there, Script.State.go, between]
  refine .step rfl (List.suffix_cons _ _) (.script (resumed _) (List.suffix_cons _ _) ?_)
  refine .script rfl (List.suffix_cons _ _) (.script rfl (List.suffix_cons _ _) ?_)
  exact .settle rfl List.suffix_rfl (.done _)

/-- The coroutines of a session whose host holds no function but the one that suspends its
coroutine. -/
def bodies (host : Host) : Bodies host [] where
  begin _ := echo
  Fit s := ∀ c f, s.resolve c = .ok f → f = .builtin .coroutineYield
  At s n p := At s.env.memory.threads n p
  fit_alike same fit c f hf := fit c f ((same.resolve c).symm.trans hf)
  at_alike same own := own.of_eq (by rw [same.memory])
  fit_new _ fit := fit
  at_new hf fit := .inl ⟨by simp [CardBridge.State.addThread, Memory.addThread, fit _ _ hf], rfl⟩
  at_other own := own.of_eq (by
    simp [CardBridge.State.addThread, Memory.addThread, Array.getElem?_push, Nat.ne_of_lt own.lt])
  resumes {s n p o o' k k'} fit own args := by
    obtain ⟨fresh, rfl⟩ | ⟨there, before, rfl⟩ := id own
    · refine ⟨_, gives_fresh fresh args, rfl, fit, fun vs eq => .inr ⟨?_, args, rfl⟩,
        fun n' p' other own' => (own'.setThread other).setThread other⟩
      simp [Memory.setThread, own.lt]
    · refine ⟨_, gives_between there args, rfl, fit, (nofun),
        fun n' p' other own' => (own'.setThread other).setThread other⟩

end Echo

open Machine Host

/-- A first environment, whose host holds a function that suspends the coroutine that it runs on. -/
def echoing : State :=
  ⟨(Blueprint.plain ⟨1⟩).environment 0, twoAccounts⟩

theorem echoing_keeps : (Echo.bodies idle).Keeps echoing.operations echoing fun _ => none where
  fit c f hf := by
    obtain ⟨i⟩ := c
    match i with
    | 0 =>
      cases hf
      rfl
    | 1 => cases hf
    | n + 2 => simp [State.resolve, State.isValid, echoing, twoAccounts] at hf
  free _ := rfl
  kept h := nomatch h
  apart h := nomatch h
  there h := nomatch h

/-- Two operations take turns, and the one that is done is asked for once more. -/
theorem interleaved_operations_echo : ∃ os log s', Session idle [] echoing os log s' ∧
    (requestsFor ⟨7⟩ log).map (·.result) =
      [⟨.yield, some 1, none⟩, ⟨.finish, some 2, none⟩,
        .failed (.coroutine ⟨7⟩ .unknown)] ∧
    (requestsFor ⟨8⟩ log).map (·.result) = [⟨.yield, none, none⟩] ∧
    s'.phase ⟨7⟩ = none ∧ s'.phase ⟨8⟩ = some .yielded := by
  let os : List Operation := [.stage .call false (.int 1), .callCoroutine ⟨0⟩ 1 ⟨7⟩ 0,
    .callCoroutine ⟨0⟩ 0 ⟨8⟩ 0, .stage .resume false (.int 2), .callCoroutine ⟨0⟩ 0 ⟨7⟩ 1,
    .callCoroutine ⟨0⟩ 0 ⟨7⟩ 1]
  obtain ⟨log, s', session, seven, eight⟩ : ∃ log s', Session idle [] echoing os log s' ∧
      drive (fun _ => echo) ⟨7⟩ none ((requestsFor ⟨7⟩ log).map (·.input)) =
        ([⟨.yield, some 1, none⟩, ⟨.finish, some 2, none⟩, .failed (.coroutine ⟨7⟩ .unknown)],
          none) ∧
      drive (fun _ => echo) ⟨8⟩ none ((requestsFor ⟨8⟩ log).map (·.input)) =
        ([⟨.yield, none, none⟩], some (echo.after [])) := by
    refine ⟨_, _, .next (steps_of_ended 60 _ rfl) <| .next (steps_of_ended 60 _ rfl) <|
      .next (steps_of_ended 60 _ rfl) <| .next (steps_of_ended 60 _ rfl) <|
      .next (steps_of_ended 60 _ rfl) <| .next (steps_of_ended 60 _ rfl) <| .done _, ?_, ?_⟩
    · rfl
    · rfl
  have for_steps : ∀ o ∈ os, o.ForSteps := by simp [os, Operation.ForSteps]
  have alone := (interleaved_operations echoing_keeps ⟨_, rfl, by decide⟩ os for_steps).2 log s'
    session
  refine ⟨os, log, s', session, ?_⟩
  rw [(alone ⟨7⟩).1, (alone ⟨7⟩).2, (alone ⟨8⟩).1, (alone ⟨8⟩).2]
  change (drive (fun _ => echo) _ _ _).1 = _ ∧ (drive (fun _ => echo) _ _ _).1 = _ ∧
    (drive (fun _ => echo) _ _ _).2.map _ = _ ∧ (drive (fun _ => echo) _ _ _).2.map _ = _
  rw [seven, eight]
  exact ⟨rfl, rfl, rfl, rfl⟩

end CardBridge
