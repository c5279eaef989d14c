import CardBridge.Proofs.MemoryEdits
import CardBridge.Session.Update

/-!
# What a step does to the state

Whatever a session is at work on, one step does one of five things to its state : nothing, edits of
the memory by a script, a change by host code, the begin of a scope or the end of the innermost one.
An `Effect` is such a step, with the scopes that are open before and after it and the changes that
host code makes in it.

Most of an environment is out of reach of most effects. The lemmas on `env` and `journal` say of
each change what it can reach, and facts about one part of the bookkeeping are read off them.
-/

namespace CardBridge

open Script (Value Memory)

/-! ## Memory -/

theorem setGlobal_edits {m m' : Memory} (h : m.Edits m') (name : String) (v : Value) :
    m.Edits (setGlobal m' name v) :=
  h.rawSet _ _ _

theorem addSelfIndexed_edits {m m' : Memory} (h : m.Edits m') (metatable : Option Nat) :
    m.Edits (addSelfIndexed m' metatable).2 :=
  (h.edit (.addTable m' _)).rawSet _ _ _

theorem classTable_edits {m m' : Memory} (h : m.Edits m') (name : String) :
    m.Edits (classTable m' name).2 := by
  unfold classTable
  split
  · exact h
  · exact setGlobal_edits (addSelfIndexed_edits h none) _ _

namespace State

variable (s : State)

theorem beginLoading_eq (code : UInt32) :
    ∃ m, s.env.memory.Edits m ∧ s.beginLoading code = s.setMemory m := by
  have class_edits := classTable_edits (.refl s.env.memory) ObjectKind.card.className
  unfold beginLoading
  exact ⟨_, setGlobal_edits (setGlobal_edits (setGlobal_edits
    (addSelfIndexed_edits class_edits _) _ _) _ _) _ _, rfl⟩

theorem endLoading_eq (cls : String) (table code : Value) (failed : Bool) :
    ∃ m, s.env.memory.Edits m ∧ s.endLoading cls table code failed = s.setMemory m := by
  have restored := setGlobal_edits (setGlobal_edits (.refl s.env.memory) classGlobal table)
    codeGlobal code
  unfold endLoading
  cases failed
  · exact ⟨_, restored, rfl⟩
  · exact ⟨_, setGlobal_edits restored _ _, rfl⟩

/-! ## Environments -/

@[simp] theorem updateBridge_env (f : Bridge → Bridge) :
    (s.updateBridge f).env = { s.env with bridge := s.env.bridge.map f } :=
  rfl

@[simp] theorem setMemory_env (m : Memory) :
    (s.setMemory m).env = { s.env with memory := m } :=
  rfl

@[simp] theorem record_env (e : Event) : (s.record e).env = s.env :=
  rfl

@[simp] theorem emit_env (kind : MessageKind) (text : String) :
    (s.emit kind text).env = s.env := by
  unfold emit
  split
  · split <;> rfl
  · rfl

@[simp] theorem hold_env (slot : String) (f : Value) : (s.hold slot f).env = s.env := by
  unfold hold
  split <;> rfl

@[simp] theorem copySlot_env (source target : String) :
    (s.copySlot source target).env = s.env := by
  unfold copySlot
  split <;> rfl

@[simp] theorem clear_env (q : Queue) :
    (s.clear q).env = { s.env with bridge := s.env.bridge.map (·.setQueue q []) } :=
  rfl

/-- What staging an argument makes of a queue. -/
def push (front : Bool) (a : Argument) (q : ArgumentQueue) : ArgumentQueue :=
  if front then q.pushFront a else q.pushBack a

@[simp] theorem stage_env (q : Queue) (front : Bool) (a : Argument) :
    (s.stage q front a).env = { s.env with
      bridge := s.env.bridge.map fun b => b.setQueue q (push front a (b.queue q)) } := by
  obtain ⟨⟨_, _, _, bridge, _, _, _, _⟩, _⟩ := s
  cases bridge <;> rfl

@[simp] theorem leaveGuard_env :
    s.leaveGuard.env = { s.env with
      bridge := s.env.bridge.map fun b => { b with depth := b.depth.leave } } := by
  obtain ⟨⟨_, _, _, bridge, _, _, _, _⟩, _⟩ := s
  cases bridge with
  | none => rfl
  | some b =>
    unfold leaveGuard
    dsimp only
    split
    · split <;> rfl
    · rfl

/-- A report writes into the buffer of messages. -/
theorem report_env (site : String) (f : Failure) :
    ∃ messages, (s.report site f).env = { s.env with
      bridge := s.env.bridge.map fun b => { b with messages } } := by
  obtain ⟨⟨_, _, _, bridge, _, _, _, _⟩, _⟩ := s
  unfold report
  dsimp only
  cases bridge with
  | none =>
    refine ⟨.new 0, ?_⟩
    split <;> simp
  | some b =>
    refine ⟨(b.messages.formatCut (reportPieces site (splitTraceback f.message.toList).1)).2, ?_⟩
    split
    · dsimp only
      split <;> simp
    · rw [emit_env]
      dsimp only
      split <;> simp

/-- What is kept by every change of the buffer of messages and by every message is kept by a
report. -/
theorem report_induction {P : State → Prop}
    (noted : ∀ s messages, P s → P (s.updateBridge fun b => { b with messages }))
    (sent : ∀ s kind text, P s → P (s.emit kind text)) (h : P s) (site : String) (f : Failure) :
    P (s.report site f) := by
  unfold report
  dsimp only
  cases s.env.bridge with
  | none =>
    split
    · exact h
    · exact sent _ _ _ h
  | some b =>
    dsimp only
    have head (messages : MessageBuffer) := noted s messages h
    split <;> split
    · exact head _
    · exact sent _ _ _ (head _)
    · exact sent _ _ _ (head _)
    · exact sent _ _ _ (sent _ _ _ (head _))

theorem register_of_known {b : Bridge} (hb : s.env.bridge = some b) {o : ObjectRef} {n : Nat}
    (known : b.registry.payload o = some n) (cls : Option String) :
    s.register o cls = s.refresh o n cls := by
  simp only [register, hb, known]

theorem register_of_unknown {b : Bridge} (hb : s.env.bridge = some b) {o : ObjectRef}
    (unknown : b.registry.payload o = none) (cls : Option String) :
    s.register o cls = { s with env := { s.env with
      objects := s.env.objects.push ⟨⟨b.registry.last + 1⟩, o, false, cls⟩
      bridge := some { b with registry :=
        b.registry.allocate.2.insertWith ⟨b.registry.last + 1⟩ o s.env.objects.size } } } := by
  simp only [register, hb, unknown, allocateHandle, makeObject, enterObject, updateBridge,
    Option.map_some]
  rfl

/-- An object that is to be registered anew is not known, and the environment is not a foreign
one. -/
theorem unknown_of_isNew {o : ObjectRef} (new : s.isNew o = true) :
    ∃ b, s.env.bridge = some b ∧ b.registry.payload o = none := by
  unfold State.isNew at new
  cases hb : s.env.bridge with
  | none => simp [hb] at new
  | some b => exact ⟨b, rfl, by simpa [hb] using new⟩

/-- Registering is between the game objects and the registry. -/
theorem register_env (o : ObjectRef) (cls : Option String) :
    ∃ objects registry, (s.register o cls).env = { s.env with
      objects
      bridge := s.env.bridge.map fun b => { b with registry } } := by
  obtain ⟨⟨_, _, objects, bridge, _, _, _, _⟩, _⟩ := s
  unfold register
  cases bridge with
  | none => exact ⟨objects, .empty, rfl⟩
  | some b =>
    dsimp only
    split
    · unfold refresh
      split
      · exact ⟨_, b.registry, rfl⟩
      · exact ⟨objects, b.registry, rfl⟩
    · exact ⟨_, _, rfl⟩

theorem register_shared (o : ObjectRef) (cls : Option String) :
    (s.register o cls).shared = s.shared := by
  unfold register
  split
  · rfl
  case h_2 hb =>
    split
    · unfold refresh
      split <;> rfl
    · simp [allocateHandle, hb, makeObject, enterObject, updateBridge]

/-- Unregistering is between the game objects and the registry. -/
theorem unregister_env (o : ObjectRef) :
    ∃ objects registry, (s.unregister o).env = { s.env with
      objects
      bridge := s.env.bridge.map fun b => { b with registry } } := by
  obtain ⟨⟨_, _, objects, bridge, _, _, _, _⟩, _⟩ := s
  cases bridge with
  | none => exact ⟨objects, .empty, rfl⟩
  | some b => exact ⟨_, (b.registry.remove o).2, rfl⟩

theorem unregister_shared (o : ObjectRef) : (s.unregister o).shared = s.shared := by
  unfold unregister
  split <;> rfl

end State

/-! ## Changes -/

namespace Update

/-- What a change makes of the arguments in a queue. -/
def onQueue (q : Queue) (args : ArgumentQueue) : Update → ArgumentQueue
  | stage q' front a => if q' = q then State.push front a args else args
  | clear q' => if q' = q then [] else args
  | _ => args

/-- What a change makes of the table of operations. -/
def onCoroutines (t : CoroutineTable Nat) : Update → CoroutineTable Nat
  | abandon id => (t.abandon id).2
  | _ => t

/-- A change is made to the memory, the game objects and the bookkeeping. -/
theorem apply_env (u : Update) (s : State) :
    ∃ memory objects bridge, (u.apply s).env = { s.env with memory, objects, bridge } := by
  cases u with
  | report site f =>
    obtain ⟨messages, h⟩ := s.report_env site f
    exact ⟨_, _, _, h⟩
  | register o cls =>
    obtain ⟨objects, registry, h⟩ := s.register_env o cls
    exact ⟨_, _, _, h⟩
  | unregister o =>
    obtain ⟨objects, registry, h⟩ := s.unregister_env o
    exact ⟨_, _, _, h⟩
  | stage q front a => exact ⟨_, _, _, s.stage_env q front a⟩
  | emit kind text => exact ⟨_, _, _, s.emit_env kind text⟩
  | hold slot f => exact ⟨_, _, _, s.hold_env slot f⟩
  | copySlot source target => exact ⟨_, _, _, s.copySlot_env source target⟩
  | clear | abandon | dropSlot | makeClass | makeTable | addChunk | called | ended =>
    exact ⟨_, _, _, rfl⟩

/-- A foreign environment stays one. -/
theorem apply_foreign (u : Update) {s : State} (h : s.env.bridge = none) :
    (u.apply s).env.bridge = none := by
  cases u with
  | report site f =>
    obtain ⟨messages, e⟩ := s.report_env site f
    simp [apply, e, h]
  | register o cls =>
    obtain ⟨objects, registry, e⟩ := s.register_env o cls
    simp [apply, e, h]
  | unregister o =>
    obtain ⟨objects, registry, e⟩ := s.unregister_env o
    simp [apply, e, h]
  | stage | clear | abandon | emit | hold | copySlot | dropSlot | makeClass | makeTable | addChunk
  | called | ended => simp [apply, h]

/-- Of the bookkeeping, a change reaches the registry, the queues, the table of operations and the
buffer of messages. -/
theorem apply_bridge (u : Update) {s : State} {b : Bridge} (h : s.env.bridge = some b) :
    ∃ registry messages, (u.apply s).env.bridge = some { b with
      registry
      messages
      params := u.onQueue .call b.params
      resumes := u.onQueue .resume b.resumes
      coroutines := u.onCoroutines b.coroutines } := by
  cases u with
  | report site f =>
    obtain ⟨messages, e⟩ := s.report_env site f
    exact ⟨b.registry, messages, by simp [apply, e, h, onQueue, onCoroutines]⟩
  | register o cls =>
    obtain ⟨objects, registry, e⟩ := s.register_env o cls
    exact ⟨registry, b.messages, by simp [apply, e, h, onQueue, onCoroutines]⟩
  | unregister o =>
    obtain ⟨objects, registry, e⟩ := s.unregister_env o
    exact ⟨registry, b.messages, by simp [apply, e, h, onQueue, onCoroutines]⟩
  | stage q | clear q =>
    refine ⟨b.registry, b.messages, ?_⟩
    cases q <;> simp [apply, h, onQueue, onCoroutines, Bridge.queue, Bridge.setQueue]
  | abandon | emit | hold | copySlot | dropSlot | makeClass | makeTable | addChunk | called
  | ended => exact ⟨b.registry, b.messages, by simp [apply, h, onQueue, onCoroutines]⟩

/-- The memory is edited by a change. -/
theorem apply_memory (u : Update) (s : State) :
    s.env.memory.Edits (u.apply s).env.memory := by
  have h := Memory.Edits.refl s.env.memory
  cases u with
  | report site f =>
    obtain ⟨messages, e⟩ := s.report_env site f
    simpa [apply, e] using h
  | register o cls =>
    obtain ⟨objects, registry, e⟩ := s.register_env o cls
    simpa [apply, e] using h
  | unregister o =>
    obtain ⟨objects, registry, e⟩ := s.unregister_env o
    simpa [apply, e] using h
  | makeClass name => exact classTable_edits h name
  | makeTable vs => exact h.edit (.addTable _ _)
  | addChunk chunk body => exact h.edit (.addClosure _ _)
  | stage | clear | abandon | emit | hold | copySlot | dropSlot | called | ended =>
    simpa [apply] using h

end Update

/-! ## Scopes -/

namespace Scope

variable {s s' : State} {o : Open}

theorem enter_guard (h : guard.enter s = .ok (o, s')) :
    o = .guard ∧ ∃ b depth, s.env.bridge = some b ∧ b.depth.enter? = some depth ∧
      s' = s.updateBridge fun b => { b with depth } := by
  simp only [enter, State.enterGuard] at h
  split at h
  case h_1 => cases h
  case h_2 b hb =>
    split at h
    case h_1 => cases h
    case h_2 depth hd =>
      cases h
      exact ⟨rfl, b, depth, hb, hd, rfl⟩

theorem enter_query (h : query.enter s = .ok (o, s')) :
    o = .query ∧ s' = s.updateBridge fun b => { b with noAction := b.noAction + 1 } := by
  cases h
  exact ⟨rfl, rfl⟩

theorem enter_proceed {id : CoroutineId} (h : (proceed id).enter s = .ok (o, s')) :
    ∃ b e, s.env.bridge = some b ∧ b.coroutines.lookup id = some e ∧
      e.phase.canBecome .running = true ∧ o = .step id e.payload ∧
      s' = s.updateBridge fun b =>
        { b with coroutines := Keyed.put id { e with phase := .running } b.coroutines } := by
  simp only [enter, State.beginStep] at h
  split at h
  case h_1 => cases h
  case h_2 b hb =>
    cases he : b.coroutines.lookup id with
    | none =>
      rw [CoroutineTable.begin, he] at h
      cases h
    | some e =>
      rw [CoroutineTable.begin, he] at h
      by_cases hp : e.phase.canBecome .running = true
      · dsimp only at h
        rw [if_pos hp] at h
        cases h
        refine ⟨b, e, hb, he, hp, rfl, ?_⟩
        simp [State.updateBridge, hb]
      · dsimp only at h
        rw [if_neg hp] at h
        cases h

theorem enter_start {id : CoroutineId} {f : Value} (h : (start id f).enter s = .ok (o, s')) :
    ∃ b, s.env.bridge = some b ∧ b.coroutines.lookup id = none ∧
      o = .step id s.env.memory.threads.size ∧
      s' = (s.setMemory (s.env.memory.addThread f).2).updateBridge fun b =>
        { b with coroutines :=
          Keyed.put id ⟨.running, s.env.memory.threads.size⟩ b.coroutines } := by
  simp only [enter, State.startStep] at h
  split at h
  case h_1 => cases h
  case h_2 b hb =>
    cases hl : b.coroutines.lookup id with
    | some e =>
      rw [CoroutineTable.create, hl] at h
      cases h
    | none =>
      rw [CoroutineTable.create, hl] at h
      simp only [bind, Except.bind, State.beginStep, State.updateBridge_env, State.setMemory_env,
        hb, Option.map_some, CoroutineTable.begin, Keyed.lookup_put_self] at h
      cases h
      refine ⟨b, hb, hl, rfl, ?_⟩
      simp [State.updateBridge, hb, Memory.addThread]

theorem enter_loading {code : UInt32} (h : (loading code).enter s = .ok (o, s')) :
    o = .loading (scriptClass code) (s.global State.classGlobal) (s.global State.codeGlobal) ∧
      ∃ m, s.env.memory.Edits m ∧ s' = s.setMemory m := by
  cases h
  exact ⟨rfl, s.beginLoading_eq code⟩

theorem enter_holding {cs : List Callable} (h : (holding cs).enter s = .ok (o, s')) :
    o = .holding cs ∧ s' = { s with shared := cs.foldl Shared.own s.shared } := by
  cases h
  exact ⟨rfl, rfl⟩

end Scope

namespace Open

/-- What the begin of a scope makes of the depth, if that allows it. -/
def enterDepth (d : CallDepth) : Open → Option CallDepth
  | guard => d.enter?
  | _ => some d

/-- What the end of a scope makes of the depth. -/
def leaveDepth (d : CallDepth) : Open → CallDepth
  | guard => d.leave
  | _ => d

/-- What the begin of a scope makes of the table of operations. -/
def enterCoroutines (t : CoroutineTable Nat) : Open → CoroutineTable Nat
  | step id thread => Keyed.put id ⟨.running, thread⟩ t
  | _ => t

/-- What the end of a scope makes of the table of operations. -/
def leaveCoroutines (r : Reply) (t : CoroutineTable Nat) : Open → CoroutineTable Nat
  | step id _ => (t.finishStep id (State.phaseAfter r)).toOption.getD t
  | _ => t

end Open

/-- Of the bookkeeping, the begin of a scope reaches the depth, the table of operations and the
count of queries. -/
theorem Scope.enter_bridge {scope : Scope} {s s' : State} {o : Open} {b : Bridge}
    (h : scope.enter s = .ok (o, s')) (hb : s.env.bridge = some b) :
    s'.env.objects = s.env.objects ∧
      ∃ depth noAction, o.enterDepth b.depth = some depth ∧ s'.env.bridge = some { b with
        depth
        noAction
        coroutines := o.enterCoroutines b.coroutines } := by
  cases scope with
  | guard =>
    obtain ⟨rfl, b₁, depth, hb₁, hd, rfl⟩ := Scope.enter_guard h
    cases hb.symm.trans hb₁
    exact ⟨rfl, depth, b.noAction, hd, by simp [hb, Open.enterCoroutines]⟩
  | query =>
    obtain ⟨rfl, rfl⟩ := Scope.enter_query h
    exact ⟨rfl, b.depth, b.noAction + 1, rfl, by simp [hb, Open.enterCoroutines]⟩
  | start id f =>
    obtain ⟨b₁, hb₁, -, rfl, rfl⟩ := Scope.enter_start h
    cases hb.symm.trans hb₁
    exact ⟨rfl, b.depth, b.noAction, rfl, by simp [hb, Open.enterCoroutines]⟩
  | proceed id =>
    obtain ⟨b₁, e, hb₁, -, -, rfl, rfl⟩ := Scope.enter_proceed h
    cases hb.symm.trans hb₁
    exact ⟨rfl, b.depth, b.noAction, rfl, by simp [hb, Open.enterCoroutines]⟩
  | loading code =>
    obtain ⟨rfl, m, -, rfl⟩ := Scope.enter_loading h
    exact ⟨rfl, b.depth, b.noAction, rfl, hb⟩
  | holding cs =>
    obtain ⟨rfl, rfl⟩ := Scope.enter_holding h
    exact ⟨rfl, b.depth, b.noAction, rfl, hb⟩

/-- The same is in reach of the end of a scope. -/
theorem Open.leave_bridge (o : Open) (r : Reply) {s : State} {b : Bridge}
    (hb : s.env.bridge = some b) :
    (o.leave s r).env.objects = s.env.objects ∧
      ∃ noAction, (o.leave s r).env.bridge = some { b with
        noAction
        depth := o.leaveDepth b.depth
        coroutines := o.leaveCoroutines r b.coroutines } := by
  cases o with
  | guard => simp [leave, hb, leaveDepth, leaveCoroutines]
  | query => simp [leave, hb, leaveDepth, leaveCoroutines]
  | step id t =>
    refine ⟨rfl, b.noAction, ?_⟩
    simp only [leave, State.endStep, State.updateBridge_env, hb, Option.map_some, leaveDepth,
      leaveCoroutines]
    cases b.coroutines.finishStep id (State.phaseAfter r) <;> rfl
  | loading cls table code =>
    obtain ⟨m, -, e⟩ := s.endLoading_eq cls table code r.isFailure
    rw [leave, e]
    exact ⟨rfl, b.noAction, hb⟩
  | holding cs => exact ⟨rfl, b.noAction, hb⟩

/-! ## Effects -/

/-- What one step does to the state : from which state, with which scopes open, by which changes of
host code, to which state and with which scopes open then. -/
inductive Effect (s : State) : List Open → List Update → State → List Open → Prop
  | quiet {os : List Open} : Effect s os [] s os
  | script {os : List Open} {m : Memory} (h : s.env.memory.Edits m) :
    Effect s os [] (s.setMemory m) os
  | write {os : List Open} (u : Update) : Effect s os [u] (u.apply s) os
  | enter {os : List Open} (scope : Scope) {o : Open} {s' : State}
    (h : scope.enter s = .ok (o, s')) : Effect s os [] s' (o :: os)
  | leave {os : List Open} (o : Open) (r : Reply) : Effect s (o :: os) [] (o.leave s r) os

namespace Effect

variable {s s' : State} {os os' : List Open} {us : List Update}

/-- An effect is on the memory, the game objects and the bookkeeping. -/
theorem env_eq (h : Effect s os us s' os') :
    ∃ memory objects bridge, s'.env = { s.env with memory, objects, bridge } := by
  cases h with
  | quiet | script => exact ⟨_, _, _, rfl⟩
  | write u => exact u.apply_env s
  | enter scope h =>
    cases scope with
    | guard =>
      obtain ⟨-, b, depth, -, -, rfl⟩ := Scope.enter_guard h
      exact ⟨_, _, _, rfl⟩
    | query =>
      obtain ⟨-, rfl⟩ := Scope.enter_query h
      exact ⟨_, _, _, rfl⟩
    | start id f =>
      obtain ⟨b, -, -, -, rfl⟩ := Scope.enter_start h
      exact ⟨_, _, _, rfl⟩
    | proceed id =>
      obtain ⟨b, e, -, -, -, -, rfl⟩ := Scope.enter_proceed h
      exact ⟨_, _, _, rfl⟩
    | loading code =>
      obtain ⟨-, m, -, rfl⟩ := Scope.enter_loading h
      exact ⟨_, _, _, rfl⟩
    | holding cs =>
      obtain ⟨-, rfl⟩ := Scope.enter_holding h
      exact ⟨_, _, _, rfl⟩
  | leave o r =>
    cases o with
    | guard => exact ⟨_, _, _, s.leaveGuard_env⟩
    | loading cls table code =>
      obtain ⟨m, -, e⟩ := s.endLoading_eq cls table code r.isFailure
      rw [Open.leave, e]
      exact ⟨_, _, _, rfl⟩
    | query | step | holding => exact ⟨_, _, _, rfl⟩

/-- A foreign environment stays one. -/
theorem foreign (h : Effect s os us s' os') (hb : s.env.bridge = none) : s'.env.bridge = none := by
  cases h with
  | quiet | script => exact hb
  | write u => exact u.apply_foreign hb
  | enter scope h =>
    cases scope with
    | guard =>
      obtain ⟨-, b, depth, hb', -, -⟩ := Scope.enter_guard h
      cases hb.symm.trans hb'
    | query =>
      obtain ⟨-, rfl⟩ := Scope.enter_query h
      simp [hb]
    | start id f =>
      obtain ⟨b, hb', -⟩ := Scope.enter_start h
      cases hb.symm.trans hb'
    | proceed id =>
      obtain ⟨b, e, hb', -⟩ := Scope.enter_proceed h
      cases hb.symm.trans hb'
    | loading code =>
      obtain ⟨-, m, -, rfl⟩ := Scope.enter_loading h
      exact hb
    | holding cs =>
      obtain ⟨-, rfl⟩ := Scope.enter_holding h
      exact hb
  | leave o r =>
    cases o with
    | guard | query | step => simp [Open.leave, State.endStep, hb]
    | loading cls table code =>
      obtain ⟨m, -, e⟩ := s.endLoading_eq cls table code r.isFailure
      rw [Open.leave, e]
      exact hb
    | holding => exact hb

/-- The memory is edited by whatever happens. -/
theorem memory_edits (h : Effect s os us s' os') : s.env.memory.Edits s'.env.memory := by
  cases h with
  | quiet => exact .refl _
  | script h => exact h
  | write u => exact u.apply_memory s
  | enter scope h =>
    cases scope with
    | guard =>
      obtain ⟨-, b, depth, -, -, rfl⟩ := Scope.enter_guard h
      exact .refl _
    | query =>
      obtain ⟨-, rfl⟩ := Scope.enter_query h
      exact .refl _
    | start id f =>
      obtain ⟨b, -, -, -, rfl⟩ := Scope.enter_start h
      exact (Memory.Edits.refl _).edit (.addThread _ f)
    | proceed id =>
      obtain ⟨b, e, -, -, -, -, rfl⟩ := Scope.enter_proceed h
      exact .refl _
    | loading code =>
      obtain ⟨-, m, edits, rfl⟩ := Scope.enter_loading h
      exact edits
    | holding cs =>
      obtain ⟨-, rfl⟩ := Scope.enter_holding h
      exact .refl _
  | leave o r =>
    cases o with
    | guard =>
      simp only [Open.leave, State.leaveGuard_env]
      exact .refl _
    | loading cls table code =>
      obtain ⟨m, edits, e⟩ := s.endLoading_eq cls table code r.isFailure
      rw [Open.leave, e]
      exact edits
    | query | step | holding => exact .refl _

end Effect

end CardBridge
