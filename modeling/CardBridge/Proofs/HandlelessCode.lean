import CardBridge.Proofs.Handles
import CardBridge.Proofs.Paths
import CardBridge.Session.Operation

/-!
# Code without handles

Three operations have to do with handles : two register objects and answer with a handle, one
unregisters. Of all the others `Operation.handleless` says that nothing that they do themselves
gives an object a handle or takes it away, and that no handle is what they come to. So a handle that
an operation has answered with comes from a registration (`Operation.registers_of_handle`).
-/

namespace CardBridge

open Script (Value)

/-- A reply that is not a handle. -/
def Reply.NoHandle (r : Reply) : Prop :=
  ∀ h, r ≠ .answer (.handle h)

namespace Code

/-- Host code that, on all ways through it, leaves the handles of all objects alone and does not
answer with one. -/
def Handleless (c : Code) : Prop :=
  ∀ us r, c.Path us r → (∀ u ∈ us, ∀ o, ¬ u.Rebinds o) ∧ r.NoHandle

theorem handleless_finish {r : Reply} (h : r.NoHandle) : (finish r).Handleless := by
  intro us r' path
  obtain ⟨rfl, rfl⟩ := path_finish path
  exact ⟨nofun, h⟩

theorem handleless_fail (f : Failure) : (fail f).Handleless :=
  handleless_finish nofun

theorem handleless_raised (text : String) : (finish (.raised text)).Handleless :=
  handleless_finish nofun

theorem handleless_values (vs : List Value) : (values vs).Handleless :=
  handleless_finish nofun

theorem handleless_read {k : State → Code} (h : ∀ s, (k s).Handleless) : (read k).Handleless := by
  intro us r path
  cases path with
  | read s path => exact h s us r path

theorem handleless_write {u : Update} {c : Code} (hu : ∀ o, ¬ u.Rebinds o) (h : c.Handleless) :
    (write u c).Handleless := by
  intro us r path
  cases path with
  | write path =>
    obtain ⟨others, answers⟩ := h _ r path
    exact ⟨List.forall_mem_cons.mpr ⟨hu, others⟩, answers⟩

theorem handleless_run {task : Task} {k : Script.Completion → Code} (h : ∀ c, (k c).Handleless) :
    (run task k).Handleless := by
  intro us r path
  cases path with
  | run c path => exact h c us r path

theorem handleless_trace {k : List TraceLine → Code} (h : ∀ ls, (k ls).Handleless) :
    (trace k).Handleless := by
  intro us r path
  cases path with
  | trace ls path => exact h ls us r path

theorem handleless_attempt {task : Task} {k : List Value → Code} {failed : String → Code}
    (hk : ∀ vs, (k vs).Handleless) (hf : ∀ text, (failed text).Handleless) :
    (attempt task k failed).Handleless := by
  intro us r path
  obtain ⟨vs, path⟩ | ⟨text, path⟩ := path_attempt path
  · exact hk vs us r path
  · exact hf text us r path

theorem handleless_andThen {c : Code} {next : Reply → Code} (h : c.Handleless)
    (h' : ∀ r, r.NoHandle → (next r).Handleless) : (c.andThen next).Handleless := by
  intro us r path
  obtain ⟨us₁, r₁, us₂, first, second, rfl⟩ := path_andThen path
  obtain ⟨others, answers⟩ := h us₁ r₁ first
  obtain ⟨others', answers'⟩ := h' r₁ answers us₂ r second
  exact ⟨List.forall_mem_append.mpr ⟨others, others'⟩, answers'⟩

theorem handleless_scope {scope : Scope} {body : Code} {refused : Failure → Code} {k : Reply → Code}
    (hb : body.Handleless) (hr : ∀ f, (refused f).Handleless)
    (hk : ∀ r, r.NoHandle → (k r).Handleless) : (Code.scope scope body refused k).Handleless := by
  intro us r path
  cases path with
  | refused f path => exact hr f us r path
  | scope inner path =>
    obtain ⟨others, answers⟩ := hb _ _ inner
    obtain ⟨others', answers'⟩ := hk _ answers _ r path
    exact ⟨List.forall_mem_append.mpr ⟨others, others'⟩, answers'⟩

theorem handleless_within {scope : Scope} {body : Code} (h : body.Handleless) :
    (within scope body).Handleless :=
  handleless_scope h handleless_fail fun _ => handleless_finish

/-- A query is read as something else than a handle. -/
theorem handleless_query {body : Code} {reading : List Value → Answer} {otherwise : Answer}
    (h : body.Handleless) (hr : ∀ vs, (Reply.answer (reading vs)).NoHandle)
    (ho : (Reply.answer otherwise).NoHandle) : (query body reading otherwise).Handleless := by
  refine handleless_scope h handleless_fail fun r _ => ?_
  split
  · exact handleless_finish (hr _)
  · exact handleless_finish ho

/-- The same, where without a function nothing is asked. -/
theorem handleless_unlessNil {f : Value} {body : Code} {reading : List Value → Answer}
    {a otherwise : Answer} (ha : (Reply.answer a).NoHandle) (h : body.Handleless)
    (hr : ∀ vs, (Reply.answer (reading vs)).NoHandle) (ho : (Reply.answer otherwise).NoHandle) :
    (if f = .nil then answer a else query body reading otherwise).Handleless := by
  split
  · exact handleless_finish ha
  · exact handleless_query h hr ho

/-! ## Loading -/

theorem handleless_reportScript (site text : String) : (reportScript site text).Handleless :=
  handleless_write (fun _ => id) (handleless_fail _)

theorem handleless_runChunk {chunk : Bytes} {body : List Script.Stat} {k : List Value → Code}
    {failed : String → Code} (hk : ∀ vs, (k vs).Handleless)
    (hf : ∀ text, (failed text).Handleless) : (runChunk chunk body k failed).Handleless :=
  handleless_read fun _ => handleless_write (fun _ => id) (handleless_attempt hk hf)

theorem handleless_loadScript (source : Bytes) (name : String) :
    (loadScript source name).Handleless := by
  refine handleless_scope ?_ (fun f => ?_) fun r => handleless_finish
  · split
    · exact handleless_reportScript _ _
    · exact handleless_runChunk (fun vs => handleless_finish nofun) (handleless_reportScript _)
  · exact handleless_write (fun _ => id) (handleless_fail _)

theorem handleless_loadNamed (name : String) : (loadNamed name).Handleless := by
  refine handleless_read fun s => ?_
  split
  · exact handleless_fail _
  · exact handleless_loadScript _ _

theorem handleless_loadCard (code : UInt32) : (loadCard code).Handleless := by
  refine handleless_read fun s => ?_
  split
  · exact handleless_finish nofun
  · split
    · exact handleless_fail _
    · exact handleless_within (handleless_loadScript _ _)

theorem handleless_evaluate (source : Bytes) : (evaluate source).Handleless := by
  unfold evaluate
  dsimp only
  split
  · exact handleless_runChunk handleless_values fun text => handleless_fail _
  · split
    · exact handleless_runChunk handleless_values fun text => handleless_fail _
    · exact handleless_fail _

/-! ## Calls -/

theorem handleless_settle {site : String} {call : Code} (h : call.Handleless) :
    (settle site call).Handleless := by
  refine handleless_andThen h fun r hr => ?_
  split
  · exact handleless_write (fun _ => id) (handleless_write (fun _ => id) (handleless_fail _))
  · exact handleless_finish hr

theorem handleless_withCount {declared : Nat} {k : Code} (h : k.Handleless) :
    (withCount declared k).Handleless := by
  refine handleless_read fun s => ?_
  dsimp only
  split
  · exact h
  · exact handleless_fail _

theorem handleless_withStaged {q : Queue} {k : List Value → Code} (h : ∀ vs, (k vs).Handleless) :
    (withStaged q k).Handleless := by
  refine handleless_read fun s => handleless_write (fun _ => id) ?_
  split
  · exact h _
  · exact handleless_fail _

theorem handleless_callWith (f : Value) (args : List Value) (ret : ReturnCount) :
    (callWith f args ret).Handleless :=
  handleless_attempt (fun _ => handleless_values _) fun _ => handleless_fail _

theorem handleless_invokeStaged (f : Value) (declared : Nat) (ret : ReturnCount) :
    (invokeStaged f declared ret).Handleless :=
  handleless_withCount
    (handleless_within (handleless_withStaged fun _ => handleless_callWith _ _ _))

theorem handleless_callFunction (c : Callable) (declared : Nat) (ret : ReturnCount) :
    (callFunction c declared ret).Handleless := by
  refine handleless_settle (handleless_read fun s => ?_)
  split
  · exact handleless_invokeStaged _ _ _
  · exact handleless_fail _

theorem handleless_callValue (v : Value) (declared : Nat) (ret : ReturnCount) :
    (callValue v declared ret).Handleless := by
  refine handleless_settle ?_
  split
  · exact handleless_invokeStaged _ _ _
  · split <;> exact handleless_fail _

theorem handleless_callFound {lookup missing : Code} {declared : Nat} {ret : ReturnCount}
    (hl : lookup.Handleless) (hm : missing.Handleless) :
    (callFound lookup declared ret missing).Handleless := by
  refine handleless_andThen hl fun r hr => ?_
  split
  · dsimp only
    split
    · exact handleless_invokeStaged _ _ _
    · exact hm
  · exact handleless_fail _
  · exact handleless_finish hr

theorem handleless_index (object key : Value) : Handleless
    (attempt (.index object key) values fun text => finish (.raised text)) :=
  handleless_attempt handleless_values handleless_raised

theorem handleless_lookupMember (kind : ObjectKind) (cls : Option String) (key : Value) :
    (lookupMember kind cls key).Handleless := by
  unfold lookupMember
  split
  · exact handleless_values _
  · refine handleless_read fun s => ?_
    dsimp only
    split
    · exact handleless_index _ _
    · exact handleless_index _ _
    · exact handleless_values _

theorem handleless_lookupInClass (code : UInt32) (name : String) :
    (lookupInClass code name).Handleless := by
  refine handleless_andThen (handleless_loadCard code) fun r _ => ?_
  split
  · exact handleless_fail _
  · exact handleless_raised _
  · exact handleless_write (fun _ => id) (handleless_read fun s => handleless_index _ _)

theorem handleless_callCard (card : ObjectId) (name : String) (declared : Nat) (ret : ReturnCount)
    (forced : Bool) : (callCard card name declared ret forced).Handleless := by
  refine handleless_settle (handleless_withCount (handleless_read fun s => ?_))
  split
  · exact handleless_fail _
  · split
    · exact handleless_fail _
    · refine handleless_callFound (handleless_lookupMember _ _ _) ?_
      split
      · exact handleless_fail _
      · exact handleless_write (fun _ => id) (handleless_values _)

theorem handleless_callCode (code : UInt32) (name : String) (declared : Nat) (ret : ReturnCount) :
    (callCode code name declared ret).Handleless := by
  refine handleless_settle ?_
  split
  · exact handleless_callFound (handleless_read fun s => handleless_values _) (handleless_fail _)
  · exact handleless_callFound (handleless_lookupInClass _ _) (handleless_fail _)

theorem handleless_callOnCard (site : String) (card : ObjectId) (f : Value) (extra : List Value)
    (ret : ReturnCount) : (callOnCard site card f extra ret).Handleless := by
  refine handleless_andThen ?_ fun r hr => ?_
  · split
    · refine handleless_read fun s => ?_
      split
      · exact handleless_within (handleless_callWith _ _ _)
      · exact handleless_fail _
    · exact handleless_fail _
  · split
    · exact handleless_write (fun _ => id) (handleless_fail _)
    · exact handleless_finish hr

/-! ## Other operations -/

theorem handleless_failStep (q : Queue) (f : Failure) : (failStep q f).Handleless :=
  handleless_write (fun _ => id) (handleless_write (fun _ => id) (handleless_finish nofun))

theorem handleless_resumeStaged (q : Queue) (id : CoroutineId) :
    (resumeStaged q id).Handleless := by
  refine handleless_withStaged fun args => handleless_read fun s => ?_
  split
  · refine handleless_run fun c => ?_
    cases c with
    | returned vs => exact handleless_values vs
    | yielded vs => exact handleless_finish nofun
    | raised v =>
      intro us r path
      obtain ⟨text, path⟩ := path_wording _ v path
      exact handleless_raised text us r path
  · exact handleless_fail _

theorem handleless_stepResult {r : Reply} (h : r.NoHandle) : (stepResult r).Handleless := by
  unfold stepResult
  split
  · exact handleless_finish nofun
  · exact handleless_finish nofun
  · exact handleless_write (fun _ => id) (handleless_finish nofun)
  · exact handleless_finish h

theorem handleless_runStep (q : Queue) (s : Scope) (id : CoroutineId) :
    (runStep q s id).Handleless := by
  refine handleless_scope ?_ (handleless_failStep q) fun r hr => ?_
  · exact handleless_scope (handleless_resumeStaged _ _) handleless_fail fun r =>
      handleless_stepResult
  · split
    · exact handleless_failStep _ _
    · exact handleless_finish hr

theorem handleless_callCoroutine (c : Callable) (declared : Nat) (id : CoroutineId) (step : Nat) :
    (callCoroutine c declared id step).Handleless := by
  unfold callCoroutine
  split
  · refine handleless_read fun s => ?_
    dsimp only
    split
    · split
      · exact handleless_runStep _ _ _
      · exact handleless_failStep _ _
    · exact handleless_failStep _ _
  · exact handleless_runStep _ _ _

theorem handleless_stageTyped (raw : Int64) (type : ParamType) (front : Bool) :
    (stageTyped raw type front).Handleless := by
  unfold stageTyped
  split
  · exact handleless_fail _
  · refine handleless_read fun s => ?_
    split
    · exact handleless_fail _
    · exact handleless_write (fun _ => id) (handleless_finish nofun)

theorem handleless_hold (slot : String) (v : Value) : (hold slot v).Handleless := by
  unfold hold
  split
  · exact handleless_finish nofun
  · split
    · refine handleless_read fun s => ?_
      split
      · exact handleless_fail _
      · exact handleless_write (fun _ => id) (handleless_finish nofun)
    · exact handleless_fail _

theorem handleless_holdGlobal (slot name : String) : (holdGlobal slot name).Handleless := by
  refine handleless_read fun s => ?_
  dsimp only
  split
  · exact handleless_hold _ _
  · exact handleless_finish nofun

theorem handleless_requireAction : requireAction.Handleless := by
  refine handleless_read fun s => ?_
  split
  · exact handleless_finish nofun
  · exact handleless_fail _

theorem handleless_printTrace : printTrace.Handleless := by
  refine handleless_trace fun ls => ?_
  split
  · exact handleless_finish nofun
  · exact handleless_write (fun _ => id) (handleless_finish nofun)

end Code

open Code

/-- The operations that give objects handles or take them away. -/
def Operation.Rebinds : Operation → Prop
  | register _ | registerCard _ | unregister _ => True
  | _ => False

/-- The others have nothing to do with handles. -/
theorem Operation.handleless {o : Operation} (other : ¬ o.Rebinds) : o.code.Handleless := by
  cases o with
  | register | registerCard | unregister => exact absurd trivial other
  | loadScript source name => exact handleless_loadScript _ _
  | loadNamed name => exact handleless_loadNamed _
  | loadCard code => exact handleless_loadCard _
  | evaluate source => exact handleless_evaluate _
  | stageTyped raw type front => exact handleless_stageTyped _ _ _
  | takeStaged q => exact handleless_withStaged handleless_values
  | hold slot v => exact handleless_hold _ _
  | holdGlobal slot name => exact handleless_holdGlobal _ _
  | callFunction c declared ret => exact handleless_callFunction _ _ _
  | callValue v declared ret => exact handleless_callValue _ _ _
  | callCard card name declared ret forced => exact handleless_callCard _ _ _ _ _
  | callCode code name declared ret => exact handleless_callCode _ _ _ _
  | checkCondition f declared | functionValue f declared | functionValues f declared =>
    cases f with
    | none => exact handleless_write (fun _ => id) (handleless_finish nofun)
    | some c => exact handleless_query (handleless_callFunction _ _ _) nofun nofun
  | checkMatching card f extra | operationValue card f extra | operationValues card f extra =>
    exact handleless_unlessNil nofun (handleless_callOnCard _ _ _ _ _) nofun nofun
  | checkMatchingTable card f table =>
    exact handleless_unlessNil nofun (handleless_read fun s => handleless_callOnCard _ _ _ _ _)
      nofun nofun
  | callCoroutine c declared id step => exact handleless_callCoroutine _ _ _ _
  | requireAction => exact handleless_requireAction
  | printTrace => exact handleless_printTrace
  | abandon id =>
    exact handleless_read fun s => handleless_write (fun _ => False.elim) (handleless_finish nofun)
  | stage | clear | emit | report => exact handleless_write (fun _ => id) (handleless_finish nofun)

/-- An operation that answers with a handle is one that registers. -/
theorem Operation.registers_of_handle {op : Operation} {us : List Update} {h : Handle}
    (path : op.code.Path us (.answer (.handle h))) :
    (∃ o, op = .register o) ∨ ∃ info, op = .registerCard info := by
  by_cases rebinds : op.Rebinds
  · cases op with
    | register o => exact .inl ⟨o, rfl⟩
    | registerCard info => exact .inr ⟨info, rfl⟩
    | unregister o =>
      cases path with
      | read s path =>
        dsimp only at path
        split at path
        · exact nomatch (path_finish path).2
        · cases path with
          | write path => exact nomatch (path_finish path).2
    | _ => cases rebinds
  · exact absurd rfl ((Operation.handleless rebinds _ _ path).2 h)

end CardBridge
