import CardBridge.Proofs.AlikeStates
import CardBridge.Proofs.Errands
import CardBridge.Proofs.Histories

/-!
# Code that does not know what is staged

Arguments that are staged for calls wait in one queue, and all code of the host can look at it.
`Code.Unaware` says of host code that it neither looks at this queue nor changes it : behind every
look at the state it goes on in the same way if one argument more is staged. It is a fact about the
tree, one lemma for each combinator gives it for the operations that do not use the queue
(`Operation.unaware`), and the functions that the library lends have it if those of the host do
(`Code.unaware_native`).
-/

namespace CardBridge

open Script (Value)

/-! ## What is not seen -/

namespace State

variable (s : State) (a : Argument)

@[simp] theorem stage_slots : (s.stage .call false a).shared.slots = s.shared.slots := by
  unfold stage
  split
  · rfl
  · cases a <;> rfl

@[simp] theorem stage_scripts : (s.stage .call false a).shared.scripts = s.shared.scripts := by
  unfold stage
  split
  · rfl
  · cases a <;> rfl

@[simp] theorem object_stage (n : Nat) : (s.stage .call false a).object n = s.object n := by
  simp [object]

@[simp] theorem global_stage (name : String) :
    (s.stage .call false a).global name = s.global name := by
  simp [global]

@[simp] theorem readScript_stage (name : String) :
    (s.stage .call false a).readScript name = s.readScript name := by
  simp [readScript]

@[simp] theorem isClassLoaded_stage (code : UInt32) :
    Code.isClassLoaded (s.stage .call false a) code = Code.isClassLoaded s code := by
  simp [Code.isClassLoaded]

@[simp] theorem objectValue_stage (o : ObjectRef) :
    (s.stage .call false a).objectValue o = s.objectValue o := by
  cases hb : s.env.bridge <;> simp [objectValue, hb, Bridge.setQueue]

@[simp] theorem handleOf_stage (o : ObjectRef) :
    (s.stage .call false a).handleOf o = s.handleOf o := by
  cases hb : s.env.bridge <;> simp [handleOf, hb, Bridge.setQueue]

@[simp] theorem actionsAllowed_stage :
    (s.stage .call false a).actionsAllowed = s.actionsAllowed := by
  cases hb : s.env.bridge <;> simp [actionsAllowed, hb, Bridge.setQueue]

@[simp] theorem phase_stage (id : CoroutineId) :
    (s.stage .call false a).phase id = s.phase id := by
  cases hb : s.env.bridge <;> simp [phase, hb, Bridge.setQueue]

@[simp] theorem staged_stage : (s.stage .call false a).staged .resume = s.staged .resume := by
  cases hb : s.env.bridge <;> simp [staged, hb, Bridge.setQueue, Bridge.queue]

@[simp] theorem argumentValue_stage (a' : Argument) :
    (s.stage .call false a).argumentValue a' = s.argumentValue a' := by
  cases a' with
  | object o => exact s.objectValue_stage a o
  | function c => exact (s.alike_stage .call false a).resolve c
  | nil | int | bool | text | value => rfl

@[simp] theorem stagedValues_stage :
    (s.stage .call false a).stagedValues .resume = s.stagedValues .resume := by
  have same : (s.stage .call false a).argumentValue = s.argumentValue :=
    funext fun a' => s.argumentValue_stage a a'
  cases hb : s.env.bridge <;>
    simp [stagedValues, hb, same, Bridge.setQueue, Bridge.queue]

@[simp] theorem joinedText_stage (v : Value) :
    joinedText (s.stage .call false a) v = joinedText s v := by
  cases v <;> simp [joinedText]

end State

/-! ## Code -/

namespace Code

/-- Host code that leaves the queue for calls alone and goes on in the same way whatever is staged
in it. -/
def Unaware : Code → Prop
  | finish _ => True
  | read k => (∀ s a, k (State.stage s .call false a) = k s) ∧ ∀ s, (k s).Unaware
  | write u c => ¬ u.Touches .call ∧ c.Unaware
  | run _ k => ∀ c, (k c).Unaware
  | trace k => ∀ ls, (k ls).Unaware
  | scope _ body refused k => body.Unaware ∧ (∀ f, (refused f).Unaware) ∧ ∀ r, (k r).Unaware

theorem hereditary_unaware : Hereditary Unaware where
  read h := h.2
  write h := h.2
  run h := h
  trace h := h
  scope h := h

theorem unaware_andThen {c : Code} {next : Reply → Code} (h : c.Unaware)
    (h' : ∀ r, (next r).Unaware) : (c.andThen next).Unaware := by
  induction c with
  | finish r => exact h' r
  | read k ih =>
    exact ⟨fun s a => congrArg (andThen · next) (h.1 s a), fun s => ih s (h.2 s)⟩
  | write u c ih => exact ⟨h.1, ih h.2⟩
  | run task k ih => exact fun c => ih c (h c)
  | trace k ih => exact fun ls => ih ls (h ls)
  | scope s body refused k _ ihr ihk =>
    exact ⟨h.1, fun f => ihr f (h.2.1 f), fun r => ihk r (h.2.2 r)⟩

theorem unaware_within {s : Scope} {body : Code} (h : body.Unaware) :
    (within s body).Unaware :=
  ⟨h, fun _ => trivial, fun _ => trivial⟩

theorem unaware_wording {k : String → Code} (hk : ∀ text, (k text).Unaware) :
    ∀ (fuel : Nat) (v : Value), (wording fuel v k).Unaware
  | 0, v => hk _
  | fuel + 1, v => by
    unfold wording
    split
    · exact hk _
    · exact ⟨fun s a => by simp, fun s => hk _⟩
    · refine ⟨fun s a => by simp, fun s => ?_⟩
      dsimp only
      split
      · exact hk _
      · intro c
        cases c with
        | returned vs | yielded vs =>
          dsimp only
          split <;> exact hk _
        | raised w => exact unaware_wording hk fuel w

theorem unaware_attempt {task : Task} {k : List Value → Code} {failed : String → Code}
    (hk : ∀ vs, (k vs).Unaware) (hf : ∀ text, (failed text).Unaware) :
    (attempt task k failed).Unaware := by
  intro c
  cases c with
  | returned vs | yielded vs => exact hk vs
  | raised v => exact unaware_wording hf _ v

theorem unaware_callWith (f : Value) (args : List Value) (ret : ReturnCount) :
    (callWith f args ret).Unaware :=
  unaware_attempt (fun _ => trivial) fun _ => trivial

theorem unaware_withStaged {k : List Value → Code} (h : ∀ vs, (k vs).Unaware) :
    (withStaged .resume k).Unaware := by
  refine ⟨fun s a => by simp, fun s => ⟨nofun, ?_⟩⟩
  split
  · exact h _
  · exact trivial

/-! ### Loading and look-ups -/

theorem unaware_runChunk {chunk : Bytes} {body : List Script.Stat} {k : List Value → Code}
    {failed : String → Code} (hk : ∀ vs, (k vs).Unaware) (hf : ∀ text, (failed text).Unaware) :
    (runChunk chunk body k failed).Unaware :=
  ⟨fun s a => by simp, fun s => ⟨id, unaware_attempt hk hf⟩⟩

theorem unaware_reportScript (site text : String) : (reportScript site text).Unaware :=
  ⟨id, trivial⟩

theorem unaware_loadScript (source : Bytes) (name : String) :
    (loadScript source name).Unaware := by
  refine ⟨?_, fun _ => ⟨id, trivial⟩, fun _ => trivial⟩
  split
  · exact unaware_reportScript _ _
  · exact unaware_runChunk (fun _ => trivial) fun _ => unaware_reportScript _ _

theorem unaware_loadNamed (name : String) : (loadNamed name).Unaware := by
  refine ⟨fun s a => by simp, fun s => ?_⟩
  dsimp only
  split
  · exact trivial
  · exact unaware_loadScript _ _

theorem unaware_loadCard (code : UInt32) : (loadCard code).Unaware := by
  refine ⟨fun s a => by simp, fun s => ?_⟩
  dsimp only
  split
  · exact trivial
  · split
    · exact trivial
    · exact unaware_within (unaware_loadScript _ _)

theorem unaware_evaluate (source : Bytes) : (evaluate source).Unaware := by
  unfold evaluate
  dsimp only
  split
  · exact unaware_runChunk (fun _ => trivial) fun _ => trivial
  · split
    · exact unaware_runChunk (fun _ => trivial) fun _ => trivial
    · exact trivial

theorem unaware_lookupMember (kind : ObjectKind) (cls : Option String) (key : Value) :
    (lookupMember kind cls key).Unaware := by
  have find (t : Nat) : Unaware
      (attempt (.index (.table t) key) values fun text => finish (.raised text)) :=
    unaware_attempt (fun _ => trivial) fun _ => trivial
  have globals (s : State) (a : Argument) : (s.stage .call false a).global = s.global :=
    funext fun name => s.global_stage a name
  unfold lookupMember
  split
  · exact trivial
  · refine ⟨fun s a => by simp only [globals], fun s => ?_⟩
    dsimp only
    split
    · exact find _
    · exact find _
    · exact trivial

/-! ### Queries, steps and cards -/

theorem unaware_callOnCard (site : String) (card : ObjectId) (f : Value) (extra : List Value)
    (ret : ReturnCount) : (callOnCard site card f extra ret).Unaware := by
  refine unaware_andThen ?_ fun r => ?_
  · split
    · refine ⟨fun s a => by simp, fun s => ?_⟩
      dsimp only
      split
      · exact unaware_within (unaware_callWith _ _ _)
      · exact trivial
    · exact trivial
  · split
    · exact ⟨id, trivial⟩
    · exact trivial

theorem unaware_query {body : Code} {reading : List Value → Answer} {otherwise : Answer}
    (h : body.Unaware) : (query body reading otherwise).Unaware := by
  refine ⟨h, fun _ => trivial, fun r => ?_⟩
  dsimp only
  split <;> exact trivial

theorem unaware_unlessNil {f : Value} {a : Answer} {c : Code} (h : c.Unaware) :
    (if f = .nil then answer a else c).Unaware := by
  split
  · exact trivial
  · exact h

theorem unaware_runStep (scope : Scope) (id : CoroutineId) :
    (runStep .resume scope id).Unaware := by
  have failing (f : Failure) : (failStep .resume f).Unaware := by
    refine ⟨fun touches => ?_, fun touches => ?_, trivial⟩ <;> cases touches
  have resumed : (resumeStaged .resume id).Unaware := by
    refine unaware_withStaged fun args => ⟨fun s a => ?_, fun s => ?_⟩
    · cases hb : s.env.bridge <;> simp [hb, Bridge.setQueue]
    · dsimp only
      split
      · intro c
        cases c with
        | returned | yielded => exact trivial
        | raised v =>
          refine unaware_wording (fun text => ?_) _ v
          exact trivial
      · exact trivial
  have results (r : Reply) : (stepResult r).Unaware := by
    unfold stepResult
    split
    · exact trivial
    · exact trivial
    · refine ⟨fun touches => ?_, trivial⟩
      cases touches
    · exact trivial
  refine ⟨⟨resumed, fun _ => trivial, results⟩, failing, fun r => ?_⟩
  dsimp only
  split
  · exact failing _
  · exact trivial

theorem unaware_register (o : ObjectRef) : (register o).Unaware := by
  unfold register bindObject
  split
  · exact trivial
  · refine ⟨fun s a => ?_, fun s => ?_⟩
    · cases hb : s.env.bridge <;> simp [hb]
    · dsimp only
      split
      · exact trivial
      · exact ⟨id, fun s a => by simp, fun s => trivial⟩

theorem unaware_unregister (o : ObjectRef) : (unregister o).Unaware := by
  refine ⟨fun s a => ?_, fun s => ?_⟩
  · cases hb : s.env.bridge <;> simp [hb, Bridge.setQueue]
  · dsimp only
    split
    · exact trivial
    · exact ⟨id, trivial⟩

/-! ### Other operations -/

theorem unaware_hold (slot : String) (v : Value) : (hold slot v).Unaware := by
  unfold hold
  split
  · exact trivial
  · split
    · refine ⟨fun s a => by simp, fun s => ?_⟩
      dsimp only
      split
      · exact trivial
      · exact ⟨id, trivial⟩
    · exact trivial

theorem unaware_holdGlobal (slot name : String) : (holdGlobal slot name).Unaware := by
  refine ⟨fun s a => by simp, fun s => ?_⟩
  dsimp only
  split
  · exact unaware_hold _ _
  · exact trivial

theorem unaware_abandon (id : CoroutineId) : (abandon id).Unaware :=
  ⟨fun s a => by simp, fun s => ⟨nofun, trivial⟩⟩

theorem unaware_requireAction : requireAction.Unaware := by
  refine ⟨fun s a => by simp, fun s => ?_⟩
  dsimp only
  split <;> exact trivial

theorem unaware_printTrace : printTrace.Unaware := by
  intro ls
  dsimp only
  split
  · exact trivial
  · exact ⟨id, trivial⟩

end Code

/-- The operations that look at the queue for calls or change it. -/
def Operation.UsesQueue : Operation → Prop
  | stage .call .. | clear .call | takeStaged .call | stageTyped .. => True
  | callFunction .. | callValue .. | callCard .. | callCode .. => True
  | checkCondition .. | functionValue .. | functionValues .. | registerCard .. => True
  | callCoroutine _ _ _ step => step = 0
  | _ => False

open Code

/-- All other operations do not know what is staged in it. -/
theorem Operation.unaware {o : Operation} (h : ¬ o.UsesQueue) : o.code.Unaware := by
  cases o with
  | loadScript source name => exact unaware_loadScript _ _
  | loadNamed name => exact unaware_loadNamed _
  | loadCard code => exact unaware_loadCard _
  | evaluate source => exact unaware_evaluate _
  | register o => exact unaware_register _
  | unregister o => exact unaware_unregister _
  | stage q front a | clear q =>
    cases q with
    | call => exact absurd trivial h
    | resume => exact ⟨nofun, trivial⟩
  | takeStaged q =>
    cases q with
    | call => exact absurd trivial h
    | resume =>
      refine unaware_withStaged fun vs => ?_
      exact trivial
  | hold slot v => exact unaware_hold _ _
  | holdGlobal slot name => exact unaware_holdGlobal _ _
  | checkMatching card f extra | operationValue card f extra | operationValues card f extra =>
    exact unaware_unlessNil (unaware_query (unaware_callOnCard _ _ _ _ _))
  | checkMatchingTable card filter table =>
    refine unaware_unlessNil (unaware_query ⟨fun s a => by simp, fun s => ?_⟩)
    exact unaware_callOnCard _ _ _ _ _
  | callCoroutine c declared id step =>
    have later : step ≠ 0 := h
    change (Code.callCoroutine c declared id step).Unaware
    rw [Code.callCoroutine, if_neg later]
    exact unaware_runStep _ _
  | abandon id => exact unaware_abandon _
  | requireAction => exact unaware_requireAction
  | emit | report => exact ⟨id, trivial⟩
  | printTrace => exact unaware_printTrace
  | callFunction | callValue | callCard | callCode | checkCondition | functionValue
  | functionValues | registerCard | stageTyped => exact absurd trivial h

/-! ### Functions of the library -/

namespace Code

theorem unaware_askObject {v : Value} {inert : List Value} {live : GameObject → Code}
    (h : ∀ g, (live g).Unaware) : (askObject v inert live).Unaware := by
  refine ⟨fun s a => by simp, fun s => ?_⟩
  dsimp only
  split
  · split
    · exact trivial
    · exact h _
  · exact trivial

theorem unaware_textsOf {f : Value} {k : List String → Code} (h : ∀ ts, (k ts).Unaware)
    (vs : List Value) : (textsOf f vs k).Unaware := by
  induction vs generalizing k with
  | nil => exact h []
  | cons v vs ih => exact unaware_attempt (fun rs => ih fun ts => h _) fun text => trivial

theorem unaware_sendMessage (args : List Value) : (sendMessage args).Unaware := by
  refine unaware_attempt (fun found => ?_) fun text => trivial
  dsimp only
  split
  · refine unaware_textsOf (fun ts => ?_) args
    exact ⟨id, trivial⟩
  · exact trivial

/-- The functions that the library lends do not know what is staged, if those of the host do not. -/
theorem unaware_native {lent : Nat → List Value → Code} {n : Script.Native} {args : List Value}
    (h : ∀ i, n = .host i → (lent i args).Unaware) : (native lent n args).Unaware := by
  unfold native
  cases n with
  | member =>
    refine unaware_askObject fun g => ?_
    exact unaware_lookupMember _ _ _
  | assign | length =>
    refine unaware_askObject fun g => ?_
    exact trivial
  | join =>
    refine ⟨fun s a => by simp, fun s => ?_⟩
    dsimp only
    split <;> exact trivial
  | render =>
    refine ⟨fun s a => by simp, fun s => ?_⟩
    dsimp only
    split <;> exact trivial
  | inertFalse | inertZero => exact trivial
  | message => exact unaware_sendMessage args
  | stackTrace => exact unaware_andThen unaware_printTrace fun _ => trivial
  | host i => exact h i rfl

end Code

end CardBridge
