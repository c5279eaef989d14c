import CardBridge.Host.World
import CardBridge.Proofs.Histories
import CardBridge.Proofs.Surroundings

/-!
# Code that a host can write

Two scopes are not open to a host. No action is allowed while a query is being evaluated, and for
that a host has the operations that evaluate conditions and queries (`Operation.Queries`) and
nothing else: `Code.Public` says so of host code. The script of a card is loaded into a new class
only where the host has just seen that there is none, which `Code.Regular` says besides. Both are
facts about the tree of the code. They pass to what is left of it after a step, and one lemma for
each combinator gives them for all operations (`Operation.regular_code`) and for whatever a host
program is made of (`Host.World.regular_host`).
-/

namespace CardBridge

open Script (Value)

/-- The operations that evaluate a condition or a query. Without a function there is nothing to
evaluate. -/
def Operation.Queries : Operation → Prop
  | checkCondition (some _) _ | functionValue (some _) _ | functionValues (some _) _ => True
  | checkMatching _ f _ | checkMatchingTable _ f _ => f ≠ .nil
  | operationValue _ f _ | operationValues _ f _ => f ≠ .nil
  | _ => False

/-- Their code is a query. -/
theorem Operation.Queries.code_eq {o : Operation} (h : o.Queries) :
    ∃ body reading otherwise, o.code = Code.query body reading otherwise := by
  cases o with
  | checkCondition f | functionValue f | functionValues f =>
    cases f with
    | none => cases h
    | some c => exact ⟨_, _, _, rfl⟩
  | checkMatching | checkMatchingTable | operationValue | operationValues =>
    exact ⟨_, _, _, if_neg h⟩
  | _ => cases h

namespace Code

/-- Host code that begins queries only by the operations for them. -/
def Public : Code → Prop
  | finish _ => True
  | read k => ∀ s, (k s).Public
  | write _ c => c.Public
  | run _ k => ∀ c, (k c).Public
  | trace k => ∀ ls, (k ls).Public
  | scope s body refused k =>
    (s = .query → ∃ o next, Operation.Queries o ∧ scope s body refused k = o.code.andThen next) ∧
      body.Public ∧ (∀ f, (refused f).Public) ∧ ∀ r, (k r).Public

theorem hereditary_public : Hereditary Public where
  read h := h
  write h := h
  run h := h
  trace h := h
  scope h := h.2

/-- Host code that, besides, begins to load the script of a card only where it has just asked for
that and has seen that its class is missing. `seen` is what was read in the step before, if it was a
read : the state, and the code that has read it. -/
def RegularAfter : Option (State × Code) → Code → Prop
  | _, finish _ => True
  | _, read k => ∀ s, (k s).RegularAfter (some (s, read k))
  | _, write _ c => c.RegularAfter none
  | _, run _ k => ∀ c, (k c).RegularAfter none
  | _, trace k => ∀ ls, (k ls).RegularAfter none
  | seen, scope s body refused k =>
    (s = .query → ∃ o next, Operation.Queries o ∧ scope s body refused k = o.code.andThen next) ∧
      (∀ code, s = .loading code → ∃ st next source,
        seen = some (st, (loadCard code).andThen next) ∧
        isClassLoaded st code = false ∧ body = loadScript source (scriptName code)) ∧
      body.RegularAfter none ∧ (∀ f, (refused f).RegularAfter none) ∧ ∀ r, (k r).RegularAfter none

/-- The same, of code that begins. -/
def Regular (c : Code) : Prop :=
  c.RegularAfter none

/-- It makes no difference what was read before code that begins. -/
theorem Regular.after {c : Code} (h : c.Regular) (seen : Option (State × Code)) :
    c.RegularAfter seen := by
  cases c with
  | scope s body refused k =>
    obtain ⟨queries, loads, rest⟩ := h
    refine ⟨queries, fun code eq => ?_, rest⟩
    obtain ⟨st, next, source, seen, -⟩ := loads code eq
    cases seen
  | finish | read | write | run | trace => exact h

theorem regular_read {k : State → Code} (h : ∀ s, (k s).Regular) : (read k).Regular :=
  fun s => (h s).after _

theorem RegularAfter.public {seen : Option (State × Code)} {c : Code} (h : c.RegularAfter seen) :
    c.Public := by
  induction c generalizing seen with
  | finish r => trivial
  | read k ih => exact fun s => ih s (h s)
  | write u c ih => exact ih h
  | run task k ih => exact fun c => ih c (h c)
  | trace k ih => exact fun ls => ih ls (h ls)
  | scope s body refused k ihb ihr ihk =>
    obtain ⟨queries, -, inside, ends, goes⟩ := h
    exact ⟨queries, ihb inside, fun f => ihr f (ends f), fun r => ihk r (goes r)⟩

theorem Regular.public {c : Code} (h : c.Regular) : c.Public :=
  RegularAfter.public h

/-- What was read before goes on in the same way, too. -/
theorem RegularAfter.andThen {seen : Option (State × Code)} {c : Code} {next : Reply → Code}
    (h : c.RegularAfter seen) (h' : ∀ r, (next r).Regular) :
    (c.andThen next).RegularAfter (seen.map fun p => (p.1, p.2.andThen next)) := by
  induction c generalizing seen with
  | finish r => exact (h' r).after _
  | read k ih => exact fun s => ih s (h s)
  | write u c ih => exact ih h
  | run task k ih => exact fun c => ih c (h c)
  | trace k ih => exact fun ls => ih ls (h ls)
  | scope s body refused k _ ihr ihk =>
    obtain ⟨queries, loads, inside, ends, goes⟩ := h
    refine ⟨fun query => ?_, fun code eq => ?_, inside, fun f => ihr f (ends f),
      fun r => ihk r (goes r)⟩
    · obtain ⟨o, next₁, ho, eq⟩ := queries query
      refine ⟨o, fun r => (next₁ r).andThen next, ho, ?_⟩
      rw [← andThen_assoc, ← eq]
      rfl
    · obtain ⟨st, next₁, source, rfl, missing, loads⟩ := loads code eq
      refine ⟨st, fun r => (next₁ r).andThen next, source, ?_, missing, loads⟩
      rw [← andThen_assoc]
      rfl

theorem regular_andThen {c : Code} {next : Reply → Code} (h : c.Regular)
    (h' : ∀ r, (next r).Regular) : (c.andThen next).Regular :=
  RegularAfter.andThen h h'

theorem regular_scope {s : Scope} {body : Code} {refused : Failure → Code} {k : Reply → Code}
    (other : s ≠ .query) (other' : ∀ code, s ≠ .loading code) (h : body.Regular)
    (hr : ∀ f, (refused f).Regular) (hk : ∀ r, (k r).Regular) : (scope s body refused k).Regular :=
  ⟨fun query => absurd query other, fun code loads => absurd loads (other' code), h, hr, hk⟩

theorem regular_within {s : Scope} {body : Code} (other : s ≠ .query)
    (other' : ∀ code, s ≠ .loading code) (h : body.Regular) : (within s body).Regular :=
  regular_scope other other' h (fun _ => trivial) fun _ => trivial

/-- A query is regular where it is the code of an operation. -/
theorem regular_query {o : Operation} (ho : o.Queries) {body : Code}
    {reading : List Value → Answer} {otherwise : Answer}
    (eq : o.code = query body reading otherwise) (h : body.Regular) :
    (query body reading otherwise).Regular := by
  refine ⟨fun _ => ⟨o, finish, ho, ?_⟩, nofun, h, fun _ => trivial, fun r => ?_⟩
  · rw [andThen_finish, eq]
    rfl
  · dsimp only
    split <;> exact trivial

/-- The same, where without a function nothing is asked. -/
theorem regular_unlessNil {o : Operation} {f : Value} (ho : f ≠ .nil → o.Queries) {a : Answer}
    {body : Code} {reading : List Value → Answer} {otherwise : Answer}
    (eq : o.code = if f = .nil then answer a else query body reading otherwise)
    (h : body.Regular) : o.code.Regular := by
  rw [eq]
  split
  · exact trivial
  case isFalse something => exact regular_query (ho something) (eq.trans (if_neg something)) h

theorem regular_wording {k : String → Code} (hk : ∀ text, (k text).Regular) :
    ∀ (fuel : Nat) (v : Value), (wording fuel v k).Regular
  | 0, v => hk _
  | fuel + 1, v => by
    unfold wording
    split
    · exact hk _
    · exact regular_read fun s => hk _
    · refine regular_read fun s => ?_
      split
      · exact hk _
      · intro c
        cases c with
        | returned vs | yielded vs =>
          dsimp only
          split <;> exact hk _
        | raised w => exact regular_wording hk fuel w

theorem regular_attempt {task : Task} {k : List Value → Code} {failed : String → Code}
    (hk : ∀ vs, (k vs).Regular) (hf : ∀ text, (failed text).Regular) :
    (attempt task k failed).Regular := by
  intro c
  cases c with
  | returned vs | yielded vs => exact hk vs
  | raised v => exact regular_wording hf _ v

/-! ## Loading -/

theorem regular_runChunk {chunk : Bytes} {body : List Script.Stat} {k : List Value → Code}
    {failed : String → Code} (hk : ∀ vs, (k vs).Regular) (hf : ∀ text, (failed text).Regular) :
    (runChunk chunk body k failed).Regular := by
  refine regular_read fun s => ?_
  change (attempt (.call (.closure s.env.memory.closures.size) []) k failed).Regular
  exact regular_attempt hk hf

theorem regular_loadScript (source : Bytes) (name : String) :
    (loadScript source name).Regular := by
  refine regular_scope nofun nofun ?_ (fun _ => trivial) fun _ => trivial
  split
  · exact trivial
  · exact regular_runChunk (fun _ => trivial) fun _ => trivial

theorem regular_loadNamed (name : String) : (loadNamed name).Regular := by
  refine regular_read fun s => ?_
  split
  · exact trivial
  · exact regular_loadScript _ _

theorem regular_loadCard (code : UInt32) : (loadCard code).Regular := by
  intro st
  dsimp only
  split
  case isTrue => exact trivial
  case isFalse missing =>
    split
    · exact trivial
    case h_2 source _ =>
      refine ⟨nofun, ?_, regular_loadScript _ _, fun _ => trivial, fun _ => trivial⟩
      rintro _ ⟨⟩
      refine ⟨st, finish, source, ?_, Bool.of_not_eq_true missing, rfl⟩
      rw [andThen_finish]
      rfl

theorem regular_evaluate (source : Bytes) : (evaluate source).Regular := by
  unfold evaluate
  dsimp only
  split
  · exact regular_runChunk (fun _ => trivial) fun _ => trivial
  · split
    · exact regular_runChunk (fun _ => trivial) fun _ => trivial
    · exact trivial

/-! ## Calls -/

theorem regular_settle {site : String} {call : Code} (h : call.Regular) :
    (settle site call).Regular := by
  refine regular_andThen h fun r => ?_
  cases r <;> exact trivial

theorem regular_withCount {declared : Nat} {k : Code} (h : k.Regular) :
    (withCount declared k).Regular := by
  refine regular_read fun s => ?_
  dsimp only
  split
  · exact h
  · exact trivial

theorem regular_withStaged {q : Queue} {k : List Value → Code} (h : ∀ vs, (k vs).Regular) :
    (withStaged q k).Regular := by
  refine regular_read fun s => ?_
  split
  · exact h _
  · exact trivial

theorem regular_callWith (f : Value) (args : List Value) (ret : ReturnCount) :
    (callWith f args ret).Regular :=
  regular_attempt (fun _ => trivial) fun _ => trivial

theorem regular_invokeStaged (f : Value) (declared : Nat) (ret : ReturnCount) :
    (invokeStaged f declared ret).Regular :=
  regular_withCount
    (regular_within nofun nofun (regular_withStaged fun _ => regular_callWith _ _ _))

theorem regular_callFunction (c : Callable) (declared : Nat) (ret : ReturnCount) :
    (callFunction c declared ret).Regular := by
  refine regular_settle (regular_read fun s => ?_)
  split
  · exact regular_invokeStaged _ _ _
  · exact trivial

theorem regular_callValue (v : Value) (declared : Nat) (ret : ReturnCount) :
    (callValue v declared ret).Regular := by
  refine regular_settle ?_
  split
  · exact regular_invokeStaged _ _ _
  · split <;> exact trivial

theorem regular_callFound {lookup missing : Code} {declared : Nat} {ret : ReturnCount}
    (hl : lookup.Regular) (hm : missing.Regular) :
    (callFound lookup declared ret missing).Regular := by
  refine regular_andThen hl fun r => ?_
  split
  · dsimp only
    split
    · exact regular_invokeStaged _ _ _
    · exact hm
  · exact trivial
  · exact trivial

theorem regular_lookupMember (kind : ObjectKind) (cls : Option String) (key : Value) :
    (lookupMember kind cls key).Regular := by
  have find (t : Nat) : Regular
      (attempt (.index (.table t) key) values fun text => finish (.raised text)) :=
    regular_attempt (fun _ => trivial) fun _ => trivial
  unfold lookupMember
  split
  · exact trivial
  · refine regular_read fun s => ?_
    split
    · exact find _
    · exact find _
    · exact trivial

theorem regular_lookupInClass (code : UInt32) (name : String) :
    (lookupInClass code name).Regular := by
  refine regular_andThen (regular_loadCard code) fun r => ?_
  split
  · exact trivial
  · exact trivial
  · exact regular_read fun s => regular_attempt (fun _ => trivial) fun _ => trivial

theorem regular_callCard (card : ObjectId) (name : String) (declared : Nat) (ret : ReturnCount)
    (forced : Bool) : (callCard card name declared ret forced).Regular := by
  refine regular_settle (regular_withCount (regular_read fun s => ?_))
  split
  · exact trivial
  · split
    · exact trivial
    · refine regular_callFound (regular_lookupMember _ _ _) ?_
      split <;> exact trivial

theorem regular_callCode (code : UInt32) (name : String) (declared : Nat) (ret : ReturnCount) :
    (callCode code name declared ret).Regular := by
  refine regular_settle ?_
  split
  · exact regular_callFound (fun _ => trivial) trivial
  · exact regular_callFound (regular_lookupInClass _ _) trivial

theorem regular_callOnCard (site : String) (card : ObjectId) (f : Value) (extra : List Value)
    (ret : ReturnCount) : (callOnCard site card f extra ret).Regular := by
  refine regular_andThen ?_ fun r => ?_
  · split
    · refine regular_read fun s => ?_
      split
      · exact regular_within nofun nofun (regular_callWith _ _ _)
      · exact trivial
    · exact trivial
  · cases r <;> exact trivial

/-! ## Operations of several steps, and cards -/

theorem regular_runStep {q : Queue} {s : Scope} (other : s ≠ .query)
    (other' : ∀ code, s ≠ .loading code) (id : CoroutineId) : (runStep q s id).Regular := by
  have resumed : (resumeStaged q id).Regular := by
    refine regular_withStaged fun args => regular_read fun s => ?_
    split
    · intro c
      cases c with
      | returned | yielded => exact trivial
      | raised v =>
        refine regular_wording (fun text => ?_) _ v
        exact trivial
    · exact trivial
  have results (r : Reply) : (stepResult r).Regular := by
    unfold stepResult
    split <;> exact trivial
  have body : (scope s (resumeStaged q id) fail stepResult).Regular :=
    regular_scope other other' resumed (fun _ => trivial) results
  refine regular_scope nofun nofun body (fun f => ?_) fun r => ?_
  · exact trivial
  · cases r <;> exact trivial

theorem regular_callCoroutine (c : Callable) (declared : Nat) (id : CoroutineId) (step : Nat) :
    (callCoroutine c declared id step).Regular := by
  unfold callCoroutine
  split
  · refine regular_read fun s => ?_
    dsimp only
    split
    · split
      · exact regular_runStep (by nofun) (by nofun) _
      · exact trivial
    · exact trivial
  · exact regular_runStep (by nofun) (by nofun) _

theorem regular_bindObject {o : ObjectRef} {cls : Option String} {k : Handle → Code}
    (h : ∀ handle, (k handle).Regular) : (bindObject o cls k).Regular := by
  unfold bindObject
  split
  · exact trivial
  · refine regular_read fun s => ?_
    split
    · exact trivial
    · exact regular_read fun s => h _

theorem regular_register (o : ObjectRef) : (register o).Regular := by
  refine regular_bindObject fun handle => ?_
  exact trivial

theorem regular_registerCard (info : CardInfo) : (registerCard info).Regular := by
  refine regular_read fun s => ?_
  dsimp only
  split
  · exact trivial
  · have bound (cls : Option String) (fresh : Bool) (code : UInt32) :
        Regular (bindObject (.card info.id) cls fun h =>
          if fresh && info.setUp && code ≠ 0 then
            write (.stage .call false (.object (.card info.id))) <|
              (callCard info.id "initial_effect" 1 (.exactly 0) false).andThen fun _ =>
                answer (.handle h)
          else answer (.handle h)) := by
      refine regular_bindObject fun handle => ?_
      split
      · exact regular_andThen (regular_callCard _ _ _ _ _) fun _ => trivial
      · exact trivial
    split
    · exact bound _ _ _
    · exact regular_andThen (regular_loadCard _) fun _ => bound _ _ _

theorem regular_unregister (o : ObjectRef) : (unregister o).Regular := by
  refine regular_read fun s => ?_
  split <;> exact trivial

/-! ## Other operations -/

theorem regular_stageTyped (raw : Int64) (type : ParamType) (front : Bool) :
    (stageTyped raw type front).Regular := by
  unfold stageTyped
  split
  · exact trivial
  · refine regular_read fun s => ?_
    split <;> exact trivial

theorem regular_takeStaged (q : Queue) : (takeStaged q).Regular := by
  refine regular_withStaged fun vs => ?_
  exact trivial

theorem regular_hold (slot : String) (v : Value) : (hold slot v).Regular := by
  unfold hold
  split
  · exact trivial
  · split
    · refine regular_read fun s => ?_
      split <;> exact trivial
    · exact trivial

theorem regular_holdGlobal (slot name : String) : (holdGlobal slot name).Regular := by
  refine regular_read fun s => ?_
  dsimp only
  split
  · exact regular_hold _ _
  · exact trivial

theorem regular_requireAction : requireAction.Regular := by
  refine regular_read fun s => ?_
  split <;> exact trivial

theorem regular_printTrace : printTrace.Regular := by
  intro ls
  dsimp only
  split <;> exact trivial

end Code

open Code

/-- Operations are regular. -/
theorem Operation.regular_code (o : Operation) : o.code.Regular := by
  cases o with
  | loadScript source name => exact regular_loadScript _ _
  | loadNamed name => exact regular_loadNamed _
  | loadCard code => exact regular_loadCard _
  | evaluate source => exact regular_evaluate _
  | register o => exact regular_register _
  | registerCard info => exact regular_registerCard _
  | unregister o => exact regular_unregister _
  | stageTyped raw type front => exact regular_stageTyped _ _ _
  | takeStaged q => exact regular_takeStaged _
  | hold slot v => exact regular_hold _ _
  | holdGlobal slot name => exact regular_holdGlobal _ _
  | callFunction c declared ret => exact regular_callFunction _ _ _
  | callValue v declared ret => exact regular_callValue _ _ _
  | callCard card name declared ret forced => exact regular_callCard _ _ _ _ _
  | callCode code name declared ret => exact regular_callCode _ _ _ _
  | checkCondition condition declared =>
    cases condition with
    | none => exact trivial
    | some c =>
      exact regular_query (o := .checkCondition (some c) declared) trivial rfl
        (regular_callFunction _ _ _)
  | functionValue f declared =>
    cases f with
    | none => exact trivial
    | some c =>
      exact regular_query (o := .functionValue (some c) declared) trivial rfl
        (regular_callFunction _ _ _)
  | functionValues f declared =>
    cases f with
    | none => exact trivial
    | some c =>
      exact regular_query (o := .functionValues (some c) declared) trivial rfl
        (regular_callFunction _ _ _)
  | checkMatching card f extra | operationValue card f extra | operationValues card f extra =>
    exact regular_unlessNil id rfl (regular_callOnCard _ _ _ _ _)
  | checkMatchingTable card f table =>
    exact regular_unlessNil id rfl (regular_read fun s => regular_callOnCard _ _ _ _ _)
  | callCoroutine c declared id step => exact regular_callCoroutine _ _ _ _
  | requireAction => exact regular_requireAction
  | printTrace => exact regular_printTrace
  | stage | clear | emit | report => exact trivial
  | abandon => exact fun _ => trivial

/-! ## Hosts -/

namespace Code

theorem regular_askObject {v : Value} {inert : List Value} {live : GameObject → Code}
    (h : ∀ g, (live g).Regular) : (askObject v inert live).Regular := by
  refine regular_read fun s => ?_
  split
  · split
    · exact trivial
    · exact h _
  · exact trivial

theorem regular_textsOf {f : Value} {k : List String → Code} (h : ∀ ts, (k ts).Regular)
    (vs : List Value) : (textsOf f vs k).Regular := by
  induction vs generalizing k with
  | nil => exact h []
  | cons v vs ih => exact regular_attempt (fun rs => ih fun ts => h _) fun text => trivial

theorem regular_sendMessage (args : List Value) : (sendMessage args).Regular := by
  refine regular_attempt (fun found => ?_) fun text => trivial
  dsimp only
  split
  · refine regular_textsOf (fun ts => ?_) args
    exact trivial
  · exact trivial

/-- The functions that the library lends are regular, if those of the host are. -/
theorem regular_native {lent : Nat → List Value → Code} (h : ∀ n args, (lent n args).Regular)
    (n : Script.Native) (args : List Value) : (native lent n args).Regular := by
  unfold native
  cases n with
  | member =>
    refine regular_askObject fun g => ?_
    exact regular_lookupMember _ _ _
  | assign | length =>
    refine regular_askObject fun g => ?_
    exact trivial
  | join | render =>
    refine regular_read fun s => ?_
    split <;> exact trivial
  | inertFalse | inertZero => exact trivial
  | message => exact regular_sendMessage args
  | stackTrace => exact regular_andThen regular_printTrace fun _ => trivial
  | host n => exact h n args

theorem regular_withDepth {body : Code} (h : body.Regular) : ∀ n : Nat, (withDepth n body).Regular
  | 0 => h
  | n + 1 => regular_within nofun nofun (regular_withDepth h n)

end Code

namespace Host

variable {args : List Value}

mutual

theorem regular_withValue : ∀ (t : Term) {k : Value → Code}, (∀ v, (k v).Regular) →
    (t.withValue args k).Regular
  | .value v, k, h => h v
  | .list items, k, h => regular_withValues items fun vs => regular_read fun s => h _
  | .global name, k, h => regular_read fun s => h _
  | .object o, k, h => by
    refine regular_read fun s => ?_
    split
    · exact h _
    · exact trivial
  | .arg i, k, h => h _
  | .argInteger i, k, h => h _

theorem regular_withValues : ∀ (ts : List Term) {k : List Value → Code}, (∀ vs, (k vs).Regular) →
    (withValues args ts k).Regular
  | [], _, h => h []
  | t :: ts, _, h => regular_withValue t fun v => regular_withValues ts fun vs => h (v :: vs)

end

theorem regular_withArgument (a : Staged) {k : Argument → Code} (h : ∀ a, (k a).Regular) :
    (a.withArgument args k).Regular := by
  cases a with
  | plain a => exact h a
  | argInteger i => exact h _
  | value t => exact regular_withValue t fun v => h _
  | function slot =>
    refine regular_read fun s => ?_
    split
    · exact h _
    · exact trivial

theorem regular_withNumber (n : Number) {k : UInt32 → Code} (h : ∀ n, (k n).Regular) :
    (n.withNumber args k).Regular := by
  cases n with
  | literal n => exact h n
  | ofArg i => exact regular_read fun s => h _

theorem regular_withSlot {slot : String} {k : Callable → Code} (h : ∀ c, (k c).Regular) :
    (withSlot slot k).Regular := by
  refine regular_read fun s => ?_
  split
  · exact regular_within nofun nofun (h _)
  · exact trivial

theorem regular_withOptionalSlot {slot : Option String} {k : Option Callable → Code}
    (h : ∀ c, (k c).Regular) : (withOptionalSlot slot k).Regular := by
  cases slot with
  | none => exact h none
  | some slot => exact regular_withSlot fun c => h (some c)

mutual

/-- The steps of host programs are regular. -/
theorem Step.regular_code : ∀ step : Step, (step.code args).Regular
  | .loadScript source name => (Operation.loadScript source name).regular_code
  | .loadNamed name => (Operation.loadNamed name).regular_code
  | .loadCard code => regular_withNumber code fun n => Operation.regular_code _
  | .isCardLoaded code => regular_withNumber code fun n s => trivial
  | .classTable name => fun s => trivial
  | .evaluate source => (Operation.evaluate source).regular_code
  | .register o => (Operation.register o).regular_code
  | .registerNumber kind id => regular_withNumber id fun n => Operation.regular_code _
  | .registerCard id code aliasCode setUp =>
    regular_withNumber id fun i => regular_withNumber code fun c => Operation.regular_code _
  | .unregister o => (Operation.unregister o).regular_code
  | .unregisterNumber kind id => regular_withNumber id fun n => Operation.regular_code _
  | .objectBehind handle => regular_withNumber handle fun n s => trivial
  | .handleOf o => fun s => trivial
  | .counts => fun s => trivial
  | .objectValue o => @regular_withValue args (.object o) _ fun v => trivial
  | .objectOfValue t => regular_withValue t fun v s => trivial
  | .stage q front a => regular_withArgument a fun a => Operation.regular_code _
  | .stageTyped raw type front => (Operation.stageTyped raw type front).regular_code
  | .clear q => (Operation.clear q).regular_code
  | .takeStaged q => (Operation.takeStaged q).regular_code
  | .hold slot t => regular_withValue t fun v => Operation.regular_code _
  | .holdGlobal slot name => (Operation.holdGlobal slot name).regular_code
  | .copySlot source target => trivial
  | .dropSlot slot => fun s => trivial
  | .slotInfo slot => fun s => trivial
  | .sameSlots a b => fun s => by
    dsimp only
    split <;> exact trivial
  | .call slot declared ret => regular_withSlot fun c => Operation.regular_code _
  | .callValue t declared ret => regular_withValue t fun v => Operation.regular_code _
  | .callCard id name declared ret forced => regular_withNumber id fun n => Operation.regular_code _
  | .callCode code name declared ret => regular_withNumber code fun n => Operation.regular_code _
  | .checkCondition slot declared =>
    regular_withOptionalSlot fun c => (Operation.checkCondition c declared).regular_code
  | .checkMatching id filter extra | .operationValue id filter extra
  | .operationValues id filter extra =>
    regular_withNumber id fun n => regular_withValue filter fun f =>
      regular_withValues extra fun vs => Operation.regular_code _
  | .checkMatchingTable id filter table =>
    regular_withNumber id fun n => regular_withValue filter fun f =>
      regular_withValue table fun v => by
        cases v with
        | table t => exact (Operation.checkMatchingTable ⟨n⟩ f t).regular_code
        | _ => exact trivial
  | .functionValue slot declared =>
    regular_withOptionalSlot fun f => (Operation.functionValue f declared).regular_code
  | .functionValues slot declared =>
    regular_withOptionalSlot fun f => (Operation.functionValues f declared).regular_code
  | .coroutine slot declared id step =>
    regular_withNumber id fun n => regular_withSlot fun c => by
      refine regular_andThen (Operation.regular_code _) fun r => ?_
      cases r with
      | answer a =>
        refine regular_read fun s => ?_
        cases a <;> exact trivial
      | suspended | failed | raised => exact trivial
  | .abandon id => regular_withNumber id fun n => Operation.regular_code _
  | .phase id => regular_withNumber id fun n s => trivial
  | .info => fun s => trivial
  | .requireAction => Operation.requireAction.regular_code
  | .withDepth n steps => by
    refine regular_withDepth (regular_collect steps fun rs => ?_) n
    exact trivial
  | .emit kind text => (Operation.emit kind text).regular_code
  | .report site f => (Operation.report site f).regular_code
  | .printTrace => Operation.printTrace.regular_code

theorem regular_collect : ∀ (steps : List Step) {k : List Report → Code},
    (∀ rs, (k rs).Regular) → (collect args steps k).Regular
  | [], _, h => h []
  | step :: steps, _, h =>
    regular_andThen step.regular_code fun _ => regular_read fun _ => regular_collect steps fun _ =>
      h _

end

theorem Program.regular_runSteps (p : Program) {k : List Value → Code}
    (h : ∀ vs, (k vs).Regular) :
    ∀ (steps : List Step) (last : List Value), (p.runSteps args steps last k).Regular
  | [], last => h last
  | step :: steps, last => by
    refine regular_andThen step.regular_code fun r => regular_read fun s => ?_
    cases r with
    | answer a => exact p.regular_runSteps h steps a.toValues
    | suspended | failed | raised =>
      change Code.Regular (if p.catches then _ else _)
      split
      · exact p.regular_runSteps h steps []
      · exact trivial

/-- Whatever scripts of a world call is regular. -/
theorem World.regular_host (w : World) (n : Script.Native) (args : List Value) :
    (w.host n args).Regular := by
  refine regular_native (fun n args => ?_) n args
  split
  case h_1 p _ =>
    refine regular_read fun s => p.regular_runSteps (fun last => ?_) p.steps []
    split
    · refine regular_withValues _ fun vs => ?_
      exact trivial
    · exact trivial
  case h_2 => exact trivial

/-- The scripts that an environment begins with are loaded by regular code. -/
theorem regular_preload : ∀ names : List String, (preload names).Regular
  | [] => trivial
  | name :: names => by
    refine regular_andThen (Operation.regular_code _) fun r => ?_
    cases r with
    | failed f => exact trivial
    | answer | suspended | raised => exact regular_preload names

end Host

/-! ## Public code -/

theorem Operation.public_code (o : Operation) : o.code.Public :=
  o.regular_code.public

/-- The functions that the library lends are public, if those of the host are. -/
theorem Code.public_native {lent : Nat → List Value → Code} (h : ∀ n args, (lent n args).Public)
    (n : Script.Native) (args : List Value) : (native lent n args).Public := by
  have nothing : done.Regular := trivial
  have others (n : Script.Native) (same : native (fun _ _ => done) n args = native lent n args) :
      (native lent n args).Public := by
    rw [← same]
    exact (regular_native (fun _ _ => nothing) n args).public
  cases n with
  | host n => exact h n args
  | member | assign | length | join | render | inertFalse | inertZero | message | stackTrace =>
    exact others _ rfl

end CardBridge
