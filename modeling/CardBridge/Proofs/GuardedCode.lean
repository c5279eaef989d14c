import CardBridge.Session.Operation

/-!
# Host code that guards its scripts

The operations of a session have scripts run inside levels of invocation, so that the bound on these
is a bound on how deep scripts and the host can call each other. `Code.Guarded` says of host code
that all of the tasks it has for scripts are inside a level, apart from those that satisfy `P`; it
is a fact about the tree alone, and one lemma for each combinator gives it for every operation
(`Operation.RunsScripts.guarded`).

There are tasks outside : the member that is called on a card or on the class of a code is looked up
before the level begins, and the look-up runs what a metatable has for it (`Operation.Seeks`).
-/

namespace CardBridge

open Script (Value Memory Completion)

namespace Code

/-- All tasks for scripts are inside levels of invocation, or satisfy `P`. -/
def Guarded (P : Task → Prop) : Code → Prop
  | finish _ => True
  | read k => ∀ s, (k s).Guarded P
  | write _ c => c.Guarded P
  | run task k => P task ∧ ∀ c, (k c).Guarded P
  | trace k => ∀ ls, (k ls).Guarded P
  | scope s body refused k =>
    (s = .guard ∨ body.Guarded P) ∧ (∀ f, (refused f).Guarded P) ∧ ∀ r, (k r).Guarded P

variable {P : Task → Prop}

theorem guarded_andThen {c : Code} {next : Reply → Code} (h : c.Guarded P)
    (h' : ∀ r, (next r).Guarded P) : (c.andThen next).Guarded P := by
  induction c with
  | finish r => exact h' r
  | read k ih => exact fun s => ih s (h s)
  | write u c ih => exact ih h
  | run task k ih => exact ⟨h.1, fun c => ih c (h.2 c)⟩
  | trace k ih => exact fun ls => ih ls (h ls)
  | scope s body refused k _ ihr ihk =>
    exact ⟨h.1, fun f => ihr f (h.2.1 f), fun r => ihk r (h.2.2 r)⟩

theorem Guarded.mono {P' : Task → Prop} {c : Code} (h : c.Guarded P)
    (le : ∀ task, P task → P' task) : c.Guarded P' := by
  induction c with
  | finish r => exact trivial
  | read k ih => exact fun s => ih s (h s)
  | write u c ih => exact ih h
  | run task k ih => exact ⟨le task h.1, fun c => ih c (h.2 c)⟩
  | trace k ih => exact fun ls => ih ls (h ls)
  | scope s body refused k ihb ihr ihk =>
    exact ⟨h.1.imp_right ihb, fun f => ihr f (h.2.1 f), fun r => ihk r (h.2.2 r)⟩

/-- What runs in a level of invocation is guarded, whatever it is. -/
theorem guarded_within (body : Code) : (within .guard body).Guarded P :=
  ⟨.inl rfl, fun _ => trivial, fun _ => trivial⟩

theorem guarded_wording {k : String → Code} (hk : ∀ text, (k text).Guarded P)
    (h : ∀ (m : Memory) v, P (.call (m.metafield v .tostring) [v])) :
    ∀ (fuel : Nat) (v : Value), (wording fuel v k).Guarded P
  | 0, v => hk _
  | fuel + 1, v => by
    unfold wording
    split
    · exact hk _
    · exact fun s => hk _
    · intro s
      dsimp only
      split
      · exact hk _
      · refine ⟨h _ _, fun c => ?_⟩
        cases c with
        | returned vs | yielded vs =>
          dsimp only
          split <;> exact hk _
        | raised w => exact guarded_wording hk h fuel w

theorem guarded_attempt {task : Task} {k : List Value → Code} {failed : String → Code}
    (ht : P task) (hk : ∀ vs, (k vs).Guarded P) (hf : ∀ text, (failed text).Guarded P)
    (h : ∀ (m : Memory) v, P (.call (m.metafield v .tostring) [v])) :
    (attempt task k failed).Guarded P := by
  refine ⟨ht, fun c => ?_⟩
  cases c with
  | returned vs | yielded vs => exact hk vs
  | raised v => exact guarded_wording hf h _ v

/-! ## Operations -/

theorem guarded_settle {site : String} {call : Code} (h : call.Guarded P) :
    (settle site call).Guarded P := by
  refine guarded_andThen h fun r => ?_
  cases r <;> exact trivial

theorem guarded_withCount {declared : Nat} {k : Code} (h : k.Guarded P) :
    (withCount declared k).Guarded P := by
  intro s
  dsimp only
  split
  · exact h
  · exact trivial

theorem guarded_invokeStaged (f : Value) (declared : Nat) (ret : ReturnCount) :
    (invokeStaged f declared ret).Guarded P :=
  guarded_withCount (guarded_within _)

theorem guarded_callFunction (c : Callable) (declared : Nat) (ret : ReturnCount) :
    (callFunction c declared ret).Guarded P := by
  refine guarded_settle fun s => ?_
  dsimp only
  split
  · exact guarded_invokeStaged _ _ _
  · exact trivial

theorem guarded_callValue (v : Value) (declared : Nat) (ret : ReturnCount) :
    (callValue v declared ret).Guarded P := by
  refine guarded_settle ?_
  split
  · exact guarded_invokeStaged _ _ _
  · split <;> exact trivial

theorem guarded_callFound {lookup missing : Code} {declared : Nat} {ret : ReturnCount}
    (hl : lookup.Guarded P) (hm : missing.Guarded P) :
    (callFound lookup declared ret missing).Guarded P := by
  refine guarded_andThen hl fun r => ?_
  split
  · dsimp only
    split
    · exact guarded_invokeStaged _ _ _
    · exact hm
  · exact trivial
  · exact trivial

theorem guarded_loadScript (source : Bytes) (name : String) :
    (loadScript source name).Guarded P :=
  ⟨.inl rfl, fun _ => trivial, fun _ => trivial⟩

theorem guarded_loadNamed (name : String) : (loadNamed name).Guarded P := by
  intro s
  dsimp only
  split
  · exact trivial
  · exact guarded_loadScript _ _

theorem guarded_loadCard (code : UInt32) : (loadCard code).Guarded P := by
  intro s
  dsimp only
  split
  · exact trivial
  · split
    · exact trivial
    · exact ⟨.inr (guarded_loadScript _ _), fun _ => trivial, fun _ => trivial⟩

theorem guarded_query {body : Code} {reading : List Value → Answer} {otherwise : Answer}
    (h : body.Guarded P) : (query body reading otherwise).Guarded P := by
  refine ⟨.inr h, fun _ => trivial, fun r => ?_⟩
  dsimp only
  split <;> exact trivial

theorem guarded_callOnCard (site : String) (card : ObjectId) (f : Value) (extra : List Value)
    (ret : ReturnCount) : (callOnCard site card f extra ret).Guarded P := by
  refine guarded_andThen ?_ fun r => ?_
  · split
    · intro s
      dsimp only
      split
      · exact guarded_within _
      · exact trivial
    · exact trivial
  · cases r <;> exact trivial

theorem guarded_unlessNil {f : Value} {a : Answer} {c : Code} (h : c.Guarded P) :
    (if f = .nil then answer a else c).Guarded P := by
  split
  · exact trivial
  · exact h

theorem guarded_runStep (q : Queue) (s : Scope) (id : CoroutineId) :
    (runStep q s id).Guarded P := by
  refine ⟨.inl rfl, fun _ => trivial, fun r => ?_⟩
  cases r <;> exact trivial

theorem guarded_callCoroutine (c : Callable) (declared : Nat) (id : CoroutineId) (step : Nat) :
    (callCoroutine c declared id step).Guarded P := by
  unfold callCoroutine
  split
  · intro s
    dsimp only
    split
    · split
      · exact guarded_runStep _ _ _
      · exact trivial
    · exact trivial
  · exact guarded_runStep _ _ _

/-- The tasks for scripts that a look-up of a name has : the look-up itself, and the words for what
it raises. -/
inductive Seeks (name : String) : Task → Prop
  | index (v : Value) : Seeks name (.index v (.text name))
  | wording (m : Memory) (v : Value) : Seeks name (.call (m.metafield v .tostring) [v])

theorem guarded_lookupMember (kind : ObjectKind) (cls : Option String) (name : String) :
    (lookupMember kind cls (.text name)).Guarded (Seeks name) := by
  have find (t : Nat) : Guarded (Seeks name)
      (attempt (.index (.table t) (.text name)) values fun text => finish (.raised text)) :=
    guarded_attempt (.index _) (fun _ => trivial) (fun _ => trivial) .wording
  unfold lookupMember
  split
  · exact trivial
  · intro s
    dsimp only
    split
    · exact find _
    · exact find _
    · exact trivial

theorem guarded_lookupInClass (code : UInt32) (name : String) :
    (lookupInClass code name).Guarded (Seeks name) := by
  refine guarded_andThen (guarded_loadCard code) fun r => ?_
  split
  · exact trivial
  · exact trivial
  · intro s
    exact guarded_attempt (.index _) (fun _ => trivial) (fun _ => trivial) .wording

theorem guarded_callCard (card : ObjectId) (name : String) (declared : Nat) (ret : ReturnCount)
    (forced : Bool) : (callCard card name declared ret forced).Guarded (Seeks name) := by
  refine guarded_settle (guarded_withCount fun s => ?_)
  dsimp only
  split
  · exact trivial
  · split
    · exact trivial
    · refine guarded_callFound (guarded_lookupMember _ _ _) ?_
      split <;> exact trivial

theorem guarded_bindObject {o : ObjectRef} {cls : Option String} {k : Handle → Code}
    (h : ∀ handle, (k handle).Guarded P) : (bindObject o cls k).Guarded P := by
  unfold bindObject
  split
  · exact trivial
  · intro s
    dsimp only
    split
    · exact trivial
    · exact fun s => h _

theorem guarded_registerCard (info : CardInfo) :
    (registerCard info).Guarded (Seeks "initial_effect") := by
  intro s
  dsimp only
  split
  · exact trivial
  · have bound (cls : Option String) (fresh : Bool) (code : UInt32) :
        Guarded (Seeks "initial_effect") (bindObject (.card info.id) cls fun h =>
          if fresh && info.setUp && code ≠ 0 then
            write (.stage .call false (.object (.card info.id))) <|
              (callCard info.id "initial_effect" 1 (.exactly 0) false).andThen fun _ =>
                answer (.handle h)
          else answer (.handle h)) := by
      refine guarded_bindObject fun handle => ?_
      split
      · exact guarded_andThen (guarded_callCard _ _ _ _ _) fun _ => trivial
      · exact trivial
    split
    · exact bound _ _ _
    · exact guarded_andThen (guarded_loadCard _) fun _ => bound _ _ _

end Code

namespace Operation

/-- The operations that have scripts run. -/
def RunsScripts : Operation → Prop
  | loadScript .. | loadNamed .. | loadCard .. | registerCard .. => True
  | callFunction .. | callValue .. | callCard .. | callCode .. => True
  | checkCondition .. | checkMatching .. | checkMatchingTable .. => True
  | operationValue .. | operationValues .. | functionValue .. | functionValues .. => True
  | callCoroutine .. => True
  | _ => False

/-- The tasks for scripts that an operation has outside of levels of invocation. -/
def Seeks : Operation → Task → Prop
  | callCard _ name _ _ _, task => Code.Seeks name task
  | callCode code name _ _, task => code ≠ 0 ∧ Code.Seeks name task
  | registerCard _, task => Code.Seeks "initial_effect" task
  | _, _ => False

theorem guarded_callCode (code : UInt32) (name : String) (declared : Nat) (ret : ReturnCount) :
    (Code.callCode code name declared ret).Guarded (callCode code name declared ret).Seeks := by
  refine Code.guarded_settle ?_
  split
  · exact Code.guarded_callFound (fun _ => trivial) trivial
  case isFalse other =>
    refine Code.guarded_callFound ?_ trivial
    refine (Code.guarded_lookupInClass code name).mono fun task h => ⟨other, h⟩

/-- An operation is guarded but for what it seeks. -/
theorem RunsScripts.guarded {o : Operation} (h : o.RunsScripts) : o.code.Guarded o.Seeks := by
  cases o with
  | loadScript source name => exact Code.guarded_loadScript _ _
  | loadNamed name => exact Code.guarded_loadNamed _
  | loadCard code => exact Code.guarded_loadCard _
  | registerCard info => exact Code.guarded_registerCard _
  | callFunction c declared ret => exact Code.guarded_callFunction _ _ _
  | callValue v declared ret => exact Code.guarded_callValue _ _ _
  | callCard card name declared ret forced => exact Code.guarded_callCard _ _ _ _ _
  | callCode code name declared ret => exact guarded_callCode _ _ _ _
  | checkCondition condition declared =>
    cases condition with
    | none => exact trivial
    | some c => exact Code.guarded_query (Code.guarded_callFunction _ _ _)
  | functionValue f declared | functionValues f declared =>
    cases f with
    | none => exact trivial
    | some c => exact Code.guarded_query (Code.guarded_callFunction _ _ _)
  | checkMatching card f extra | operationValue card f extra | operationValues card f extra =>
    exact Code.guarded_unlessNil (Code.guarded_query (Code.guarded_callOnCard _ _ _ _ _))
  | checkMatchingTable card filter table =>
    exact Code.guarded_unlessNil (Code.guarded_query fun s => Code.guarded_callOnCard _ _ _ _ _)
  | callCoroutine c declared id step => exact Code.guarded_callCoroutine _ _ _ _
  | evaluate | register | unregister | stage | stageTyped | clear | takeStaged | hold | holdGlobal
  | abandon | requireAction | emit | report | printTrace => cases h

end Operation

end CardBridge
