import CardBridge.Proofs.GuardedCode
import CardBridge.Proofs.StagingQueue

/-!
# Errands

The queue of arguments for calls is one, and all code of the host uses it. `Code.Spares` says of
host code that it leaves this queue alone, which is a fact about its tree. A `Code.Errand` stages
arguments only to make a call that declares as many, and does nothing else while they are staged; it
may do so several times, or never.

The operations that have scripts run and do not take their arguments out of this queue are errands
(`Operation.errand`). All of them spare it, but for the set-up of a new card, for which the card is
staged.
-/

namespace CardBridge

open Script (Value)

/-- A change of one of the queues. -/
def Update.Touches (q : Queue) : Update → Prop
  | stage q' .. | clear q' => q' = q
  | _ => False

theorem Update.onQueue_of_not_touches {u : Update} {q : Queue} (h : ¬ u.Touches q)
    (args : ArgumentQueue) : u.onQueue q args = args := by
  cases u with
  | stage | clear => exact if_neg h
  | _ => rfl

namespace Code

/-- Host code that leaves the queue for calls alone. -/
def Spares : Code → Prop
  | finish _ => True
  | read k => ∀ s, (k s).Spares
  | write u c => ¬ u.Touches .call ∧ c.Spares
  | run _ k => ∀ c, (k c).Spares
  | trace k => ∀ ls, (k ls).Spares
  | scope _ body refused k => body.Spares ∧ (∀ f, (refused f).Spares) ∧ ∀ r, (k r).Spares

theorem spares_andThen {c : Code} {next : Reply → Code} (h : c.Spares)
    (h' : ∀ r, (next r).Spares) : (c.andThen next).Spares := by
  induction c with
  | finish r => exact h' r
  | read k ih => exact fun s => ih s (h s)
  | write u c ih => exact ⟨h.1, ih h.2⟩
  | run task k ih => exact fun c => ih c (h c)
  | trace k ih => exact fun ls => ih ls (h ls)
  | scope s body refused k _ ihr ihk =>
    exact ⟨h.1, fun f => ihr f (h.2.1 f), fun r => ihk r (h.2.2 r)⟩

theorem andThen_finish (c : Code) : c.andThen finish = c := by
  induction c with
  | finish r => rfl
  | read k ih => exact congrArg read (funext ih)
  | write u c ih => exact congrArg (write u) ih
  | run task k ih => exact congrArg (run task) (funext ih)
  | trace k ih => exact congrArg trace (funext ih)
  | scope s body refused k _ ihr ihk =>
    exact congrArg₂ (scope s body) (funext ihr) (funext ihk)

theorem spares_within {s : Scope} {body : Code} (h : body.Spares) : (within s body).Spares :=
  ⟨h, fun _ => trivial, fun _ => trivial⟩

theorem spares_wording {k : String → Code} (hk : ∀ text, (k text).Spares) :
    ∀ (fuel : Nat) (v : Value), (wording fuel v k).Spares
  | 0, v => hk _
  | fuel + 1, v => by
    unfold wording
    split
    · exact hk _
    · exact fun s => hk _
    · intro s
      dsimp only
      split
      · exact hk _
      · intro c
        cases c with
        | returned vs | yielded vs =>
          dsimp only
          split <;> exact hk _
        | raised w => exact spares_wording hk fuel w

theorem spares_attempt {task : Task} {k : List Value → Code} {failed : String → Code}
    (hk : ∀ vs, (k vs).Spares) (hf : ∀ text, (failed text).Spares) :
    (attempt task k failed).Spares := by
  intro c
  cases c with
  | returned vs | yielded vs => exact hk vs
  | raised v => exact spares_wording hf _ v

theorem spares_callWith (f : Value) (args : List Value) (ret : ReturnCount) :
    (callWith f args ret).Spares :=
  spares_attempt (fun _ => trivial) fun _ => trivial

/-- What a queue is not touched by does not take the arguments in it. -/
theorem not_spares_withStaged (s : State) (k : List Value → Code) :
    ¬ (withStaged .call k).Spares :=
  fun h => (h s).1 rfl

theorem spares_withStaged {k : List Value → Code} (h : ∀ vs, (k vs).Spares) :
    (withStaged .resume k).Spares := by
  refine fun s => ⟨nofun, ?_⟩
  split
  · exact h _
  · exact trivial

/-! ## Loading and look-ups -/

theorem spares_reportScript (site text : String) : (reportScript site text).Spares :=
  ⟨id, trivial⟩

theorem spares_loadScript (source : Bytes) (name : String) : (loadScript source name).Spares := by
  refine ⟨?_, fun _ => ⟨id, trivial⟩, fun _ => trivial⟩
  split
  · exact spares_reportScript _ _
  · exact fun s => ⟨id, spares_attempt (fun _ => trivial) fun _ => spares_reportScript _ _⟩

theorem spares_loadNamed (name : String) : (loadNamed name).Spares := by
  intro s
  dsimp only
  split
  · exact trivial
  · exact spares_loadScript _ _

theorem spares_loadCard (code : UInt32) : (loadCard code).Spares := by
  intro s
  dsimp only
  split
  · exact trivial
  · split
    · exact trivial
    · exact spares_within (spares_loadScript _ _)

theorem spares_lookupMember (kind : ObjectKind) (cls : Option String) (key : Value) :
    (lookupMember kind cls key).Spares := by
  have find (t : Nat) : Spares
      (attempt (.index (.table t) key) values fun text => finish (.raised text)) :=
    spares_attempt (fun _ => trivial) fun _ => trivial
  unfold lookupMember
  split
  · exact trivial
  · intro s
    dsimp only
    split
    · exact find _
    · exact find _
    · exact trivial

theorem spares_lookupInClass (code : UInt32) (name : String) :
    (lookupInClass code name).Spares := by
  refine spares_andThen (spares_loadCard code) fun r => ?_
  split
  · exact trivial
  · exact trivial
  · exact ⟨id, fun s => spares_attempt (fun _ => trivial) fun _ => trivial⟩

/-! ## Queries and steps -/

theorem spares_query {body : Code} {reading : List Value → Answer} {otherwise : Answer}
    (h : body.Spares) : (query body reading otherwise).Spares := by
  refine ⟨h, fun _ => trivial, fun r => ?_⟩
  dsimp only
  split <;> exact trivial

theorem spares_callOnCard (site : String) (card : ObjectId) (f : Value) (extra : List Value)
    (ret : ReturnCount) : (callOnCard site card f extra ret).Spares := by
  refine spares_andThen ?_ fun r => ?_
  · split
    · intro s
      dsimp only
      split
      · exact spares_within (spares_callWith _ _ _)
      · exact trivial
    · exact trivial
  · split
    · exact ⟨id, trivial⟩
    · exact trivial

theorem spares_unlessNil {f : Value} {a : Answer} {c : Code} (h : c.Spares) :
    (if f = .nil then answer a else c).Spares := by
  split
  · exact trivial
  · exact h

theorem spares_stepResult (r : Reply) : (stepResult r).Spares := by
  unfold stepResult
  split
  · exact trivial
  · exact trivial
  · exact ⟨id, trivial⟩
  · exact trivial

/-- What a coroutine is resumed for, once its arguments are taken. -/
theorem spares_resumed (id : CoroutineId) (args : List Value) :
    Spares (read fun s =>
      match s.env.bridge.bind (·.coroutines.lookup id) with
      | some e =>
        run (.resume e.payload args) fun
          | .returned vs => values vs
          | .yielded vs => finish (.suspended vs)
          | .raised v => wording wordingLimit v fun text => finish (.raised text)
      | none => fail (.coroutine id .unknown)) := by
  intro s
  dsimp only
  split
  · intro c
    cases c with
    | returned vs | yielded vs => exact trivial
    | raised v =>
      refine spares_wording (fun text => ?_) _ v
      exact trivial
  · exact trivial

theorem spares_runStep (scope : Scope) (id : CoroutineId) :
    (runStep .resume scope id).Spares := by
  have failing (f : Failure) : (failStep .resume f).Spares := ⟨nofun, nofun, trivial⟩
  refine ⟨⟨spares_withStaged (spares_resumed id), fun _ => trivial, spares_stepResult⟩, failing,
    fun r => ?_⟩
  dsimp only
  split
  · exact failing _
  · exact trivial

/-! ## Functions of the library -/

theorem spares_raise (text : String) : (raise text).Spares :=
  trivial

theorem spares_askObject {v : Value} {inert : List Value} {live : GameObject → Code}
    (h : ∀ g, (live g).Spares) : (askObject v inert live).Spares := by
  intro s
  dsimp only
  split
  · split
    · exact trivial
    · exact h _
  · exact spares_raise _

theorem spares_textsOf {f : Value} {k : List String → Code} (h : ∀ ts, (k ts).Spares)
    (vs : List Value) : (textsOf f vs k).Spares := by
  induction vs generalizing k with
  | nil => exact h []
  | cons v vs ih => exact spares_attempt (fun rs => ih fun ts => h _) fun text => trivial

theorem spares_sendMessage (args : List Value) : (sendMessage args).Spares := by
  refine spares_attempt (fun found => ?_) fun text => trivial
  dsimp only
  split
  · refine spares_textsOf (fun ts => ?_) args
    exact ⟨id, trivial⟩
  · exact trivial

theorem spares_printTrace : printTrace.Spares := by
  intro ls
  dsimp only
  split
  · exact trivial
  · exact ⟨id, trivial⟩

theorem spares_join (a b : Value) : (join a b).Spares := by
  intro s
  dsimp only
  split
  · exact trivial
  · exact spares_raise _

end Code

/-! ## Calls that errands are for -/

/-- The operations that call a function with the staged arguments, and how many they declare. -/
def Operation.Declares : Operation → Nat → Prop
  | callFunction _ declared _, n | callValue _ declared _, n | callCard _ _ declared _ _, n
  | callCode _ _ declared _, n | checkCondition (some _) declared, n
  | functionValue (some _) declared, n | functionValues (some _) declared, n
  | callCoroutine _ declared _ 0, n => n = declared
  | _, _ => False

namespace Code

/-- Host code that stages arguments only for calls of its own which declare as many, `n` of them so
far. While nothing is staged it may do anything else. -/
inductive Errand : Nat → Code → Prop
  | finish (r : Reply) : Errand 0 (finish r)
  | aside {c : Code} {next : Reply → Code} (h : c.Spares) (hn : ∀ r, Errand 0 (next r)) :
    Errand 0 (c.andThen next)
  | read {n : Nat} {k : State → Code} (h : ∀ s, Errand n (k s)) : Errand n (read k)
  | write {n : Nat} {u : Update} {c : Code} (other : ¬ u.Touches .call) (h : Errand n c) :
    Errand n (write u c)
  | stage {n : Nat} {front : Bool} {a : Argument} {c : Code} (h : Errand (n + 1) c) :
    Errand n (write (.stage .call front a) c)
  | holding {n : Nat} {cs : List Callable} {body : Code} {refused : Failure → Code}
    {k : Reply → Code} (h : Errand n body) (hk : ∀ r, Errand 0 (k r)) :
    Errand n (scope (.holding cs) body refused k)
  | call {n : Nat} {o : Operation} {next : Reply → Code} (declares : o.Declares n)
    (h : ∀ r, Errand 0 (next r)) : Errand n (o.code.andThen next)

theorem Spares.errand {c : Code} (h : c.Spares) : Errand 0 c := by
  have aside := Errand.aside h Errand.finish
  rwa [andThen_finish] at aside

/-- The functions that the library lends are errands, if those of the host are. -/
theorem errand_native {lent : Nat → List Value → Code} (h : ∀ n args, Errand 0 (lent n args))
    (n : Script.Native) (args : List Value) : Errand 0 (native lent n args) := by
  unfold native
  cases n with
  | member =>
    refine (spares_askObject fun g => ?_).errand
    exact spares_lookupMember _ _ _
  | assign | length =>
    refine (spares_askObject fun g => ?_).errand
    exact spares_raise _
  | join => exact (spares_join _ _).errand
  | render =>
    refine Spares.errand fun s => ?_
    dsimp only
    split
    · exact trivial
    · exact spares_raise _
  | inertFalse | inertZero => exact .finish _
  | message => exact (spares_sendMessage args).errand
  | stackTrace => exact .aside spares_printTrace fun _ => .finish _
  | host n => exact h n args

/-- Stage some arguments, and go on. -/
def stageAll (args : List Argument) (c : Code) : Code :=
  args.foldr (fun a c => write (.stage .call false a) c) c

/-- To stage some arguments and to make a call that declares as many is an errand. -/
theorem errand_stageAll {o : Operation} {args : List Argument} (h : o.Declares args.length) :
    Errand 0 (stageAll args o.code) := by
  suffices staging : ∀ (as : List Argument) (n : Nat), o.Declares (n + as.length) →
      Errand n (stageAll as o.code) from staging args 0 (by rwa [Nat.zero_add])
  intro as
  induction as with
  | nil =>
    intro n declares
    have call := Errand.call declares Errand.finish
    rwa [andThen_finish] at call
  | cons a as ih =>
    intro n declares
    refine .stage (ih (n + 1) ?_)
    rwa [Nat.add_right_comm]

theorem errand_bindObject {o : ObjectRef} {cls : Option String} {k : Handle → Code}
    (h : ∀ handle, Errand 0 (k handle)) : Errand 0 (bindObject o cls k) := by
  unfold bindObject
  split
  · exact .finish _
  · refine .read fun s => ?_
    split
    · exact .finish _
    · exact .write id (.read fun s => h _)

theorem errand_registerCard (info : CardInfo) : Errand 0 (registerCard info) := by
  refine .read fun s => ?_
  dsimp only
  split
  · exact .finish _
  · have bound (cls : Option String) (fresh : Bool) (code : UInt32) :
        Errand 0 (bindObject (.card info.id) cls fun h =>
          if fresh && info.setUp && code ≠ 0 then
            write (.stage .call false (.object (.card info.id))) <|
              (callCard info.id "initial_effect" 1 (.exactly 0) false).andThen fun _ =>
                answer (.handle h)
          else answer (.handle h)) := by
      refine errand_bindObject fun handle => ?_
      split
      · exact .stage (.call (o := .callCard info.id "initial_effect" 1 (.exactly 0) false) rfl
          fun _ => .finish _)
      · exact .finish _
    split
    · exact bound _ _ _
    · exact .aside (spares_loadCard _) fun _ => bound _ _ _

end Code

/-- The operations that have scripts run and do not take arguments out of the queue for calls are
errands. -/
theorem Operation.errand {o : Operation} (runs : o.RunsScripts) (other : ¬ o.Invokes) :
    o.code.Errand 0 := by
  cases o with
  | loadScript source name => exact (Code.spares_loadScript _ _).errand
  | loadNamed name => exact (Code.spares_loadNamed _).errand
  | loadCard code => exact (Code.spares_loadCard _).errand
  | registerCard info => exact Code.errand_registerCard info
  | checkMatching card f extra | operationValue card f extra | operationValues card f extra =>
    exact (Code.spares_unlessNil (Code.spares_query (Code.spares_callOnCard _ _ _ _ _))).errand
  | checkMatchingTable card filter table =>
    refine (Code.spares_unlessNil (Code.spares_query ?_)).errand
    exact fun s => Code.spares_callOnCard _ _ _ _ _
  | callCoroutine c declared id step =>
    have later : step ≠ 0 := other
    change (Code.callCoroutine c declared id step).Errand 0
    rw [Code.callCoroutine, if_neg later]
    exact (Code.spares_runStep _ _).errand
  | callFunction | callValue | callCard | callCode | checkCondition | functionValue
  | functionValues => exact absurd trivial other
  | evaluate | register | unregister | stage | stageTyped | clear | takeStaged | hold | holdGlobal
  | abandon | requireAction | emit | report | printTrace => cases runs

end CardBridge
