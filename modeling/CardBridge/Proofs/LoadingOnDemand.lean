import CardBridge.Proofs.StagedAhead

/-!
# Loading on demand

A call of a member of a class loads the script of the class if need be, and then the arguments of
the call are staged already. Or the script is loaded first, and the arguments are staged after that.
`call_code_loads_on_demand` says that both come to the same moment, and so to the same result : the
call in the loaded class, with the arguments in the queue behind what the script has left there.

There are two conditions. Nothing that runs while the script is loaded may look at the queue or
change it, since the queue is one for all : a function of the host that uses it uses the arguments
of the call as well (`not_loads_on_demand`). And the class has to be there when its script has
ended, since otherwise the script is loaded once more by the call.
-/

namespace CardBridge

open Machine Host

namespace Code

variable {host : CardBridge.Host} {K : List Frame} {s s₁ : State} {code : UInt32}

/-! ## The call in a loaded class -/

/-- The look-up of a member of a class, after the attempt to load its script. -/
def lookupLoaded (code : UInt32) (name : String) : Reply → Code
  | .failed f => fail f
  | .raised text => finish (.raised text)
  | _ =>
    write (.makeClass (scriptClass code)) <|
      read fun s =>
        attempt (.index (s.global (scriptClass code)) (.text name)) values
          fun text => finish (.raised text)

/-- The call of a member of a class, after the attempt to load its script. -/
def callLoaded (code : UInt32) (name : String) (declared : Nat) (ret : ReturnCount) (r : Reply) :
    Code :=
  settle name <|
    callFound (lookupLoaded code name r) declared ret
      (fail (.missingFunction (scriptClass code) name))

/-- A call of a member of a class begins with the attempt to load its script. -/
theorem callCode_eq (other : code ≠ 0) (name : String) (declared : Nat) (ret : ReturnCount) :
    callCode code name declared ret =
      (loadCard code).andThen (callLoaded code name declared ret) := by
  rw [callCode, if_neg other]
  unfold settle callFound lookupInClass
  rw [andThen_assoc, andThen_assoc]
  refine congrArg (loadCard code).andThen (funext fun r => ?_)
  rw [callLoaded, settle, callFound, andThen_assoc]
  cases r <;> rfl

theorem isClassLoaded_stageAll (args : List Argument) :
    ∀ s : State, isClassLoaded (s.stageAll args) code = isClassLoaded s code := by
  induction args with
  | nil => exact fun _ => rfl
  | cons a args ih => exact fun s => (ih _).trans (s.isClassLoaded_stage a code)

theorem steps_stageAll (args : List Argument) (c : Code) :
    ∀ s : State, Steps host K ⟨s, .host (stageAll args c), K⟩ ⟨s.stageAll args, .host c, K⟩ := by
  induction args with
  | nil => exact fun _ => .done _
  | cons a args ih => exact fun s => .step rfl List.suffix_rfl (ih _)

/-! ## Loading with arguments staged -/

/-- A script is loaded without regard to the queue, if what it calls of the host is unaware of
it. -/
theorem loadCard_leavesQueue {lent : Nat → List Script.Value → Code}
    (unaware : ∀ i args, (lent i args).Unaware) (hK : ∀ F ∈ K, F.Waits Unaware) {m : Machine}
    (steps : Steps (native lent) K ⟨s, .host (loadCard code), K⟩ m) (args : List Argument) :
    m.LeavesQueue args := by
  have begins : Codes Unaware ⟨s, .host (loadCard code), K⟩ := codes_host (unaware_loadCard code) hK
  have codes := begins.steps hereditary_unaware
    (fun n as => unaware_native fun i _ => unaware i as) steps
  exact codes.leavesQueue

/-- A load through which the queue is left alone is the same load with arguments staged. -/
theorem Gives.loadCard_stageAll {r : Reply} {args : List Argument}
    (loads : Gives host K s (loadCard code) r s₁)
    (alone : args ≠ [] → ∀ m, Steps host K ⟨s, .host (loadCard code), K⟩ m →
      m.LeavesQueue args ∧ m.state.Owns args) :
    Gives host K (s.stageAll args) (loadCard code) r (s₁.stageAll args) := by
  by_cases empty : args = []
  · subst empty
    exact loads
  · exact Steps.stageAll loads (alone empty)

/-- **Loading on demand is transparent.** Where the script of a class loads, where nothing meanwhile
uses the queue for calls or lets the last owner of an argument go, and where the class is there when
it ends, it makes no difference for a call of a member whether the script is loaded by the call,
with its arguments staged, or before the arguments are staged. Both come to the same moment, at
which the member is to be looked up and called, and to the same result in the same state. -/
theorem call_code_loads_on_demand (name : String) (args : List Argument) (declared : Nat)
    (ret : ReturnCount) (other : code ≠ 0)
    (loads : Gives host K s (loadCard code) (.answer .done) s₁)
    (there : isClassLoaded s₁ code = true)
    (alone : args ≠ [] → ∀ m, Steps host K ⟨s, .host (loadCard code), K⟩ m →
      m.LeavesQueue args ∧ m.state.Owns args) :
    let call := stageAll args (callCode code name declared ret)
    let loaded : Machine := ⟨s₁.stageAll args,
      .host (callLoaded code name declared ret (.answer .done)), K⟩
    Steps host K ⟨s, .host call, K⟩ loaded ∧
    Steps host K ⟨s, .host ((loadCard code).andThen fun _ => call), K⟩ loaded ∧
    ∀ r s', Gives host K s call r s' ↔
      Gives host K s ((loadCard code).andThen fun _ => call) r s' := by
  intro call loaded
  have with_args := loads.loadCard_stageAll alone
  have again : Gives host K (s₁.stageAll args) (loadCard code) (.answer .done)
      (s₁.stageAll args) :=
    gives_loadCard_of_loaded ((isClassLoaded_stageAll args s₁).trans there)
  have on_demand : Steps host K ⟨s, .host call, K⟩ loaded := by
    refine (steps_stageAll args _ s).trans ?_
    rw [callCode_eq other]
    exact with_args.steps_andThen
  have before : Steps host K ⟨s, .host ((loadCard code).andThen fun _ => call), K⟩ loaded := by
    refine loads.steps_andThen.trans ((steps_stageAll args _ s₁).trans ?_)
    rw [callCode_eq other]
    exact again.steps_andThen
  exact ⟨on_demand, before, fun r s' => on_demand.ends_iff.trans before.ends_iff.symm⟩

/-! ### Two scripts -/

/-- A host with one function, which does one operation. -/
def lending (o : Operation) : CardBridge.Host :=
  native fun _ _ => o.code

/-- An environment with a script for the code `5`. Scripts know the function of the host as
`ask`. -/
def withScript (source : String) : State :=
  let blueprint := { Blueprint.plain ⟨1⟩ with reader := .store [("c5.lua", bytes source)] }
  let env := blueprint.environment 0
  ⟨{ env with memory := setGlobal env.memory "ask" (.native (.host 0)) }, .empty⟩

/-- A script with a member that gives back what it is given. It asks the host for something. -/
def askingScript : String :=
  "function self_table.f(x) return x end ask()"

/-- A script that takes its class away when it is loaded first, and has such a member then. -/
def lateScript : String :=
  "if again then function self_table.f(x) return x end else again = true c5 = nil end"

/-- The call of that member, with one argument staged for it. -/
def askedCall : Code :=
  stageAll [.int 9] (callCode 5 "f" 1 (.exactly 1))

/-- A load that has come to its end, with the class there or not. -/
def loadedAs (there : Bool) (r : Reply) (s : State) : Bool :=
  match r with
  | .answer .done => isClassLoaded s 5 = there
  | _ => false

theorem Gives.of_loadedAs {c : Code} {there : Bool} {r : Reply} (h : Gives host K s c r s₁)
    (loaded : loadedAs there r s₁ = true) :
    Gives host K s c (.answer .done) s₁ ∧ isClassLoaded s₁ 5 = there := by
  unfold loadedAs at loaded
  split at loaded
  · exact ⟨h, of_decide_eq_true loaded⟩
  · cases loaded

theorem call_code_loads_on_demand_action : ∃ r s',
    Gives (lending .requireAction) [] (withScript askingScript) askedCall r s' ∧
      r.isFailure = false := by
  obtain ⟨r₁, s₁, gives, loaded⟩ := exists_gives
    (by decide +kernel : endsAs (loadedAs true) (Machine.run (lending .requireAction) 1000
      (.start (withScript askingScript) (loadCard 5))) = true)
  obtain ⟨loads, there⟩ := gives.of_loadedAs loaded
  have alone (m : Machine) (steps : Steps (lending .requireAction) []
      ⟨withScript askingScript, .host (loadCard 5), []⟩ m) :
      m.LeavesQueue [.int 9] ∧ m.state.Owns [.int 9] :=
    ⟨loadCard_leavesQueue (fun _ _ => Operation.unaware (o := .requireAction) id)
      (fun _ mem => (List.not_mem_nil mem).elim) steps _, by simp [State.Owns]⟩
  obtain ⟨-, -, same⟩ := call_code_loads_on_demand "f" [.int 9] 1 (.exactly 1) (by decide)
    loads there fun _ => alone
  obtain ⟨r, s', before, good⟩ := exists_gives
    (by decide +kernel : endsAs (fun r _ => !r.isFailure)
      (Machine.run (lending .requireAction) 2000
        (.start (withScript askingScript) ((loadCard 5).andThen fun _ => askedCall))) = true)
  exact ⟨r, s', (same r s').mpr before, by simpa using good⟩

/-- Without conditions, the results of a call with and without its script loaded before are not the
same : a function of the host that the script calls takes the arguments away. -/
theorem not_loads_on_demand : ¬ ∀ (host : CardBridge.Host) (K : List Frame) (s s₁ s₂ : State)
    (b : Bridge) (code : UInt32) (name : String) (args : List Argument) (declared : Nat)
    (ret : ReturnCount), s.env.bridge = some b → s.staged .call = [] →
    b.depth.current < b.depth.max → code ≠ 0 → isClassLoaded s code = false →
    Gives host K s (loadCard code) (.answer .done) s₁ →
    Gives host K (s.stageAll args) (loadCard code) (.answer .done) s₂ →
    ∀ r s' r' s'', Gives host K s (stageAll args (callCode code name declared ret)) r s' →
      Gives host K s ((loadCard code).andThen fun _ =>
        stageAll args (callCode code name declared ret)) r' s'' → r = r' := by
  intro same
  let asks := lending (.functionValue none 0)
  let s := withScript askingScript
  obtain ⟨r₁, s₁, gives, loaded⟩ := exists_gives
    (by decide +kernel : endsAs (loadedAs true)
      (Machine.run asks 1000 (.start s (loadCard 5))) = true)
  obtain ⟨r₂, s₂, gives', loaded'⟩ := exists_gives
    (by decide +kernel : endsAs (loadedAs true)
      (Machine.run asks 1000 (.start (s.stageAll [.int 9]) (loadCard 5))) = true)
  obtain ⟨r, s', on_demand, bad⟩ := exists_gives
    (by decide +kernel : endsAs (fun r _ => r.isFailure)
      (Machine.run asks 2000 (.start s askedCall)) = true)
  obtain ⟨r', s'', before, good⟩ := exists_gives
    (by decide +kernel : endsAs (fun r _ => !r.isFailure)
      (Machine.run asks 2000 (.start s ((loadCard 5).andThen fun _ => askedCall))) = true)
  obtain rfl := same asks [] s s₁ s₂ _ 5 "f" [.int 9] 1 (.exactly 1) rfl rfl (by decide)
    (by decide) (by decide +kernel) (gives.of_loadedAs loaded).1 (gives'.of_loadedAs loaded').1
    r s' r' s'' on_demand before
  simp [bad] at good

/-- A script that takes its class away is loaded once more, so the results are not the same
either. -/
theorem not_loads_on_demand_without_class : ∃ r s' r' s'',
    Gives idle [] (withScript lateScript) askedCall r s' ∧ r.isFailure = true ∧
    Gives idle [] (withScript lateScript) ((loadCard 5).andThen fun _ => askedCall) r' s'' ∧
      r'.isFailure = false := by
  obtain ⟨r, s', on_demand, bad⟩ := exists_gives
    (by decide +kernel : endsAs (fun r _ => r.isFailure)
      (Machine.run idle 2000 (.start (withScript lateScript) askedCall)) = true)
  obtain ⟨r', s'', before, good⟩ := exists_gives
    (by decide +kernel : endsAs (fun r _ => !r.isFailure)
      (Machine.run idle 2000
        (.start (withScript lateScript) ((loadCard 5).andThen fun _ => askedCall))) = true)
  exact ⟨r, s', r', s'', on_demand, bad, before, by simpa using good⟩

end Code

end CardBridge
