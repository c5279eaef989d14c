import CardBridge.Proofs.Courses
import CardBridge.Proofs.FailureChains
import CardBridge.Proofs.FailureReports
import CardBridge.Session.Operation

/-!
# What host code tells of its own

`Code.Makes` says of host code that all changes it makes itself have a property, which is a fact
about its tree. Most host code sends no message of its own (`Update.Tells`) : what goes wrong is
told once, by the operation that has been asked for. The operations that make a call are a call at a
site (`Operation.site`), and before it has come to its end no message is sent for them, except by
the load of the script of a code (`Operation.code_eq_settle`).
-/

namespace CardBridge

open Script (Value)

/-! ## Changes with a property -/

namespace Code

variable {P : Update → Prop}

/-- Host code that makes only changes that satisfy `P`. -/
def Makes (P : Update → Prop) : Code → Prop
  | finish _ => True
  | read k => ∀ s, (k s).Makes P
  | write u c => P u ∧ c.Makes P
  | run _ k => ∀ c, (k c).Makes P
  | trace k => ∀ ls, (k ls).Makes P
  | scope _ body refused k =>
    body.Makes P ∧ (∀ f, (refused f).Makes P) ∧ ∀ r, (k r).Makes P

theorem Makes.path {c : Code} (h : c.Makes P) {us : List Update} {r : Reply} (path : c.Path us r) :
    ∀ u ∈ us, P u := by
  induction path with
  | finish => exact fun u mem => (List.not_mem_nil mem).elim
  | read s _ ih => exact ih (h s)
  | write _ ih => exact List.forall_mem_cons.mpr ⟨h.1, ih h.2⟩
  | run c _ ih => exact ih (h c)
  | trace ls _ ih => exact ih (h ls)
  | refused f _ ih => exact ih (h.2.1 f)
  | scope _ _ ihb ihk => exact List.forall_mem_append.mpr ⟨ihb h.1, ihk (h.2.2 _)⟩

theorem makes_andThen {c : Code} {next : Reply → Code} (h : c.Makes P)
    (h' : ∀ r, (next r).Makes P) : (c.andThen next).Makes P := by
  induction c with
  | finish r => exact h' r
  | read k ih => exact fun s => ih s (h s)
  | write u c ih => exact ⟨h.1, ih h.2⟩
  | run task k ih => exact fun c => ih c (h c)
  | trace k ih => exact fun ls => ih ls (h ls)
  | scope s body refused k _ ihr ihk =>
    exact ⟨h.1, fun f => ihr f (h.2.1 f), fun r => ihk r (h.2.2 r)⟩

theorem makes_within {s : Scope} {body : Code} (h : body.Makes P) : (within s body).Makes P :=
  ⟨h, fun _ => trivial, fun _ => trivial⟩

theorem makes_wording {k : String → Code} (hk : ∀ text, (k text).Makes P) :
    ∀ (fuel : Nat) (v : Value), (wording fuel v k).Makes P
  | 0, v => hk _
  | fuel + 1, v => by
    unfold wording
    split
    · exact hk _
    · exact fun s => hk _
    · intro s
      dsimp only
      split
      · exact hk _
      · intro c
        cases c with
        | returned vs | yielded vs =>
          dsimp only
          split <;> exact hk _
        | raised w => exact makes_wording hk fuel w

theorem makes_attempt {task : Task} {k : List Value → Code} {failed : String → Code}
    (hk : ∀ vs, (k vs).Makes P) (hf : ∀ text, (failed text).Makes P) :
    (attempt task k failed).Makes P := by
  intro c
  cases c with
  | returned vs | yielded vs => exact hk vs
  | raised v => exact makes_wording hf _ v

theorem makes_callWith (f : Value) (args : List Value) (ret : ReturnCount) :
    (callWith f args ret).Makes P :=
  makes_attempt (fun _ => trivial) fun _ => trivial

theorem makes_withCount {declared : Nat} {k : Code} (h : k.Makes P) :
    (withCount declared k).Makes P := by
  intro s
  dsimp only
  split
  · exact h
  · exact trivial

theorem makes_invokeStaged (clears : P (.clear .call)) (f : Value) (declared : Nat)
    (ret : ReturnCount) : (invokeStaged f declared ret).Makes P := by
  refine makes_withCount (makes_within fun s => ⟨clears, ?_⟩)
  split
  · exact makes_callWith _ _ _
  · exact trivial

theorem makes_callFound (clears : P (.clear .call)) {lookup missing : Code} {declared : Nat}
    {ret : ReturnCount} (h : lookup.Makes P) (h' : missing.Makes P) :
    (callFound lookup declared ret missing).Makes P := by
  refine makes_andThen h fun r => ?_
  split
  · dsimp only
    split
    · exact makes_invokeStaged clears _ _ _
    · exact h'
  · exact trivial
  · exact trivial

theorem makes_lookupMember (kind : ObjectKind) (cls : Option String) (key : Value) :
    (lookupMember kind cls key).Makes P := by
  have find (t : Nat) : Makes P
      (attempt (.index (.table t) key) values fun text => finish (.raised text)) :=
    makes_attempt (fun _ => trivial) fun _ => trivial
  unfold lookupMember
  split
  · exact trivial
  · intro s
    dsimp only
    split
    · exact find _
    · exact find _
    · exact trivial

theorem makes_loadScript {source : Bytes} {name : String}
    (adds : ∀ chunk body, P (.addChunk chunk body)) (reports : ∀ f, P (.report name f)) :
    (loadScript source name).Makes P := by
  refine ⟨?_, fun f => ⟨reports f, trivial⟩, fun _ => trivial⟩
  split
  · exact ⟨reports _, trivial⟩
  · exact fun s => ⟨adds _ _, makes_attempt (fun _ => trivial) fun text => ⟨reports _, trivial⟩⟩

theorem makes_loadCard {code : UInt32} (adds : ∀ chunk body, P (.addChunk chunk body))
    (reports : ∀ f, P (.report (scriptName code) f)) : (loadCard code).Makes P := by
  intro s
  dsimp only
  split
  · exact trivial
  · split
    · exact trivial
    · exact makes_within (makes_loadScript adds reports)

theorem makes_lookupInClass {code : UInt32} (name : String)
    (adds : ∀ chunk body, P (.addChunk chunk body)) (makes : P (.makeClass (scriptClass code)))
    (reports : ∀ f, P (.report (scriptName code) f)) : (lookupInClass code name).Makes P := by
  refine makes_andThen (makes_loadCard adds reports) fun r => ?_
  split
  · exact trivial
  · exact trivial
  · exact ⟨makes, fun s => makes_attempt (fun _ => trivial) fun _ => trivial⟩

end Code

/-! ## Messages -/

/-- A change that sends messages. -/
def Update.Tells : Update → Prop
  | emit _ _ | report _ _ => True
  | _ => False

/-- The operations that make a call with the staged arguments, with the site at which it reports. -/
def Operation.site : Operation → Option String
  | callFunction .. => some "call_function"
  | callValue .. => some "call_value"
  | callCard _ name .. | callCode _ name .. => some name
  | _ => none

/-- What may be told for an operation before it has come to its end : that the script of a code,
which is loaded if need be, has failed. -/
def Operation.Loads : Operation → Update → Prop
  | callCode code .., u => code ≠ 0 ∧ ∃ f, u = .report (scriptName code) f
  | _, _ => False

open Code in
/-- An operation that makes a call tells nothing itself before that has come to its end, except that
a script could not be loaded. -/
theorem Operation.code_eq_settle {o : Operation} {site : String} (h : o.site = some site) :
    ∃ call, o.code = settle site call ∧ call.Makes fun u => u.Tells → o.Loads u := by
  cases o with
  | callFunction c declared ret =>
    cases h
    refine ⟨_, rfl, fun s => ?_⟩
    dsimp only
    split
    · exact makes_invokeStaged (fun tells => tells.elim) _ _ _
    · exact trivial
  | callValue v declared ret =>
    cases h
    refine ⟨_, rfl, ?_⟩
    split
    · exact makes_invokeStaged (fun tells => tells.elim) _ _ _
    · split <;> exact trivial
  | callCard card name declared ret forced =>
    cases h
    refine ⟨_, rfl, makes_withCount fun s => ?_⟩
    dsimp only
    split
    · exact trivial
    · split
      · exact trivial
      · refine makes_callFound (fun tells => tells.elim) (makes_lookupMember _ _ _) ?_
        split
        · exact trivial
        · exact ⟨fun tells => tells.elim, trivial⟩
  | callCode code name declared ret =>
    cases h
    refine ⟨_, rfl, ?_⟩
    split
    · exact makes_callFound (fun tells => tells.elim) (fun s => trivial) trivial
    case isFalse nonzero =>
      exact makes_callFound (fun tells => tells.elim)
        (makes_lookupInClass _ (fun _ _ tells => tells.elim) (fun tells => tells.elim)
          fun f _ => ⟨nonzero, f, rfl⟩) trivial
  | _ => cases h

/-- Between two moments with these messages a failure has been reported at a site : by one message
about a failure, which is as much of it as fits, and advice behind it. -/
def ReportedAt (capacity : Nat) (site : String) (f : Failure)
    (before after : List (MessageKind × String)) : Prop :=
  ∃ cut behind, after = before ++ (.error, String.ofList cut) :: behind ∧
    LongestWithin capacity (siteText site ++ (splitTraceback f.message.toList).1) cut ∧
    ∀ p ∈ behind, p.1 = .forDebug

/-- Someone takes the messages of an environment, cut to a capacity. -/
structure State.Heard (s : State) (session : SessionId) (capacity : Nat) : Prop where
  session : s.env.session = some session
  handles : s.env.handles = true
  capacity : s.capacity = some capacity

/-- It stays so. -/
theorem Effect.heard {s s' : State} {os os' : List Open} {us : List Update} {session : SessionId}
    {capacity : Nat} (h : s.Heard session capacity) (e : Effect s os us s' os') :
    s'.Heard session capacity := by
  obtain ⟨memory, objects, bridge, env⟩ := e.env_eq
  exact ⟨by rw [env]; exact h.session, by rw [env]; exact h.handles, e.capacity.trans h.capacity⟩

theorem Machine.Course.heard {K : List Frame} {m m' : Machine} {ms : List Machine}
    {session : SessionId} {capacity : Nat} (h : Machine.Course K m ms m')
    (begins : m.state.Heard session capacity) : m'.state.Heard session capacity :=
  (h.invariant (P := fun m => m.state.Heard session capacity) begins
    fun _ _ _ heard move _ => move.effect.heard heard).1

/-- A report tells the failure, if there is room for anything. -/
theorem State.Heard.reportedAt {s : State} {session : SessionId} {capacity : Nat}
    (h : s.Heard session capacity) (room : 1 ≤ capacity) (site : String) (f : Failure) :
    ReportedAt capacity site f s.messages (s.report site f).messages := by
  obtain ⟨known, handles, capacity_eq⟩ := h
  obtain ⟨b, hb, rfl⟩ := Option.map_eq_some_iff.mp capacity_eq
  let calls := (splitTraceback f.message.toList).2.getD []
  refine ⟨reportCut b.messages.capacity site f,
    if calls = [] then [] else [(.forDebug, String.ofList calls)], ?_, takeBytes_longest _ _, ?_⟩
  · rw [report_eq known handles hb]
    simp only [messages, Shared.messages, reportEvents, if_neg (Nat.ne_of_gt room)]
    split <;> simp_all [calls]
  · split <;> simp

end CardBridge
