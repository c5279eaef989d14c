import CardBridge.Proofs.Lives
import CardBridge.Proofs.Paths

/-!
# What invocations leave staged

An invocation takes the arguments that are staged for calls out of their queue before its script
runs, and empties the queue once more if it fails. What functions of the host stage while the script
runs is in the queue when the invocation ends without a failure (`staged_after_invocation`) : it
waits for the next call, which did not ask for it (`not_staged_nil_after_invocation`).

Of the steps of a run only changes by host code reach a queue, so the queue at the end is what those
changes make of it (`Machine.Run.staged`), and only the last time that it is emptied and what comes
after that count. That every invocation empties it at some time is read off the paths of its code.
-/

namespace CardBridge

open Script (Value)

/-! ## The queues in a run -/

theorem State.push_ne_nil (front : Bool) (a : Argument) (args : ArgumentQueue) :
    push front a args ≠ [] := by
  cases front <;> simp [push, ArgumentQueue.pushFront, ArgumentQueue.pushBack]

variable {q : Queue}

/-- A change that does not empty a queue leaves it empty if it was and the change stages nothing. -/
theorem Update.onQueue_eq_nil_iff {u : Update} {args : ArgumentQueue} (h : u ≠ .clear q) :
    u.onQueue q args = [] ↔ args = [] ∧ ∀ front a, u ≠ .stage q front a := by
  cases u with
  | stage q' front a =>
    by_cases same : q' = q
    · subst same
      simp [onQueue, State.push_ne_nil]
    · simp [onQueue, same]
  | clear q' =>
    have other : q' ≠ q := fun same => h (same ▸ rfl)
    simp [onQueue, other]
  | _ => simp [onQueue]

/-- What changes that do not empty a queue make of it. -/
theorem foldl_onQueue_eq_nil_iff {us : List Update} {args : ArgumentQueue} (h : .clear q ∉ us) :
    us.foldl (Update.onQueue q) args = [] ↔ args = [] ∧ ∀ front a, .stage q front a ∉ us := by
  induction us generalizing args with
  | nil => simp
  | cons u us ih =>
    have first : u ≠ .clear q := fun eq => h (eq ▸ List.mem_cons_self)
    have rest : .clear q ∉ us := fun mem => h (List.mem_cons_of_mem _ mem)
    rw [List.foldl_cons, ih rest, Update.onQueue_eq_nil_iff first]
    simp only [List.mem_cons, not_or, ne_eq, eq_comm (a := u), forall_and]
    exact and_assoc

/-- There is a last time that a queue is emptied. -/
theorem exists_last_clear {us : List Update} (h : .clear q ∈ us) :
    ∃ before after, us = before ++ .clear q :: after ∧ .clear q ∉ after := by
  obtain ⟨after, before, eq, last⟩ := List.eq_append_cons_of_mem (List.mem_reverse.mpr h)
  refine ⟨before.reverse, after.reverse, ?_, fun mem => last (List.mem_reverse.mp mem)⟩
  rw [← List.reverse_reverse us, eq]
  simp

/-- What one step makes of a queue. -/
theorem Effect.queue {s s' : State} {os os' : List Open} {us : List Update} {b : Bridge}
    (h : Effect s os us s' os') (hb : s.env.bridge = some b) :
    ∃ b', s'.env.bridge = some b' ∧ b'.queue q = us.foldl (Update.onQueue q) (b.queue q) := by
  cases h with
  | quiet | script => exact ⟨b, hb, rfl⟩
  | write u =>
    obtain ⟨registry, messages, hu⟩ := u.apply_bridge hb
    refine ⟨_, hu, ?_⟩
    cases q <;> rfl
  | enter scope h =>
    obtain ⟨-, depth, noAction, -, hb'⟩ := Scope.enter_bridge h hb
    refine ⟨_, hb', ?_⟩
    cases q <;> rfl
  | leave o r =>
    obtain ⟨-, noAction, hb'⟩ := o.leave_bridge r hb
    refine ⟨_, hb', ?_⟩
    cases q <;> rfl

namespace Machine.Run

variable {K : List Frame} {m m' : Machine} {us : List Update}

theorem queue {b : Bridge} (h : Run K m us m') (hb : m.state.env.bridge = some b) :
    ∃ b', m'.state.env.bridge = some b' ∧
      b'.queue q = us.foldl (Update.onQueue q) (b.queue q) := by
  induction h generalizing b with
  | done => exact ⟨b, hb, rfl⟩
  | move h _ _ ih =>
    obtain ⟨b₁, hb₁, first⟩ := h.effect.queue hb
    obtain ⟨b', hb', rest⟩ := ih hb₁
    refine ⟨b', hb', ?_⟩
    rw [rest, first, List.foldl_append]

/-- What a run leaves in a queue are the changes in it, made to what was there. -/
theorem staged (h : Run K m us m') :
    m'.state.staged q =
      if m.state.env.bridge.isSome then us.foldl (Update.onQueue q) (m.state.staged q) else [] := by
  cases hb : m.state.env.bridge with
  | none => simp [State.staged, h.foreign hb]
  | some b =>
    obtain ⟨b', hb', eq⟩ := h.queue (q := q) hb
    simp [State.staged, hb, hb', eq]

/-- After a run in which a queue is emptied, what was staged since then is in it. -/
theorem staged_of_clear (h : Run K m us m') (emptied : .clear q ∈ us) :
    ∃ before after, us = before ++ .clear q :: after ∧ .clear q ∉ after ∧
      (m'.state.staged q =
        if m.state.env.bridge.isSome then after.foldl (Update.onQueue q) [] else []) ∧
      (m'.state.staged q = [] ↔
        m.state.env.bridge = none ∨ ∀ front a, .stage q front a ∉ after) := by
  obtain ⟨before, after, rfl, last⟩ := exists_last_clear emptied
  have content := h.staged (q := q)
  rw [List.foldl_append, List.foldl_cons, Update.onQueue, if_pos rfl] at content
  refine ⟨before, after, rfl, last, content, ?_⟩
  rw [content]
  cases m.state.env.bridge with
  | none => simp
  | some b => simp [foldl_onQueue_eq_nil_iff last]

end Machine.Run

/-! ## What invocations do with the queue -/

/-- Code with these changes and this reply has failed, or emptied the queue for calls. -/
def Emptied (us : List Update) (r : Reply) : Prop :=
  .clear .call ∈ us ∨ ∃ f, r = .failed f

namespace Code

variable {us : List Update} {r : Reply}

theorem path_fail {f : Failure} (h : Path (fail f) us r) : Emptied us r := by
  obtain ⟨-, rfl⟩ := path_finish h
  exact .inr ⟨f, rfl⟩

theorem path_withStaged_clear {k : List Value → Code} (h : Path (withStaged q k) us r) :
    .clear q ∈ us := by
  obtain ⟨us', rfl, -⟩ := path_withStaged h
  exact List.mem_cons_self

/-- A call with the staged arguments fails before it takes them, or takes them. -/
theorem path_invokeStaged {f : Value} {declared : Nat} {ret : ReturnCount}
    (h : Path (invokeStaged f declared ret) us r) : Emptied us r := by
  cases h with
  | read s h =>
    dsimp only at h
    split at h
    · cases h with
      | refused e h => exact path_fail h
      | scope h h' => exact .inl (List.mem_append_left _ (path_withStaged_clear h))
    · exact path_fail h

/-- What a look-up comes to. -/
inductive Found : Reply → Prop
  | values (vs : List Value) : Found (.answer (.values vs))
  | raised (text : String) : Found (.raised text)
  | failed (f : Failure) : Found (.failed f)

theorem path_callFound {lookup missing : Code} {declared : Nat} {ret : ReturnCount}
    (h : Path (callFound lookup declared ret missing) us r)
    (found : ∀ {us r}, lookup.Path us r → Found r)
    (left : ∀ {us r}, missing.Path us r → Emptied us r) : Emptied us r := by
  obtain ⟨us₁, r₁, us₂, first, second, rfl⟩ := path_andThen h
  have later : Emptied us₂ r := by
    cases found first with
    | values vs =>
      dsimp only at second
      split at second
      · exact path_invokeStaged second
      · exact left second
    | raised text | failed f => exact path_fail second
  exact later.imp_left (List.mem_append_right us₁)

theorem path_lookupMember {kind : ObjectKind} {cls : Option String} {key : Value}
    (h : Path (lookupMember kind cls key) us r) : Found r := by
  have of_values {us : List Update} {r : Reply} {vs : List Value} (h : Path (values vs) us r) :
      Found r := by
    obtain ⟨-, rfl⟩ := path_finish h
    exact .values vs
  have of_find {us : List Update} {r : Reply} {t : Nat}
      (h : Path (attempt (.index (.table t) key) values fun text => finish (.raised text)) us r) :
      Found r := by
    obtain ⟨vs, h⟩ | ⟨text, h⟩ := path_attempt h
    · exact of_values h
    · obtain ⟨-, rfl⟩ := path_finish h
      exact .raised text
  unfold lookupMember at h
  split at h
  · exact of_values h
  · cases h with
    | read s h =>
      dsimp only at h
      split at h
      · exact of_find h
      · exact of_find h
      · exact of_values h

theorem path_lookupInClass {code : UInt32} {name : String}
    (h : Path (lookupInClass code name) us r) : Found r := by
  obtain ⟨us₁, r₁, us₂, first, second, rfl⟩ := path_andThen h
  split at second
  case h_1 f =>
    obtain ⟨-, rfl⟩ := path_finish second
    exact .failed f
  case h_2 text =>
    obtain ⟨-, rfl⟩ := path_finish second
    exact .raised text
  case h_3 =>
    cases second with
    | write second =>
      cases second with
      | read s second =>
        obtain ⟨vs, h⟩ | ⟨text, h⟩ := path_attempt second
        · obtain ⟨-, rfl⟩ := path_finish h
          exact .values vs
        · obtain ⟨-, rfl⟩ := path_finish h
          exact .raised text

/-- Host code that empties the queue for calls at some time, and at last if it fails. -/
def Empties (c : Code) : Prop :=
  ∀ {K : List Frame} {s s' : State} {us : List Update} {r : Reply}, c.Returns K s us r s' →
    .clear .call ∈ us ∧ ∀ f, r = .failed f → s'.staged .call = []

/-- A call at a site empties the queue if the call does so where it does not fail. -/
theorem settle_empties {site : String} {call : Code}
    (h : ∀ {us r}, call.Path us r → Emptied us r) : (settle site call).Empties := by
  intro K s s' us r returns
  constructor
  · obtain ⟨own, sub, path⟩ := returns.path
    obtain ⟨us₁, r₁, us₂, first, second, rfl⟩ := path_andThen path
    obtain emptied | ⟨f, rfl⟩ := h first
    · exact sub.subset (List.mem_append_left _ emptied)
    · cases second with
      | write second => exact sub.subset (List.mem_append_right _ List.mem_cons_self)
  · rintro f rfl
    obtain ⟨s₁, r₁, us₁, us₂, second, rfl⟩ := returns_andThen returns
    split at second
    case h_1 f₁ =>
      obtain ⟨us₃, rfl, reports⟩ := returns_write second
      obtain ⟨us₄, rfl, fails⟩ := returns_write reports
      obtain ⟨rfl, -, -⟩ := returns_finish fails
      have content := Machine.Run.staged (q := .call) returns
      rw [List.foldl_append] at content
      simpa [Update.onQueue] using content
    case h_2 other =>
      obtain ⟨-, rfl, -⟩ := returns_finish second
      exact absurd rfl (other f)

theorem callFunction_empties (c : Callable) (declared : Nat) (ret : ReturnCount) :
    (callFunction c declared ret).Empties := by
  refine settle_empties fun h => ?_
  cases h with
  | read s h =>
    dsimp only at h
    split at h
    · exact path_invokeStaged h
    · exact path_fail h

theorem callValue_empties (v : Value) (declared : Nat) (ret : ReturnCount) :
    (callValue v declared ret).Empties := by
  refine settle_empties fun h => ?_
  split at h
  · exact path_invokeStaged h
  · split at h <;> exact path_fail h

theorem callCard_empties (card : ObjectId) (name : String) (declared : Nat) (ret : ReturnCount)
    (forced : Bool) : (callCard card name declared ret forced).Empties := by
  refine settle_empties fun h => ?_
  cases h with
  | read s h =>
    dsimp only at h
    split at h
    · cases h with
      | read s h =>
        dsimp only at h
        split at h
        · exact path_fail h
        · split at h
          · exact path_fail h
          · refine path_callFound h path_lookupMember fun left => ?_
            split at left
            · exact path_fail left
            · cases left with
              | write left => exact .inl List.mem_cons_self
    · exact path_fail h

theorem callCode_empties (code : UInt32) (name : String) (declared : Nat) (ret : ReturnCount) :
    (callCode code name declared ret).Empties := by
  refine settle_empties fun h => ?_
  split at h
  · refine path_callFound h (fun found => ?_) path_fail
    cases found with
    | read s found =>
      obtain ⟨-, rfl⟩ := path_finish found
      exact .values _
  · exact path_callFound h path_lookupInClass path_fail

/-- What a query evaluates empties the queue for it. A query itself does not fail. -/
theorem query_empties {body : Code} {reading : List Value → Answer} {otherwise : Answer}
    (h : body.Empties) : (query body reading otherwise).Empties := by
  intro K s s' us r returns
  obtain ⟨f, refused, -⟩ | ⟨o, s₁, us₁, r₁, s₂, us₂, -, evaluates, rest, rfl⟩ :=
    returns_scope returns
  · cases refused
  · refine ⟨List.mem_append_left _ (h evaluates).1, ?_⟩
    rintro f rfl
    split at rest
    all_goals
      obtain ⟨-, eq, -⟩ := returns_finish rest
      cases eq

theorem withoutFunction_empties (a : Answer) : (withoutFunction a).Empties := by
  intro K s s' us r returns
  obtain ⟨us', rfl, rest⟩ := returns_write returns
  obtain ⟨-, rfl, -⟩ := returns_finish rest
  exact ⟨List.mem_cons_self, fun f eq => by cases eq⟩

/-! ### First steps -/

theorem path_failStep {f : Failure} (h : Path (failStep q f) us r) :
    .clear q ∈ us ∧ r = .answer (.step (.failed f)) := by
  cases h with
  | write h =>
    cases h with
    | write h =>
      obtain ⟨-, rfl⟩ := path_finish h
      exact ⟨List.mem_cons_self, rfl⟩

/-- A step takes the arguments staged for it or, if it does not come to that, discards them. -/
theorem path_runStep {scope : Scope} {id : CoroutineId} (h : Path (runStep q scope id) us r) :
    .clear q ∈ us ∧ ∀ f, r ≠ .failed f := by
  cases h with
  | refused f h =>
    obtain ⟨emptied, rfl⟩ := path_failStep h
    exact ⟨emptied, by simp⟩
  | @scope _ _ _ _ us₁ us₂ r₁ _ h h' =>
    dsimp only at h'
    split at h'
    case h_1 f =>
      obtain ⟨emptied, rfl⟩ := path_failStep h'
      exact ⟨List.mem_append_right _ emptied, by simp⟩
    case h_2 other =>
      obtain ⟨rfl, rfl⟩ := path_finish h'
      refine ⟨List.mem_append_left _ ?_, other⟩
      cases h with
      | refused f h =>
        obtain ⟨-, rfl⟩ := path_finish h
        exact absurd rfl (other f)
      | scope h h' => exact List.mem_append_left _ (path_withStaged_clear h)

theorem callCoroutine_empties (c : Callable) (declared : Nat) (id : CoroutineId) :
    (callCoroutine c declared id 0).Empties := by
  intro K s s' us r returns
  obtain ⟨own, sub, path⟩ := returns.path
  have emptied : .clear .call ∈ own ∧ ∀ f, r ≠ .failed f := by
    have of_fail {own : List Update} {f : Failure} (h : Path (failStep .call f) own r) :
        .clear .call ∈ own ∧ ∀ f, r ≠ .failed f := by
      obtain ⟨emptied, rfl⟩ := path_failStep h
      exact ⟨emptied, by simp⟩
    cases path with
    | read s h =>
      dsimp only at h
      split at h
      · split at h
        · exact path_runStep h
        · exact of_fail h
      · exact of_fail h
  exact ⟨sub.subset emptied.1, fun f eq => absurd eq (emptied.2 f)⟩

end Code

/-- The operations that have a script run on the arguments staged for calls. -/
def Operation.Invokes : Operation → Prop
  | callFunction .. | callValue .. | callCard .. | callCode .. => True
  | checkCondition .. | functionValue .. | functionValues .. => True
  | callCoroutine _ _ _ step => step = 0
  | _ => False

theorem Operation.Invokes.empties {o : Operation} (h : o.Invokes) : o.code.Empties := by
  cases o with
  | callFunction c declared ret => exact Code.callFunction_empties c declared ret
  | callValue v declared ret => exact Code.callValue_empties v declared ret
  | callCard card name declared ret forced =>
    exact Code.callCard_empties card name declared ret forced
  | callCode code name declared ret => exact Code.callCode_empties code name declared ret
  | checkCondition condition declared =>
    cases condition with
    | none => exact Code.withoutFunction_empties _
    | some c => exact Code.query_empties (Code.callFunction_empties c declared _)
  | functionValue f declared | functionValues f declared =>
    cases f with
    | none => exact Code.withoutFunction_empties _
    | some c => exact Code.query_empties (Code.callFunction_empties c declared _)
  | callCoroutine c declared id step =>
    cases h
    exact Code.callCoroutine_empties c declared id
  | loadScript | loadNamed | loadCard | evaluate | register | registerCard | unregister | stage
  | stageTyped | clear | takeStaged | hold | holdGlobal | checkMatching | checkMatchingTable
  | operationValue | operationValues | abandon | requireAction | emit | report | printTrace =>
    cases h

/-! ## What is left -/

/-- **What an invocation leaves staged.** An invocation empties the queue for calls at some time.
What is staged after the last such time, by functions of the host that its script calls, is in the
queue when it ends; so the queue is empty exactly if nothing was staged then. What was staged
before the invocation is not left, and a call that fails leaves nothing. -/
theorem staged_after_invocation {o : Operation} (invokes : o.Invokes) {K : List Frame}
    {s s' : State} {us : List Update} {r : Reply} (h : o.code.Returns K s us r s') :
    (∃ before after, us = before ++ .clear .call :: after ∧ .clear .call ∉ after ∧
      (s'.staged .call =
        if s.env.bridge.isSome then after.foldl (Update.onQueue .call) [] else []) ∧
      (s'.staged .call = [] ↔
        s.env.bridge = none ∨ ∀ front a, .stage .call front a ∉ after)) ∧
    ∀ f, r = .failed f → s'.staged .call = [] := by
  obtain ⟨emptied, failing⟩ := invokes.empties h
  exact ⟨Machine.Run.staged_of_clear h emptied, failing⟩

open Machine Host

/-- A host that lends one function, which stages an argument for a call. -/
def stager : CardBridge.Host :=
  Code.native fun _ _ => .stage .call false (.int 1)

/-- The first step of an operation leaves what its script has had staged. -/
theorem staged_after_invocation_stager : ∃ us s s',
    (Operation.callCoroutine ⟨0⟩ 0 ⟨7⟩ 0).Invokes ∧
    (Operation.callCoroutine ⟨0⟩ 0 ⟨7⟩ 0).code.Returns [] s us
      (.answer (.step (.gave .finish []))) s' ∧
    s.staged .call = [] ∧ s'.staged .call = [.int 1] := by
  obtain ⟨r, s, r', s', stops, stops', given, steps, own, none⟩ : ∃ r s r' s',
      run stager 30 (.start ⟨(Blueprint.plain ⟨1⟩).environment 0, ⟨#[⟨true, 0⟩], #[], [], [], []⟩⟩
        (Operation.hold "f" (.native (.host 0))).code) = .ended r s ∧
      run stager 40 (.start s (Operation.callCoroutine ⟨0⟩ 0 ⟨7⟩ 0).code) = .ended r' s' ∧
      r' = .answer (.step (.gave .finish [])) ∧
      written stager 40 (.start s (Operation.callCoroutine ⟨0⟩ 0 ⟨7⟩ 0).code) =
        [.clear .call, .stage .call false (.int 1)] ∧
      s.env.bridge.isSome = true ∧ s.staged .call = [] :=
    ⟨_, _, _, _, rfl, rfl, rfl, rfl, rfl, rfl⟩
  have returns := run_of_ended _ _ stops'
  rw [given, steps] at returns
  obtain ⟨⟨before, after, eq, last, content, -⟩, -⟩ :=
    staged_after_invocation (o := .callCoroutine ⟨0⟩ 0 ⟨7⟩ 0) rfl returns
  have later : after = [.stage .call false (.int 1)] := by
    match before with
    | [] => exact ((List.cons.inj eq).2).symm
    | [_] => cases eq
    | _ :: _ :: _ => simp at eq
  rw [own, later] at content
  exact ⟨_, s, s', rfl, returns, none, content⟩

/-- An invocation that succeeds may leave arguments staged. -/
theorem not_staged_nil_after_invocation :
    ¬ ∀ (o : Operation) (K : List Frame) (s s' : State) (us : List Update) (a : Answer),
      o.Invokes → o.code.Returns K s us (.answer a) s' → s'.staged .call = [] := by
  intro claimed
  obtain ⟨s', stops, left⟩ : ∃ s',
      run stager 30 (.start ⟨(Blueprint.plain ⟨1⟩).environment 0, .empty⟩
        (Operation.callValue (.native (.host 0)) 0 .all).code) = .ended (.answer (.values [])) s' ∧
      s'.staged .call = [.int 1] := ⟨_, rfl, rfl⟩
  have none := claimed (.callValue (.native (.host 0)) 0 .all) _ _ _ _ _ trivial
    (run_of_ended _ _ stops)
  rw [left] at none
  cases none

end CardBridge
