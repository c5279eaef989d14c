import CardBridge.Proofs.ExplicitArguments
import CardBridge.Proofs.GuardedScripts
import CardBridge.Proofs.RefusedSteps

/-!
# Code that runs no script

Host code may come to its end without a script (`Code.Alone`). Then it comes to the same end under
every host and on top of every stack, and at each moment on the way only host code is at work
(`Code.Alone.noScript`).

A call is such code if it is refused : if not as many arguments are staged as are declared, or no
level of invocation is free, or an argument has no value. The function is not called then, and all
that is left of the call is a report.
-/

namespace CardBridge

open Script (Value)
open Machine

/-! ## Runs that leave a frame alone, or take it away -/

namespace Machine

variable {K : List Frame} {m m' : Machine} {us : List Update}

/-- A run from above the frame `F` stays there, or takes that frame away. -/
theorem Run.stays_or_split {F : Frame} (h : Run K m us m') (hm : F :: K <:+ m.stack) :
    Run (F :: K) m us m' ∨
      ∃ us₁ m₁ m₂ us₂, Run (F :: K) m us₁ m₁ ∧ m₁.stack = F :: K ∧ Move m₁ m₂ ∧ m₂.stack = K ∧
        Run K m₂ us₂ m' ∧ us = us₁ ++ (m₁.writes ++ us₂) := by
  induction h with
  | done => exact .inl (.done _)
  | @move m₁ m₂ m' us h hK run ih =>
    by_cases stays : F :: K <:+ m₂.stack
    · obtain above | ⟨us₁, n₁, n₂, us₂, above, top, step, left, below, rfl⟩ := ih stays
      · exact .inl (.move h stays above)
      · refine .inr ⟨_, n₁, n₂, us₂, .move h stays above, top, step, left, below, ?_⟩
        rw [List.append_assoc]
    · obtain ⟨top, left⟩ := h.pop hm stays
      exact .inr ⟨[], m₁, m₂, us, .done _, top, h, left, run, rfl⟩

theorem noScript_host (s : State) (c : Code) (K : List Frame) : NoScript K ⟨s, .host c, K⟩ :=
  ⟨c, [], fun _ mem => (List.not_mem_nil mem).elim, rfl, rfl⟩

theorem NoScript.of_scope {o : Open} {k : Reply → Code} (h : NoScript (.scope o k :: K) m) :
    NoScript K m := by
  obtain ⟨c, B, scopes, activity, stack⟩ := h
  refine ⟨c, B ++ [.scope o k], fun F mem => ?_, activity, by simp [stack]⟩
  obtain mem | mem := List.mem_append.mp mem
  · exact scopes F mem
  · exact ⟨o, k, List.mem_singleton.mp mem⟩

end Machine

/-! ## Host code by itself -/

namespace Code

/-- Host code comes to a reply by itself. -/
inductive Alone : State → Code → List Update → Reply → State → Prop
  | finish {s : State} {r : Reply} : Alone s (.finish r) [] r s
  | read {s s' : State} {k : State → Code} {us : List Update} {r : Reply}
    (h : Alone s (k s) us r s') : Alone s (.read k) us r s'
  | write {s s' : State} {u : Update} {c : Code} {us : List Update} {r : Reply}
    (h : Alone (u.apply s) c us r s') : Alone s (.write u c) (u :: us) r s'
  | refused {s s' : State} {scope : Scope} {body : Code} {refused : Failure → Code}
    {k : Reply → Code} {f : Failure} {us : List Update} {r : Reply}
    (refuses : scope.enter s = .error f) (h : Alone s (refused f) us r s') :
    Alone s (.scope scope body refused k) us r s'
  | scope {s s₁ s₂ s' : State} {scope : Scope} {body : Code} {refused : Failure → Code}
    {k : Reply → Code} {o : Open} {us₁ us₂ : List Update} {r₁ r : Reply}
    (enters : scope.enter s = .ok (o, s₁)) (h : Alone s₁ body us₁ r₁ s₂)
    (h' : Alone (o.leave s₂ r₁) (k r₁) us₂ r s') :
    Alone s (.scope scope body refused k) (us₁ ++ us₂) r s'

namespace Alone

variable {host : CardBridge.Host} {K : List Frame} {s s' s₁ : State} {c : Code}
    {us us' : List Update}
  {r r' : Reply}

theorem andThen {next : Reply → Code} (h : Alone s c us r s₁) (h' : Alone s₁ (next r) us' r' s') :
    Alone s (c.andThen next) (us ++ us') r' s' := by
  induction h with
  | finish => exact h'
  | read _ ih => exact .read (ih h')
  | write _ ih => exact .write (ih h')
  | refused refuses _ ih => exact .refused refuses (ih h')
  | scope enters body _ _ ih =>
    rw [List.append_assoc]
    exact .scope enters body (ih h')

/-- It comes to that reply under every host. -/
theorem gives (h : Alone s c us r s') : Gives host K s c r s' := by
  induction h generalizing K with
  | finish => exact .finish
  | read _ ih => exact .read ih
  | write _ ih => exact .write ih
  | refused refuses _ ih => exact .refused refuses ih
  | scope enters _ _ ih ih' => exact .scope enters ih ih'

theorem returns (h : Alone s c us r s') : Returns K s c us r s' := by
  induction h generalizing K with
  | finish => exact .finish
  | read _ ih => exact .read ih
  | write _ ih => exact .write ih
  | refused refuses _ ih => exact .refused refuses ih
  | scope enters _ _ ih ih' => exact .scope enters ih ih'

/-- It comes to no other reply. -/
theorem unique (h : Alone s c us r s') (h' : Returns K s c us' r' s₁) :
    us' = us ∧ r' = r ∧ s₁ = s' := by
  induction h generalizing K us' r' s₁ with
  | finish => exact returns_finish h'
  | read _ ih => exact ih (returns_read h')
  | write _ ih =>
    obtain ⟨us'', rfl, rest⟩ := returns_write h'
    obtain ⟨rfl, same⟩ := ih rest
    exact ⟨rfl, same⟩
  | refused refuses _ ih =>
    obtain ⟨f, eq, rest⟩ | ⟨o, s₂, us₁, r₁, s₃, us₂, enters, -⟩ := returns_scope h'
    · cases refuses.symm.trans eq
      exact ih rest
    · cases refuses.symm.trans enters
  | scope enters _ _ ih ih' =>
    obtain ⟨f, eq, -⟩ | ⟨o, s₂, us₁, r₁, s₃, us₂, eq, body, rest, rfl⟩ := returns_scope h'
    · cases enters.symm.trans eq
    · cases enters.symm.trans eq
      obtain ⟨rfl, rfl, rfl⟩ := ih body
      obtain ⟨rfl, same⟩ := ih' rest
      exact ⟨rfl, same⟩

/-- At each moment on the way, only host code is at work. -/
theorem noScript (h : Alone s c us r s') {m : Machine} (run : Run K ⟨s, .host c, K⟩ us' m) :
    NoScript K m := by
  induction h generalizing K us' m with
  | finish =>
    cases run with
    | done => exact noScript_host _ _ _
    | move move above _ =>
      cases move with
      | leave | back => exact absurd above not_cons_suffix
  | read _ ih =>
    cases run with
    | done => exact noScript_host _ _ _
    | move move _ run =>
      cases move
      exact ih run
  | write _ ih =>
    cases run with
    | done => exact noScript_host _ _ _
    | move move _ run =>
      cases move
      exact ih run
  | refused refuses _ ih =>
    cases run with
    | done => exact noScript_host _ _ _
    | move move _ run =>
      cases move with
      | refuse eq =>
        cases refuses.symm.trans eq
        exact ih run
      | enter enters => cases refuses.symm.trans enters
  | scope enters body _ ih ih' =>
    cases run with
    | done => exact noScript_host _ _ _
    | move move _ run =>
      cases move with
      | refuse eq => cases enters.symm.trans eq
      | enter eq =>
        cases enters.symm.trans eq
        obtain above | ⟨us₁, m₁, m₂, us₂, above, top, step, left, below, -⟩ :=
          run.stays_or_split List.suffix_rfl
        · exact (ih above).of_scope
        · obtain ⟨s₂, r₁, rfl, rfl⟩ := step.pop_scope top left
          obtain ⟨-, rfl, rfl⟩ := body.unique above
          exact ih' below

end Alone

end Code

/-! ## Code that is refused -/

@[simp] theorem State.staged_endQuery (s : State) (q : Queue) :
    s.endQuery.staged q = s.staged q := by
  cases hb : s.env.bridge <;> cases q <;> simp [staged, endQuery, hb, Bridge.queue]

/-- Code comes to a reply without a script, and reports a failure. The depth is what it was, and
nothing is staged any more. -/
structure Code.Refused (s : State) (c : Code) (q : Queue) (r : Reply) (f : Failure) (s' : State) :
    Prop where
  noScript : ∀ K us m, Run K ⟨s, .host c, K⟩ us m → NoScript K m
  gives : ∀ host K, c.Gives host K s r s'
  reported : ∃ us site, .report site f ∈ us ∧ ∀ K, c.Returns K s us r s'
  depth : s'.callDepth = s.callDepth
  staged : s'.staged q = []

namespace Code

variable {s s₁ : State} {c : Code} {us : List Update} {r : Reply} {f : Failure} {q : Queue}

/-- Code comes to a reply by itself, with a report of a failure, and with nothing staged any
more. -/
def RefusedAlone (s : State) (c : Code) (q : Queue) (r : Reply) (f : Failure) : Prop :=
  ∃ us s' site, Alone s c us r s' ∧ .report site f ∈ us ∧ s'.staged q = []

namespace RefusedAlone

theorem refused (h : RefusedAlone s c q r f) : ∃ s', Refused s c q r f s' := by
  obtain ⟨us, s', site, alone, reported, staged⟩ := h
  exact ⟨s', {
    noScript := fun _ _ _ run => alone.noScript run
    gives := fun _ _ => alone.gives
    reported := ⟨us, site, reported, fun _ => alone.returns⟩
    depth := returns_depth (alone.returns (K := []))
    staged }⟩

theorem read {k : State → Code} (h : RefusedAlone s (k s) q r f) :
    RefusedAlone s (.read k) q r f := by
  obtain ⟨us, s', site, alone, reported⟩ := h
  exact ⟨us, s', site, .read alone, reported⟩

theorem failStep (s : State) (q : Queue) (f : Failure) :
    RefusedAlone s (failStep q f) q (.answer (.step (.failed f))) f :=
  ⟨[.clear q, .report "call_coroutine" f], (s.clear q).report "call_coroutine" f, "call_coroutine",
    .write (.write .finish), by simp, by simp⟩

end RefusedAlone

/-- Code fails by itself. -/
def FailsAlone (s : State) (c : Code) (f : Failure) : Prop :=
  ∃ us s', Alone s c us (.failed f) s'

namespace FailsAlone

theorem read {k : State → Code} (h : FailsAlone s (k s) f) : FailsAlone s (.read k) f :=
  h.imp fun _ => Exists.imp fun _ => .read

theorem fail : FailsAlone s (.fail f) f :=
  ⟨_, _, .finish⟩

theorem refused {scope : Scope} (refuses : scope.enter s = .error f) :
    FailsAlone s (within scope c) f :=
  ⟨_, _, .refused refuses .finish⟩

theorem within {scope : Scope} {o : Open} (enters : scope.enter s = .ok (o, s₁))
    (h : FailsAlone s₁ c f) : FailsAlone s (within scope c) f := by
  obtain ⟨us, s₂, body⟩ := h
  exact ⟨_, _, .scope enters body .finish⟩

/-- Arguments of which one has no value are let go. -/
theorem withStaged {k : List Value → Code} (h : s.stagedValues q = .error f) :
    FailsAlone s (withStaged q k) f := by
  refine ⟨[.clear q], s.clear q, .read (.write ?_)⟩
  rw [h]
  exact .finish

/-- A call that fails by itself is refused. -/
theorem settle (h : FailsAlone s c f) (site : String) :
    RefusedAlone s (settle site c) .call (.failed f) f := by
  obtain ⟨us, s₁, body⟩ := h
  exact ⟨us ++ [.clear .call, .report site f], (s₁.clear .call).report site f, site,
    body.andThen (.write (.write .finish)), by simp, by simp⟩

/-- So is a query that makes the call. -/
theorem query {reading : List Value → Answer} {otherwise : Answer}
    (h : FailsAlone s.beginQuery c f) (site : String) :
    RefusedAlone s (query (Code.settle site c) reading otherwise) .call (.answer otherwise) f := by
  obtain ⟨us, s₁, body⟩ := h
  have inside : Alone s.beginQuery (Code.settle site c) (us ++ [.clear .call, .report site f])
      (.failed f) ((s₁.clear .call).report site f) := body.andThen (.write (.write .finish))
  exact ⟨_, ((s₁.clear .call).report site f).endQuery, site, .scope rfl inside .finish, by simp,
    by simp⟩

end FailsAlone

end Code

/-! ## Checks -/

namespace State

/-- What a call checks before it takes its arguments. -/
def admission (s : State) (declared : Nat) : Except Failure Unit :=
  if (s.staged .call).length = declared then (Scope.guard.enter s).map fun _ => ()
  else .error (.paramCount declared (s.staged .call).length)

/-- The values that a call is made with, or why it is refused. -/
def checkCall (s : State) (declared : Nat) : Except Failure (List Value) := do
  s.admission declared
  s.stagedValues .call

variable {s s' : State}

/-- A query does not change what a call in it checks. -/
theorem checkCall_beginQuery (s : State) (declared : Nat) :
    s.beginQuery.checkCall declared = s.checkCall declared := by
  have values : s.beginQuery.stagedValues .call = s.stagedValues .call :=
    stagedValues_congr _ rfl (fun _ => rfl) (fun _ => rfl) rfl rfl
  have admits : s.beginQuery.admission declared = s.admission declared := by
    cases hb : s.env.bridge with
    | none => simp [admission, staged, beginQuery, Scope.enter, enterGuard, hb]
    | some b =>
      simp only [admission, staged, beginQuery, Scope.enter, enterGuard, updateBridge, hb,
        Option.map_some, Bridge.queue]
      cases b.depth.enter? <;> rfl
  rw [checkCall, checkCall, values, admits]

end State

/-- What a step in a scope checks before it takes its arguments. -/
def Scope.admission (s : State) (scope : Scope) : Except Failure Unit := do
  let (_, s) ← guard.enter s
  (scope.enter s).map fun _ => ()

theorem Scope.check_eq {scope : Scope} {id : CoroutineId} (step : scope.IsStep id) (s : State)
    (q : Queue) : scope.check s q = (do scope.admission s; s.stagedValues q) := by
  have first : Scope.guard = .guard ∨ Scope.guard.IsStep id := .inl rfl
  rw [check, admission]
  cases hg : guard.enter s with
  | error f => rfl
  | ok p =>
    cases he : scope.enter p.2 with
    | error f => simp only [bind, Except.bind, he, Except.map]
    | ok p' =>
      simp only [bind, Except.bind, he, Except.map]
      rw [stagedValues_enter (.inr step) he, stagedValues_enter first hg]

namespace Code

variable {s s' : State} {f : Failure} {declared : Nat} {ret : ReturnCount}

/-- A call that does not pass its checks fails by itself. -/
theorem failsAlone_invokeStaged {v : Value} (h : s.checkCall declared = .error f) :
    FailsAlone s (invokeStaged v declared ret) f := by
  refine .read ?_
  simp only [State.checkCall, State.admission] at h
  split at h
  case isTrue counted =>
    rw [if_pos counted]
    cases he : Scope.guard.enter s with
    | error f' =>
      rw [he] at h
      cases h
      exact .refused he
    | ok p =>
      rw [he] at h
      have first : Scope.guard = .guard ∨ Scope.guard.IsStep ⟨0⟩ := .inl rfl
      refine .within he (.withStaged ?_)
      rw [Scope.stagedValues_enter first he]
      exact h
  case isFalse other =>
    rw [if_neg other]
    cases h
    exact .fail

/-- A step in its scope fails by itself if a check of it fails. -/
theorem alone_step {id : CoroutineId} {scope : Scope} {q : Queue}
    (h : (do let (_, s) ← scope.enter s; s.stagedValues q : Except Failure (List Value))
      = .error f) :
    ∃ us s', Alone s (.scope scope (resumeStaged q id) Code.fail stepResult) us (.failed f) s' := by
  cases he : scope.enter s with
  | error f' =>
    rw [he] at h
    cases h
    exact ⟨_, _, .refused he .finish⟩
  | ok p =>
    rw [he] at h
    obtain ⟨us, s', body⟩ : FailsAlone p.2 (resumeStaged q id) f := .withStaged h
    exact ⟨_, _, .scope he body .finish⟩

/-- A step that does not pass its checks is refused. -/
theorem refusedAlone_runStep {id : CoroutineId} {scope : Scope} {q : Queue}
    (h : scope.check s q = .error f) :
    RefusedAlone s (runStep q scope id) q (.answer (.step (.failed f))) f := by
  rw [Scope.check] at h
  cases hg : Scope.guard.enter s with
  | error f' =>
    rw [hg] at h
    cases h
    obtain ⟨us, s', site, alone, reported⟩ := RefusedAlone.failStep s q f
    exact ⟨us, s', site, .refused hg alone, reported⟩
  | ok p =>
    rw [hg] at h
    obtain ⟨us₁, s₁, inner⟩ : ∃ us s',
        Alone p.2 (.scope scope (resumeStaged q id) Code.fail stepResult) us (.failed f) s' :=
      alone_step h
    obtain ⟨us, s', site, alone, reported, staged⟩ :=
      RefusedAlone.failStep (p.1.leave s₁ (.failed f)) q f
    exact ⟨us₁ ++ us, s', site, .scope hg inner alone, List.mem_append_right _ reported, staged⟩

/-- A step of an operation that does not pass its checks is refused. -/
theorem refusedAlone_callCoroutine {c : Callable} {id : CoroutineId} {step : Nat}
    (h : s.checkStep c declared id step = .error f) :
    RefusedAlone s (callCoroutine c declared id step) (State.queueOf step)
      (.answer (.step (.failed f))) f := by
  unfold callCoroutine State.queueOf
  unfold State.checkStep at h
  by_cases start : step = 0
  · rw [if_pos start] at h ⊢
    rw [if_pos start]
    refine .read ?_
    dsimp only
    split at h
    case isTrue counted =>
      rw [if_pos counted]
      cases hc : s.resolve c with
      | error e =>
        rw [hc] at h
        cases h
        exact .failStep s .call _
      | ok v =>
        rw [hc] at h
        exact refusedAlone_runStep h
    case isFalse other =>
      rw [if_neg other]
      cases h
      exact .failStep s .call _
  · rw [if_neg start] at h ⊢
    rw [if_neg start]
    exact refusedAlone_runStep h

end Code

end CardBridge
