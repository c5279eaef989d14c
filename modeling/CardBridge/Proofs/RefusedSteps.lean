import CardBridge.Proofs.CoroutineSteps

/-!
# Refused steps

A step of an operation can be refused before a script runs : as many arguments have to be staged as
are declared, the function has to be one of this environment, a level of invocation has to be free,
the name has to be free or has to be that of a suspended operation, and all staged arguments have to
have values. `State.checkStep` makes these checks in their order, and a step is refused exactly if
one of them fails (`refused_step`).

A refused step leaves nothing staged for it. It leaves the operations as they are if the check that
fails is not the last one. The last one is made inside the step : a first step takes back what it
has begun, but a later one ends its operation, which was suspended before
(`not_operations_of_refused_step`).
-/

namespace CardBridge

open Script (Value Memory)

theorem Keyed.erase_put {κ α : Type} [DecidableEq κ] (k : κ) (v : α) (m : Keyed κ α) :
    erase k (put k v m) = erase k m := by
  induction m with
  | nil => simp [put, erase]
  | cons p m ih =>
    obtain ⟨k', v'⟩ := p
    by_cases h : k' = k
    · simp [put, erase, h]
    · simpa [put, erase, h] using ih

theorem Keyed.erase_of_lookup_none {κ α : Type} [DecidableEq κ] {k : κ} {m : Keyed κ α}
    (h : m.lookup k = none) : erase k m = m := by
  rw [List.lookup_eq_none_iff] at h
  refine List.filter_eq_self.mpr fun p hp => ?_
  have other := h p hp
  simp only [bne_iff_ne, ne_eq] at other
  simpa using fun eq => other eq.symm

/-! ## What a step has to pass -/

/-- The values that a step in a scope is begun with, or why it is refused. -/
def Scope.check (s : State) (q : Queue) (scope : Scope) : Except Failure (List Value) := do
  let (_, s) ← guard.enter s
  let (_, s) ← scope.enter s
  s.stagedValues q

namespace State

/-- The queue from which a step is passed its arguments. -/
def queueOf (step : Nat) : Queue :=
  if step = 0 then .call else .resume

/-- The values that a step is begun with, or why it is refused. -/
def checkStep (s : State) (c : Callable) (declared : Nat) (id : CoroutineId) (step : Nat) :
    Except Failure (List Value) :=
  if step = 0 then
    if (s.staged .call).length = declared then do
      let f ← s.resolve c
      (Scope.start id f).check s .call
    else .error (.paramCount declared (s.staged .call).length)
  else (Scope.proceed id).check s .resume

/-- The operations that are kept; a foreign environment keeps none. -/
def operations (s : State) : CoroutineTable Nat :=
  (s.env.bridge.map (·.coroutines)).getD []

theorem lookup_operations (s : State) (id : CoroutineId) :
    s.operations.lookup id = s.env.bridge.bind (·.coroutines.lookup id) := by
  cases hb : s.env.bridge <;> simp [operations, hb]

variable {s s' : State} {q : Queue}

@[simp] theorem operations_clear (s : State) (q : Queue) :
    (s.clear q).operations = s.operations := by
  cases hb : s.env.bridge <;> cases q <;> simp [operations, hb, Bridge.setQueue]

@[simp] theorem operations_report (s : State) (site : String) (f : Failure) :
    (s.report site f).operations = s.operations := by
  obtain ⟨messages, e⟩ := s.report_env site f
  cases hb : s.env.bridge <;> simp [operations, e, hb]

@[simp] theorem operations_leaveGuard (s : State) : s.leaveGuard.operations = s.operations := by
  cases hb : s.env.bridge <;> simp [operations, hb]

@[simp] theorem staged_clear (s : State) (q : Queue) : (s.clear q).staged q = [] := by
  cases hb : s.env.bridge <;> cases q <;> simp [staged, hb, Bridge.setQueue, Bridge.queue]

@[simp] theorem staged_report (s : State) (site : String) (f : Failure) (q : Queue) :
    (s.report site f).staged q = s.staged q := by
  obtain ⟨messages, e⟩ := s.report_env site f
  cases hb : s.env.bridge <;> cases q <;> simp [staged, e, hb, Bridge.queue]

@[simp] theorem memory_report (s : State) (site : String) (f : Failure) :
    (s.report site f).env.memory = s.env.memory := by
  obtain ⟨messages, e⟩ := s.report_env site f
  rw [e]

/-- The values of staged arguments hang on the queue, the registry and who holds what. -/
theorem stagedValues_congr (g : Bridge → Bridge) (bridge : s'.env.bridge = s.env.bridge.map g)
    (queue : ∀ b, (g b).queue q = b.queue q) (registry : ∀ b, (g b).registry = b.registry)
    (account : s'.env.account = s.env.account) (shared : s'.shared = s.shared) :
    s'.stagedValues q = s.stagedValues q := by
  have same : s'.argumentValue = s.argumentValue := by
    funext a
    cases a with
    | object o =>
      cases hb : s.env.bridge <;> simp [argumentValue, objectValue, bridge, hb, registry]
    | function c => simp [argumentValue, resolve, isValid, account, shared]
    | nil | int | bool | text | value => rfl
  cases hb : s.env.bridge <;> simp [stagedValues, bridge, hb, queue, same]

end State

variable {id : CoroutineId} {q : Queue} {s s' : State}

/-- The checks before a step do not change what its arguments are. -/
theorem Scope.stagedValues_enter {scope : Scope} (step : scope = .guard ∨ scope.IsStep id)
    {o : Open} (h : scope.enter s = .ok (o, s')) : s'.stagedValues q = s.stagedValues q := by
  obtain rfl | rfl | ⟨f, rfl⟩ := step
  · obtain ⟨-, b, depth, hb, -, rfl⟩ := Scope.enter_guard h
    exact State.stagedValues_congr _ rfl (fun _ => by cases q <;> rfl) (fun _ => rfl) rfl rfl
  · obtain ⟨b, e, hb, -, -, -, rfl⟩ := Scope.enter_proceed h
    exact State.stagedValues_congr _ rfl (fun _ => by cases q <;> rfl) (fun _ => rfl) rfl rfl
  · obtain ⟨b, hb, -, -, rfl⟩ := Scope.enter_start h
    exact State.stagedValues_congr _ rfl (fun _ => by cases q <;> rfl) (fun _ => rfl) rfl rfl

theorem State.resolve_error {c : Callable} {f : Failure} (h : s.resolve c = .error f) :
    f = .environmentClosed ∨ f = .foreignCallable := by
  unfold resolve at h
  repeat' split at h
  all_goals cases h
  · exact .inl rfl
  · exact .inr rfl
  · exact .inl rfl

theorem State.stagedValues_error {f : Failure} (h : s.stagedValues q = .error f) :
    f = .environmentClosed ∨ f = .foreignCallable := by
  unfold stagedValues at h
  split at h
  · cases h
    exact .inl rfl
  · obtain ⟨a, -, ha⟩ := exists_of_mapM_error h
    cases a with
    | object o =>
      simp only [argumentValue, objectValue] at ha
      split at ha <;> cases ha
      exact .inl rfl
    | function c => exact State.resolve_error ha
    | nil | int | bool | text | value => cases ha

theorem CoroutineTable.begin_error {t : CoroutineTable Nat} {f : Failure}
    (h : t.begin id = .error f) : ∃ why, f = .coroutine id why := by
  unfold begin at h
  split at h
  · cases h
    exact ⟨_, rfl⟩
  · split at h
    · cases h
    · cases h
      exact ⟨_, rfl⟩

theorem State.beginStep_error {b : Bridge} {f : Failure} (hb : s.env.bridge = some b)
    (h : s.beginStep id = .error f) : ∃ why, f = .coroutine id why := by
  simp only [beginStep, hb] at h
  cases hc : b.coroutines.begin id with
  | error f' =>
    rw [hc] at h
    cases h
    exact CoroutineTable.begin_error hc
  | ok r =>
    rw [hc] at h
    cases h

theorem State.startStep_error {b : Bridge} {v : Value} {f : Failure} (hb : s.env.bridge = some b)
    (h : s.startStep id v = .error f) : ∃ why, f = .coroutine id why := by
  simp only [startStep, hb] at h
  cases hl : b.coroutines.lookup id with
  | some e =>
    rw [CoroutineTable.create, hl] at h
    cases h
    exact ⟨_, rfl⟩
  | none =>
    rw [CoroutineTable.create, hl] at h
    exact beginStep_error (congrArg (Option.map _) hb) h

/-- What refuses a scope in an open environment is not what an argument lacks. -/
theorem Scope.enter_ne_stagedValues {scope : Scope} (step : scope = .guard ∨ scope.IsStep id)
    {b : Bridge} {f : Failure} (hb : s.env.bridge = some b) (h : scope.enter s = .error f) :
    s'.stagedValues q ≠ .error f := by
  suffices other : f ≠ .environmentClosed ∧ f ≠ .foreignCallable from
    fun lacks => (State.stagedValues_error lacks).elim other.1 other.2
  obtain rfl | rfl | ⟨v, rfl⟩ := step
  · replace h := error_of_map h
    rw [State.enterGuard, hb] at h
    dsimp only at h
    split at h <;> cases h
    exact ⟨Failure.noConfusion, Failure.noConfusion⟩
  · obtain ⟨why, rfl⟩ := State.beginStep_error hb (error_of_map h)
    exact ⟨Failure.noConfusion, Failure.noConfusion⟩
  · obtain ⟨why, rfl⟩ := State.startStep_error hb (error_of_map h)
    exact ⟨Failure.noConfusion, Failure.noConfusion⟩

/-! ## What a refused step leaves -/

/-- What a step in a scope that fails after its begin leaves of the operations. -/
def Scope.withdraw (t : CoroutineTable Nat) : Scope → CoroutineTable Nat
  | proceed id => Keyed.erase id t
  | _ => t

/-- A step begins with its operation running. Without it the operations are what the step leaves if
it fails, and the coroutines that there were are where they were. -/
theorem Scope.IsStep.begins {scope : Scope} (step : scope.IsStep id) {o : Open}
    (h : scope.enter s = .ok (o, s')) :
    (∃ n, o = .step id n ∧ s'.operations.lookup id = some ⟨.running, n⟩) ∧
    Keyed.erase id s'.operations = scope.withdraw s.operations ∧
    ∀ n < s.env.memory.threads.size,
      s'.env.memory.threads[n]? = s.env.memory.threads[n]? := by
  obtain rfl | ⟨f, rfl⟩ := step
  · obtain ⟨b, e, hb, -, -, rfl, rfl⟩ := Scope.enter_proceed h
    refine ⟨⟨_, rfl, ?_⟩, ?_, fun n _ => rfl⟩
    · simp [State.operations, hb]
    · simp [State.operations, hb, Keyed.erase_put, Scope.withdraw]
  · obtain ⟨b, hb, unused, rfl, rfl⟩ := Scope.enter_start h
    refine ⟨⟨_, rfl, ?_⟩, ?_, fun n lt => ?_⟩
    · simp [State.operations, hb]
    · simp [State.operations, hb, Keyed.erase_put, Keyed.erase_of_lookup_none unused,
        Scope.withdraw]
    · simp [Memory.addThread, Array.getElem?_push, Nat.ne_of_lt lt]

/-- The end of a step suspends its operation, or takes it away. -/
theorem State.operations_leave_step {n : Nat} (h : s.operations.lookup id = some ⟨.running, n⟩)
    (r : Reply) : ((Open.step id n).leave s r).operations =
      if State.phaseAfter r = .yielded then Keyed.put id ⟨.yielded, n⟩ s.operations
      else Keyed.erase id s.operations := by
  cases hb : s.env.bridge with
  | none =>
    rw [operations, hb] at h
    cases h
  | some b =>
    have he : b.coroutines.lookup id = some ⟨.running, n⟩ := by simpa [operations, hb] using h
    have ended := CoroutineTable.endStep_running he rfl r
    obtain ⟨-, noAction, hb'⟩ := (Open.step id n).leave_bridge r hb
    rw [operations, operations, hb', hb]
    exact ended

/-- The operations are as they were, or without that of a step in a scope if an argument of it has
no value, and the coroutines that there were are where they were. -/
structure Scope.Withdrawn (scope : Scope) (q : Queue) (f : Failure) (s s' : State) : Prop where
  kept : s.stagedValues q ≠ .error f → s'.operations = s.operations
  lost : s.stagedValues q = .error f → s'.operations = scope.withdraw s.operations
  threads : ∀ n < s.env.memory.threads.size,
    s'.env.memory.threads[n]? = s.env.memory.threads[n]?

/-- A scope that is refused changes nothing. -/
theorem Scope.Withdrawn.refused {scope scope' : Scope} {f : Failure}
    (step : scope' = .guard ∨ scope'.IsStep id) (h : scope'.enter s = .error f) :
    scope.Withdrawn q f s s := by
  refine ⟨fun _ => rfl, fun lacks => ?_, fun n _ => rfl⟩
  cases hb : s.env.bridge with
  | none => cases scope <;> simp [State.operations, hb, withdraw, Keyed.erase]
  | some b => exact absurd lacks (Scope.enter_ne_stagedValues step hb h)

/-- Around a step there is the change of the depth, and what comes of a failure. -/
theorem Scope.Withdrawn.around {scope : Scope} {f : Failure} {s₁ s₂ : State}
    (h : scope.Withdrawn q f s₁ s₂) (values : s₁.stagedValues q = s.stagedValues q)
    (before : s₁.operations = s.operations ∧ s₁.env.memory = s.env.memory)
    (after : s'.operations = s₂.operations ∧ s'.env.memory = s₂.env.memory) :
    scope.Withdrawn q f s s' := by
  obtain ⟨kept, lost, threads⟩ := h
  rw [values, before.1] at kept lost
  rw [before.2] at threads
  rw [← after.1] at kept lost
  rw [← after.2] at threads
  exact ⟨kept, lost, threads⟩

theorem Scope.check_refusal {scope : Scope} {f : Failure} (h : scope.check s q = .error f) :
    f.IsRefusal := by
  unfold check at h
  cases hg : guard.enter s with
  | error f' =>
    rw [hg] at h
    cases h
    exact Scope.enter_refusal hg
  | ok p =>
    rw [hg] at h
    cases he : scope.enter p.2 with
    | error f' =>
      simp only [bind, Except.bind, he] at h
      cases h
      exact Scope.enter_refusal he
    | ok p' =>
      simp only [bind, Except.bind, he] at h
      exact State.stagedValues_refusal h

namespace Code

open Machine

variable {K : List Frame} {us : List Update} {r : Reply}

theorem returns_failStep_eq {f : Failure} (h : Returns K s (failStep q f) us r s') :
    r = .answer (.step (.failed f)) ∧ s' = (s.clear q).report "call_coroutine" f := by
  obtain ⟨us₁, -, cleared⟩ := returns_write h
  obtain ⟨us₂, -, reported⟩ := returns_write cleared
  obtain ⟨-, rfl, rfl⟩ := returns_finish reported
  exact ⟨rfl, rfl⟩

/-- A step that has begun fails if a staged argument has no value, and only then. -/
theorem returns_resumeStaged (h : Returns K s (resumeStaged q id) us r s') {n : Nat}
    (kept : s.operations.lookup id = some ⟨.running, n⟩) :
    match s.stagedValues q with
    | .ok _ => ∀ f, r ≠ .failed f
    | .error f => r = .failed f ∧ s' = s.clear q := by
  obtain ⟨us', -, h⟩ := returns_write (returns_read h)
  split
  case h_1 vs hv =>
    rw [hv] at h
    replace h := returns_read h
    have same : ((Update.clear q).apply s).operations = s.operations := s.operations_clear q
    rw [← State.lookup_operations, same, kept] at h
    obtain ⟨us₁, c, s₁, us₂, -, rest, -⟩ := returns_run h
    obtain ⟨own, -, path⟩ := rest.path
    cases c with
    | returned vs | yielded vs =>
      obtain ⟨-, rfl⟩ := path_finish path
      exact fun f eq => nomatch eq
    | raised v =>
      obtain ⟨text, path⟩ := path_wording _ _ path
      obtain ⟨-, rfl⟩ := path_finish path
      exact fun f eq => nomatch eq
  case h_2 f hf =>
    rw [hf] at h
    obtain ⟨-, rfl, rfl⟩ := returns_finish h
    exact ⟨rfl, rfl⟩

/-- What a step comes to that has begun and does not fail. -/
inductive Ran : Reply → Prop
  | gave (status : CoroutineStatus) (vs : List Value) : Ran (.answer (.step (.gave status vs)))
  | raised (text : String) : Ran (.answer (.step (.failed (.script text))))

theorem Ran.not_refused (h : Ran r) {f : Failure} (eq : r = .answer (.step (.failed f))) :
    ¬ f.IsRefusal := by
  cases h with
  | gave status vs => simp [CoroutineResult.gave, CoroutineResult.failed] at eq
  | raised text =>
    cases eq
    exact fun refusal => refusal text rfl

theorem path_stepResult {own : List Update} {r₁ : Reply} (h : Path (resumeStaged q id) own r₁)
    (succeeds : ∀ f, r₁ ≠ .failed f) (h' : Path (stepResult r₁) us r) : Ran r := by
  obtain ⟨vs, rfl⟩ | ⟨vs, rfl⟩ | ⟨text, rfl⟩ | ⟨f, rfl, -⟩ := path_resumeStaged h
  · obtain ⟨-, rfl⟩ := path_finish h'
    exact .gave _ _
  · obtain ⟨-, rfl⟩ := path_finish h'
    exact .gave _ _
  · cases h' with
    | write h' =>
      obtain ⟨-, rfl⟩ := path_finish h'
      exact .raised text
  · exact absurd rfl (succeeds f)

/-- A step that is asked for below the bound is refused with its scope or in it. -/
theorem returns_step_refused {scope : Scope} (step : scope.IsStep id)
    (h : Returns K s (.scope scope (resumeStaged q id) fail stepResult) us r s') :
    match (do let (_, s) ← scope.enter s; s.stagedValues q : Except Failure (List Value)) with
    | .ok _ => Ran r
    | .error f => r = .failed f ∧ scope.Withdrawn q f s s' := by
  obtain ⟨f, refused, h⟩ | ⟨o, s₁, us₁, r₁, s₂, us₂, enters, body, after, rfl⟩ := returns_scope h
  · obtain ⟨-, rfl, rfl⟩ := returns_finish h
    rw [refused]
    exact ⟨rfl, .refused (.inr step) refused⟩
  obtain ⟨⟨n, rfl, running⟩, withdrawn, threads⟩ := step.begins enters
  have ended := returns_resumeStaged body running
  rw [enters]
  simp only [bind, Except.bind]
  rw [Scope.stagedValues_enter (.inr step) enters] at ended ⊢
  cases hv : s.stagedValues q with
  | ok vs =>
    rw [hv] at ended
    obtain ⟨own, -, path⟩ := body.path
    obtain ⟨own', -, path'⟩ := after.path
    exact path_stepResult path ended path'
  | error f =>
    rw [hv] at ended
    obtain ⟨rfl, rfl⟩ := ended
    obtain ⟨-, rfl, rfl⟩ := returns_finish after
    refine ⟨rfl, fun other => absurd hv other, fun _ => ?_, threads⟩
    rw [State.operations_leave_step (by simpa using running)]
    simpa [State.phaseAfter] using withdrawn

/-- A step that is asked for is refused at the bound, with its scope or in it. -/
theorem returns_runStep_refused {scope : Scope} (step : scope.IsStep id)
    (h : Returns K s (runStep q scope id) us r s') :
    match scope.check s q with
    | .ok _ => Ran r
    | .error f => r = .answer (.step (.failed f)) ∧ s'.staged q = [] ∧
        scope.Withdrawn q f s s' := by
  have first : Scope.guard = .guard ∨ Scope.guard.IsStep id := .inl rfl
  obtain ⟨f, refused, h⟩ | ⟨o, s₁, us₁, r₁, s₂, us₂, enters, inner, after, rfl⟩ := returns_scope h
  · obtain ⟨rfl, rfl⟩ := returns_failStep_eq h
    rw [Scope.check, refused]
    exact ⟨rfl, by simp, (Scope.Withdrawn.refused first refused).around rfl ⟨rfl, rfl⟩ (by simp)⟩
  have ended := returns_step_refused step inner
  have values := Scope.stagedValues_enter (q := q) first enters
  obtain ⟨rfl, b, depth, hb, -, rfl⟩ := Scope.enter_guard enters
  rw [Scope.check, enters]
  simp only [bind, Except.bind] at ended ⊢
  split at ended
  · cases ended with
    | gave status vs =>
      obtain ⟨-, rfl, -⟩ := returns_finish after
      exact .gave _ _
    | raised text =>
      obtain ⟨-, rfl, -⟩ := returns_finish after
      exact .raised _
  · obtain ⟨rfl, withdrawn⟩ := ended
    obtain ⟨rfl, rfl⟩ := returns_failStep_eq after
    exact ⟨rfl, by simp, withdrawn.around values ⟨by simp [State.operations, hb], rfl⟩
      (by simp [Open.leave])⟩

/-- A first step that is refused leaves the operations as they are. -/
theorem returns_first_refused {c : Callable} {declared : Nat}
    (h : Returns K s (callCoroutine c declared id 0) us r s') :
    match s.checkStep c declared id 0 with
    | .ok _ => Ran r
    | .error f => r = .answer (.step (.failed f)) ∧ s'.staged .call = [] ∧
        s'.operations = s.operations ∧
        ∀ n < s.env.memory.threads.size,
          s'.env.memory.threads[n]? = s.env.memory.threads[n]? := by
  rw [State.checkStep, if_pos rfl]
  replace h := returns_read h
  dsimp only at h
  split at h
  case isTrue count =>
    rw [if_pos count]
    cases hf : s.resolve c with
    | ok f =>
      rw [hf] at h
      have ended := returns_runStep_refused (.inr ⟨f, rfl⟩) h
      simp only [bind, Except.bind]
      split at ended
      · exact ended
      · obtain ⟨rfl, staged, withdrawn⟩ := ended
        refine ⟨rfl, staged, ?_, withdrawn.threads⟩
        exact (Classical.em _).elim withdrawn.lost withdrawn.kept
    | error f =>
      rw [hf] at h
      obtain ⟨rfl, rfl⟩ := returns_failStep_eq h
      exact ⟨rfl, by simp, by simp, fun n _ => by simp⟩
  case isFalse count =>
    rw [if_neg count]
    obtain ⟨rfl, rfl⟩ := returns_failStep_eq h
    exact ⟨rfl, by simp, by simp, fun n _ => by simp⟩

end Code

theorem State.checkStep_refusal {c : Callable} {declared step : Nat} {f : Failure}
    (h : s.checkStep c declared id step = .error f) : f.IsRefusal := by
  unfold checkStep at h
  split at h
  · split at h
    · cases hf : s.resolve c with
      | ok v =>
        rw [hf] at h
        exact Scope.check_refusal h
      | error f' =>
        rw [hf] at h
        cases h
        exact State.resolve_refusal hf
    · cases h
      exact fun _ eq => nomatch eq
  · exact Scope.check_refusal h

/-- What is left of a state by a step that is refused with a failure. -/
structure State.Refused (s : State) (id : CoroutineId) (step : Nat) (f : Failure) (s' : State) :
    Prop where
  staged : s'.staged (queueOf step) = []
  kept : step = 0 ∨ s.stagedValues .resume ≠ .error f → s'.operations = s.operations
  lost : step ≠ 0 → s.stagedValues .resume = .error f →
    s'.operations = Keyed.erase id s.operations
  threads : ∀ n < s.env.memory.threads.size,
    s'.env.memory.threads[n]? = s.env.memory.threads[n]?

/-- A step is refused with what the checks before it come to, or has run. -/
theorem Code.returns_callCoroutine_refused {K : List Frame} {us : List Update} {r : Reply}
    {c : Callable} {declared step : Nat}
    (h : Returns K s (callCoroutine c declared id step) us r s') :
    match s.checkStep c declared id step with
    | .ok _ => Ran r
    | .error f => r = .answer (.step (.failed f)) ∧ s.Refused id step f s' := by
  by_cases first : step = 0
  · subst first
    have ended := returns_first_refused h
    split at ended
    case h_1 => exact ended
    case h_2 f hf =>
      obtain ⟨rfl, staged, kept, threads⟩ := ended
      exact ⟨rfl, staged, fun _ => kept, fun other => absurd rfl other, threads⟩
  · rw [callCoroutine, if_neg first] at h
    have ended := returns_runStep_refused (.inl rfl) h
    rw [State.checkStep, if_neg first]
    split at ended
    · exact ended
    · obtain ⟨rfl, staged, withdrawn⟩ := ended
      refine ⟨rfl, by rwa [State.queueOf, if_neg first], fun other => ?_, fun _ => withdrawn.lost,
        withdrawn.threads⟩
      exact withdrawn.kept (other.resolve_left first)

/-- **Refused steps.** A step is refused exactly if one of the checks before it fails, and with the
failure of the first one that does. Then nothing is staged for it any more, and all coroutines are
where they were. The operations are as they were, except that a later step which is refused since
an argument has no value ends its operation. -/
theorem refused_step {K : List Frame} {us : List Update} {r : Reply} {c : Callable}
    {declared step : Nat}
    (h : (Operation.callCoroutine c declared id step).code.Returns K s us r s') :
    (∀ f, r = .answer (.step (.failed f)) ∧ f.IsRefusal ↔
      s.checkStep c declared id step = .error f) ∧
    ∀ f, s.checkStep c declared id step = .error f → s.Refused id step f s' := by
  have ended := Code.returns_callCoroutine_refused h
  cases hv : s.checkStep c declared id step with
  | ok vs =>
    rw [hv] at ended
    exact ⟨fun f => ⟨fun ⟨eq, refusal⟩ => absurd refusal (ended.not_refused eq), nofun⟩, nofun⟩
  | error f =>
    rw [hv] at ended
    obtain ⟨rfl, left⟩ := ended
    refine ⟨fun f' => ⟨fun ⟨eq, _⟩ => ?_, fun eq => ?_⟩, fun f' eq => ?_⟩
    · cases eq
      rfl
    · cases eq
      exact ⟨rfl, State.checkStep_refusal hv⟩
    · cases eq
      exact left

open Machine Host

/-- Functions that the host holds : one of the first environment, which suspends the coroutine that
it runs on, and one of another environment. -/
def twoAccounts : Shared :=
  ⟨#[⟨true, 1⟩, ⟨true, 1⟩],
    #[⟨.builtin .coroutineYield, 0, 1⟩, ⟨.builtin .coroutineYield, 1, 1⟩], [], [], []⟩

/-- An operation is suspended, and what is staged to resume it is a foreign function. -/
theorem exists_foreign_argument : ∃ m us s, (Blueprint.plain ⟨1⟩).Reaches m ∧ m.stack = [] ∧
    m.state.operations = [(⟨7⟩, ⟨.yielded, 0⟩)] ∧
    m.state.stagedValues .resume = .error .foreignCallable ∧
    (Operation.callCoroutine ⟨0⟩ 0 ⟨7⟩ 1).code.Returns [] m.state us
      (.answer (.step (.failed .foreignCallable))) s ∧ s.operations = [] := by
  obtain ⟨r, s, s', stops, stops', suspended, foreign, gone⟩ : ∃ r s s',
      run idle 60 (.start ⟨(Blueprint.plain ⟨1⟩).environment 0, twoAccounts⟩
        ((Operation.callCoroutine ⟨0⟩ 0 ⟨7⟩ 0).code.andThen fun _ =>
          (Operation.stage .resume false (.function ⟨1⟩)).code)) = .ended r s ∧
      run idle 60 (.start s (Operation.callCoroutine ⟨0⟩ 0 ⟨7⟩ 1).code) =
        .ended (.answer (.step (.failed .foreignCallable))) s' ∧
      s.operations = [(⟨7⟩, ⟨.yielded, 0⟩)] ∧
      s.stagedValues .resume = .error .foreignCallable ∧ s'.operations = [] :=
    ⟨_, _, _, rfl, rfl, rfl, rfl, rfl⟩
  exact ⟨_, _, s', Blueprint.reaches_of_ended stops, rfl, suspended, foreign,
    run_of_ended _ _ stops', gone⟩

/-- A later step whose argument is foreign ends its operation. -/
theorem refused_step_foreign : ∃ s us s',
    (Operation.callCoroutine ⟨0⟩ 0 ⟨7⟩ 1).code.Returns [] s us
      (.answer (.step (.failed .foreignCallable))) s' ∧
    s.operations = [(⟨7⟩, ⟨.yielded, 0⟩)] ∧ s'.staged .resume = [] ∧ s'.operations = [] := by
  obtain ⟨m, us, s', -, -, suspended, foreign, returns, -⟩ := exists_foreign_argument
  obtain ⟨refused, left⟩ := refused_step returns
  have checked := (refused .foreignCallable).mp ⟨rfl, nofun⟩
  refine ⟨m.state, us, s', returns, suspended, (left _ checked).staged, ?_⟩
  rw [(left _ checked).lost Nat.one_ne_zero foreign, suspended]
  rfl

/-- A refused step may take an operation away. -/
theorem not_operations_of_refused_step :
    ¬ ∀ (b : Blueprint) (m : Machine) (c : Callable) (declared : Nat) (id : CoroutineId)
      (step : Nat) (us : List Update) (f : Failure) (s : State), b.Reaches m →
      (Operation.callCoroutine c declared id step).code.Returns m.stack m.state us
        (.answer (.step (.failed f))) s →
      f.IsRefusal → s.operations = m.state.operations := by
  intro claimed
  obtain ⟨m, us, s, reached, rest, suspended, -, returns, gone⟩ := exists_foreign_argument
  have same := claimed _ m _ _ _ _ us .foreignCallable s reached (rest ▸ returns) nofun
  rw [suspended, gone] at same
  cases same

end CardBridge
