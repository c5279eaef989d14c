import CardBridge.Proofs.Errands
import CardBridge.Proofs.HostRuns

/-!
# Runs on other stacks

A run that leaves the part `K` of the stack alone is the same run on another part `K'`, as long as a
script that begins on either finds the same below it (`Machine.AlikeBelow`, `Machine.Steps.rebase`).
Scopes that are open and scripts that host code waits for are not seen from above, so what some code
gives does not depend on what it is a part of.

With this, what code gives is read off its tree : the lemmas `gives_…_iff` say for each kind of code
that it gives what its parts give, one after the other. A script that is run, with all that it
calls, is a `Machine.Completes`. Host code is finite, so it comes to an end whenever the scripts do
that it has run (`Code.gives_or_hangs`).
-/

namespace CardBridge

open Script (Completion Value)

/-! ## States -/

namespace State

/-- A state in which one more query is being evaluated. -/
def beginQuery (s : State) : State :=
  s.updateBridge fun b => { b with noAction := b.noAction + 1 }

/-- A state in which a query has come to its end. -/
def endQuery (s : State) : State :=
  s.updateBridge fun b => { b with noAction := if b.noAction = 0 then 0 else b.noAction - 1 }

/-- A state in which arguments have been staged for calls. -/
def stageAll (s : State) (args : List Argument) : State :=
  args.foldl (fun s a => s.stage .call false a) s

end State

/-! ## Code in parts -/

namespace Code

theorem andThen_assoc (c : Code) (next next' : Reply → Code) :
    (c.andThen next).andThen next' = c.andThen fun r => (next r).andThen next' := by
  induction c with
  | finish r => rfl
  | read k ih => exact congrArg read (funext ih)
  | write u c ih => exact congrArg (write u) ih
  | run task k ih => exact congrArg (run task) (funext ih)
  | trace k ih => exact congrArg trace (funext ih)
  | scope s body refused k _ ihr ihk =>
    exact congrArg₂ (scope s body) (funext ihr) (funext ihk)

theorem wording_andThen (k : String → Code) (next : Reply → Code) :
    ∀ (fuel : Nat) (v : Value),
      (wording fuel v k).andThen next = wording fuel v fun text => (k text).andThen next
  | 0, v => rfl
  | fuel + 1, v => by
    unfold wording
    split
    · rfl
    · rfl
    · refine congrArg read (funext fun s => ?_)
      dsimp only
      split
      · rfl
      · refine congrArg (run _) (funext fun c => ?_)
        cases c with
        | returned vs | yielded vs =>
          dsimp only
          split <;> rfl
        | raised w => exact wording_andThen k next fuel w

theorem attempt_andThen (task : Task) (k : List Value → Code) (failed : String → Code)
    (next : Reply → Code) : (attempt task k failed).andThen next =
      attempt task (fun vs => (k vs).andThen next) fun text => (failed text).andThen next := by
  refine congrArg (run task) (funext fun c => ?_)
  cases c with
  | returned vs | yielded vs => rfl
  | raised v => exact wording_andThen failed next _ v

end Code

namespace Machine

/-! ## The same run on another stack -/

/-- What a script finds below it is the same above two parts of stacks. -/
structure AlikeBelow (K K' : List Frame) : Prop where
  base : baseOf K' = baseOf K
  activations : activationsOf K' = activationsOf K

namespace AlikeBelow

variable {K K' : List Frame}

theorem refl (K : List Frame) : AlikeBelow K K :=
  ⟨rfl, rfl⟩

theorem symm (h : AlikeBelow K K') : AlikeBelow K' K :=
  ⟨h.base.symm, h.activations.symm⟩

theorem scope {o : Open} {k : Reply → Code} (h : AlikeBelow K K') :
    AlikeBelow K (.scope o k :: K') :=
  ⟨h.base, h.activations⟩

theorem script {k : Completion → Code} (h : AlikeBelow K K') : AlikeBelow K (.script k :: K') :=
  ⟨h.base, h.activations⟩

theorem append (h : AlikeBelow K K') (B : List Frame) : AlikeBelow (B ++ K) (B ++ K') := by
  induction B with
  | nil => exact h
  | cons F B ih =>
    cases F with
    | scope | script => exact ⟨ih.base, ih.activations⟩
    | native stack base =>
      refine ⟨rfl, ?_⟩
      simp only [List.cons_append, activationsOf, ih.activations]

end AlikeBelow

variable {host : Host} {K K' : List Frame} {m m' : Machine}

theorem stepHost_rebase (alike : AlikeBelow K K') {s : State} {c : Code} {B : List Frame}
    (h : stepHost s c (B ++ K) = .next m) (hK : K <:+ m.stack) :
    ∃ B', m.stack = B' ++ K ∧ stepHost s c (B ++ K') = .next ⟨m.state, m.activity, B' ++ K'⟩ := by
  have below := alike.append B
  cases c with
  | finish r =>
    cases B with
    | nil =>
      have first : step (fun _ _ => .done) ⟨s, .host (.finish r), K⟩ = .next m := h
      exact (not_step_of_finish first hK).elim
    | cons F B =>
      cases F with
      | scope o k =>
        cases h
        exact ⟨B, rfl, rfl⟩
      | script k => cases h
      | native stack base =>
        cases h
        exact ⟨B, rfl, rfl⟩
  | read k | write u c =>
    cases h
    exact ⟨B, rfl, rfl⟩
  | run task k =>
    cases h
    refine ⟨.script k :: B, rfl, ?_⟩
    rw [stepHost, below.base]
    rfl
  | trace k =>
    cases h
    refine ⟨B, rfl, ?_⟩
    rw [stepHost, below.activations]
  | scope scope body refused k =>
    unfold stepHost at h ⊢
    dsimp only at h ⊢
    split at h
    case h_1 o s' he =>
      cases h
      exact ⟨.scope o k :: B, rfl, rfl⟩
    case h_2 f he =>
      cases h
      exact ⟨B, rfl, rfl⟩

theorem stepScript_rebase {s : State} {t : Script.State} {B : List Frame}
    (h : stepScript host s t (B ++ K) = .next m) (hK : K <:+ m.stack) :
    ∃ B', m.stack = B' ++ K ∧
      stepScript host s t (B ++ K') = .next ⟨m.state, m.activity, B' ++ K'⟩ := by
  unfold stepScript at h ⊢
  split at h
  case h_1 t' ht =>
    cases h
    exact ⟨B, rfl, rfl⟩
  case h_2 n args t' ht =>
    cases h
    exact ⟨.native t'.stack t'.base :: B, rfl, rfl⟩
  case h_3 c memory hc =>
    cases B with
    | nil =>
      split at h
      case h_1 k rest eq =>
        cases h
        rw [List.nil_append] at eq
        rw [eq] at hK
        exact (Code.not_cons_suffix hK).elim
      case h_2 => cases h
    | cons F B =>
      cases F with
      | script k =>
        cases h
        exact ⟨B, rfl, rfl⟩
      | scope | native => cases h
  case h_4 => cases h

theorem step_rebase (alike : AlikeBelow K K') {s : State} {a : Activity} {B : List Frame}
    (h : step host ⟨s, a, B ++ K⟩ = .next m) (hK : K <:+ m.stack) :
    ∃ B', m.stack = B' ++ K ∧
      step host ⟨s, a, B ++ K'⟩ = .next ⟨m.state, m.activity, B' ++ K'⟩ := by
  cases a with
  | host c => exact stepHost_rebase alike h hK
  | script control stack base => exact stepScript_rebase h hK

/-- Steps above a part of the stack are steps above another one. -/
theorem Steps.rebase (alike : AlikeBelow K K') (h : Steps host K m m') :
    ∀ {B : List Frame}, m.stack = B ++ K → ∃ B', m'.stack = B' ++ K ∧
      Steps host K' ⟨m.state, m.activity, B ++ K'⟩ ⟨m'.state, m'.activity, B' ++ K'⟩ := by
  induction h with
  | done m => exact fun {B} hm => ⟨B, hm, .done _⟩
  | @step m m₁ m' h hK _ ih =>
    intro B hm
    obtain ⟨s, a, S⟩ := m
    obtain rfl : S = B ++ K := hm
    obtain ⟨B₁, hm₁, first⟩ := step_rebase alike h hK
    obtain ⟨B', hm', rest⟩ := ih hm₁
    exact ⟨B', hm', .step first (List.suffix_append _ _) rest⟩

/-- Where steps go below the frame `F`, they take that frame away. -/
theorem Steps.split {F : Frame} (h : Steps host K m m') (hm : F :: K <:+ m.stack)
    (hm' : ¬ F :: K <:+ m'.stack) :
    ∃ m₁ m₂, Steps host (F :: K) m m₁ ∧ m₁.stack = F :: K ∧ m₁.step host = .next m₂ ∧
      m₂.stack = K ∧ Steps host K m₂ m' := by
  induction h with
  | done => exact absurd hm hm'
  | @step m m₁ m' h hK rest ih =>
    by_cases stays : F :: K <:+ m₁.stack
    · obtain ⟨n₁, n₂, above, top, last, left, below⟩ := ih stays hm'
      exact ⟨n₁, n₂, .step h stays above, top, last, left, below⟩
    · obtain ⟨top, left⟩ := (move_of_step h).pop hm stays
      exact ⟨m, m₁, .done _, top, h, left, rest⟩

/-! ## Scripts that are run -/

/-- A task that is given to scripts above `K` in the state `s` comes to `c` in the state `s'`. -/
def Completes (host : Host) (K : List Frame) (s : State) (task : Task) (c : Completion)
    (s' : State) : Prop :=
  ∃ s₁ control stack base memory,
    Steps host K ⟨s, .script (taskControl task) [] (baseOf K), K⟩
      ⟨s₁, .script control stack base, K⟩ ∧
    Script.State.step ⟨s₁.env.memory, control, stack, base⟩ = .settled c memory ∧
    s' = s₁.setMemory memory

/-- Host code that has scripts do something comes to what it goes on with. -/
theorem Completes.steps {s s' : State} {task : Task} {c : Completion} {k : Completion → Code}
    (h : Completes host K s task c s') :
    Steps host K ⟨s, .host (.run task k), K⟩ ⟨s', .host (k c), K⟩ := by
  obtain ⟨s₁, control, stack, base, memory, steps, settles, rfl⟩ := h
  obtain ⟨B, hB, steps⟩ := steps.rebase (AlikeBelow.refl K).script (B := []) rfl
  obtain rfl : B = [] := List.append_left_eq_self.mp hB.symm
  refine .step rfl (List.suffix_cons _ _) ((steps.mono (List.suffix_cons _ _)).trans ?_)
  exact .settle settles List.suffix_rfl (.done _)

end Machine

namespace Code

open Machine

variable {host : Host} {K K' : List Frame} {s s' : State} {r : Reply}

/-! ## What code gives -/

/-- What code gives does not depend on the stack, as far as it looks alike. -/
theorem Gives.rebase {c : Code} (h : Gives host K s c r s') (alike : AlikeBelow K K') :
    Gives host K' s c r s' := by
  obtain ⟨B, hB, steps⟩ := Steps.rebase alike h (B := []) rfl
  obtain rfl : B = [] := List.append_left_eq_self.mp hB.symm
  exact steps

@[simp] theorem gives_finish_iff {r' : Reply} :
    Gives host K s (.finish r') r s' ↔ r = r' ∧ s' = s := by
  constructor
  · intro h
    cases h with
    | done => exact ⟨rfl, rfl⟩
    | step h hK => exact (not_step_of_finish h hK).elim
  · rintro ⟨rfl, rfl⟩
    exact .finish

@[simp] theorem gives_read_iff {k : State → Code} :
    Gives host K s (.read k) r s' ↔ Gives host K s (k s) r s' := by
  refine ⟨fun h => ?_, .read⟩
  cases h with
  | step h _ rest =>
    cases h
    exact rest

@[simp] theorem gives_write_iff {u : Update} {c : Code} :
    Gives host K s (.write u c) r s' ↔ Gives host K (u.apply s) c r s' := by
  refine ⟨fun h => ?_, .write⟩
  cases h with
  | step h _ rest =>
    cases h
    exact rest

@[simp] theorem gives_trace_iff {k : List TraceLine → Code} :
    Gives host K s (.trace k) r s' ↔
      Gives host K s (k (traceLines (activationsOf K))) r s' := by
  refine ⟨fun h => ?_, fun h => .step rfl List.suffix_rfl h⟩
  cases h with
  | step h _ rest =>
    cases h
    exact rest

/-- Code that has scripts do something goes on with what that comes to. -/
theorem gives_run_iff {task : Task} {k : Completion → Code} :
    Gives host K s (.run task k) r s' ↔
      ∃ c s₁, Completes host K s task c s₁ ∧ Gives host K s₁ (k c) r s' := by
  have alike : AlikeBelow K (.script k :: K) := (AlikeBelow.refl K).script
  constructor
  · intro h
    cases h with
    | step h _ rest =>
      cases h
      obtain ⟨m₁, m₂, above, top, last, left, below⟩ := rest.split List.suffix_rfl not_cons_suffix
      obtain ⟨B, hB, steps⟩ := above.rebase alike.symm (B := []) rfl
      obtain rfl : B = [] := List.append_left_eq_self.mp (hB.symm.trans top)
      obtain ⟨s₁, a, S⟩ := m₁
      obtain rfl : S = .script k :: K := top
      have move := move_of_step last
      have shorter : m₂.stack.length < (Frame.script k :: K).length := by simp [left]
      cases move with
      | settle settles => exact ⟨_, _, ⟨_, _, _, _, _, steps, settles, rfl⟩, below⟩
      | read | write | run | trace | enter | refuse | script | call =>
        simp only [List.length_cons] at shorter
        omega
  · rintro ⟨c, s₁, script, rest⟩
    exact script.steps.trans rest

/-- Code in a scope that begins goes on after the scope. -/
theorem Gives.steps_scope {scope : Scope} {body : Code} {refused : Failure → Code}
    {k : Reply → Code} {o : Open} {s₁ s₂ : State} (enters : scope.enter s = .ok (o, s₁))
    (h : Gives host K s₁ body r s₂) :
    Steps host K ⟨s, .host (.scope scope body refused k), K⟩ ⟨o.leave s₂ r, .host (k r), K⟩ := by
  have inside : Gives host (.scope o k :: K) s₁ body r s₂ := h.rebase (AlikeBelow.refl K).scope
  refine .step ?_ (List.suffix_cons (.scope o k) K)
    ((Steps.mono inside (List.suffix_cons _ _)).trans (.step rfl List.suffix_rfl (.done _)))
  simp [Machine.step, stepHost, enters]

/-- Code in a scope gives what it gives alone, and then the scope ends. -/
theorem gives_scope_iff {scope : Scope} {body : Code} {refused : Failure → Code}
    {k : Reply → Code} :
    Gives host K s (.scope scope body refused k) r s' ↔
      match scope.enter s with
      | .error f => Gives host K s (refused f) r s'
      | .ok (o, s₁) =>
        ∃ r₁ s₂, Gives host K s₁ body r₁ s₂ ∧ Gives host K (o.leave s₂ r₁) (k r₁) r s' := by
  cases he : scope.enter s with
  | error f =>
    refine ⟨fun h => ?_, .refused he⟩
    cases h with
    | step h _ rest =>
      simp only [Machine.step, stepHost, he] at h
      cases h
      exact rest
  | ok entered =>
    obtain ⟨o, s₁⟩ := entered
    have alike : AlikeBelow K (.scope o k :: K) := (AlikeBelow.refl K).scope
    constructor
    · intro h
      cases h with
      | step h _ rest =>
        simp only [Machine.step, stepHost, he] at h
        cases h
        obtain ⟨m₁, m₂, above, top, last, left, below⟩ :=
          rest.split List.suffix_rfl not_cons_suffix
        obtain ⟨s₂, r₁, rfl, rfl⟩ := (move_of_step last).pop_scope top left
        exact ⟨r₁, s₂, Gives.rebase above alike.symm, below⟩
    · rintro ⟨r₁, s₂, inside, after⟩
      exact (inside.steps_scope he).trans after

/-- Code that goes on after other code does so where that has ended. -/
theorem Gives.steps_andThen {c : Code} {next : Reply → Code} (h : Gives host K s c r s') :
    Steps host K ⟨s, .host (c.andThen next), K⟩ ⟨s', .host (next r), K⟩ := by
  induction c generalizing s with
  | finish r₁ =>
    obtain ⟨rfl, rfl⟩ := gives_finish_iff.mp h
    exact .done _
  | read k ih => exact .step rfl List.suffix_rfl (ih _ (gives_read_iff.mp h))
  | write u c ih => exact .step rfl List.suffix_rfl (ih (gives_write_iff.mp h))
  | trace k ih => exact .step rfl List.suffix_rfl (ih _ (gives_trace_iff.mp h))
  | run task k ih =>
    obtain ⟨c, s₁, script, rest⟩ := gives_run_iff.mp h
    exact script.steps.trans (ih c rest)
  | scope scope body refused k _ ihr ihk =>
    rw [gives_scope_iff] at h
    cases he : scope.enter s with
    | error f =>
      rw [he] at h
      refine .step ?_ List.suffix_rfl (ihr f h)
      simp [Machine.step, stepHost, andThen, he]
    | ok entered =>
      rw [he] at h
      obtain ⟨r₁, s₂, inside, after⟩ := h
      exact (inside.steps_scope he).trans (ihk r₁ after)

/-- Code that goes on after other code gives what the second gives where the first has ended. -/
theorem gives_andThen_iff {c : Code} {next : Reply → Code} :
    Gives host K s (c.andThen next) r s' ↔
      ∃ r₁ s₁, Gives host K s c r₁ s₁ ∧ Gives host K s₁ (next r₁) r s' := by
  refine ⟨fun h => ?_, fun ⟨r₁, s₁, first, second⟩ => first.steps_andThen.trans second⟩
  induction c generalizing s with
  | finish r₁ => exact ⟨r₁, s, .finish, h⟩
  | read k ih =>
    obtain ⟨r₁, s₁, first, second⟩ := ih _ (gives_read_iff.mp h)
    exact ⟨r₁, s₁, first.read, second⟩
  | write u c ih =>
    obtain ⟨r₁, s₁, first, second⟩ := ih (gives_write_iff.mp h)
    exact ⟨r₁, s₁, first.write, second⟩
  | trace k ih =>
    obtain ⟨r₁, s₁, first, second⟩ := ih _ (gives_trace_iff.mp h)
    exact ⟨r₁, s₁, gives_trace_iff.mpr first, second⟩
  | run task k ih =>
    obtain ⟨c, s₁, script, rest⟩ := gives_run_iff.mp h
    obtain ⟨r₁, s₂, first, second⟩ := ih c rest
    exact ⟨r₁, s₂, gives_run_iff.mpr ⟨c, s₁, script, first⟩, second⟩
  | scope scope body refused k _ ihr ihk =>
    simp only [andThen, gives_scope_iff] at h ⊢
    cases he : scope.enter s with
    | error f =>
      rw [he] at h
      exact ihr f h
    | ok entered =>
      rw [he] at h
      obtain ⟨r₀, s₀, inside, after⟩ := h
      obtain ⟨r₁, s₁, first, second⟩ := ihk r₀ after
      exact ⟨r₁, s₁, ⟨r₀, s₀, inside, first⟩, second⟩

/-- Code within a scope gives what it gives alone, and then the scope ends. -/
theorem gives_within_iff {scope : Scope} {body : Code} :
    Gives host K s (within scope body) r s' ↔
      match scope.enter s with
      | .error f => r = .failed f ∧ s' = s
      | .ok (o, s₁) => ∃ s₂, Gives host K s₁ body r s₂ ∧ s' = o.leave s₂ r := by
  unfold within fail
  rw [gives_scope_iff]
  cases scope.enter s with
  | error f => exact gives_finish_iff
  | ok entered =>
    simp only [gives_finish_iff]
    constructor
    · rintro ⟨_, s₂, inside, rfl, rfl⟩
      exact ⟨s₂, inside, rfl⟩
    · rintro ⟨s₂, inside, rfl⟩
      exact ⟨r, s₂, inside, rfl, rfl⟩

/-! ### Combinators -/

/-- How a query reads what its code has come to. -/
def readAs (reading : List Value → Answer) (otherwise : Answer) : Reply → Answer
  | .answer (.values vs) => reading vs
  | _ => otherwise

/-- A query gives what its code gives, as it reads that, and no action is allowed meanwhile. -/
theorem gives_query_iff {body : Code} {reading : List Value → Answer} {otherwise : Answer} :
    Gives host K s (query body reading otherwise) r s' ↔
      ∃ r₁ s₁, Gives host K s.beginQuery body r₁ s₁ ∧
        r = .answer (readAs reading otherwise r₁) ∧ s' = s₁.endQuery := by
  unfold query
  rw [gives_scope_iff]
  simp only [Scope.enter]
  refine exists_congr fun r₁ => exists_congr fun s₁ => and_congr_right fun _ => ?_
  cases r₁ with
  | answer a => cases a <;> exact gives_finish_iff
  | suspended | failed | raised => exact gives_finish_iff

/-- A class that is there is not loaded. -/
theorem gives_loadCard_of_loaded {code : UInt32} (there : isClassLoaded s code = true) :
    Gives host K s (loadCard code) (.answer .done) s := by
  refine .read ?_
  rw [if_pos there]
  exact .finish

/-- Code for which arguments are staged gives what it gives with them in the queue. -/
theorem gives_stageAll_iff {args : List Argument} {c : Code} :
    Gives host K s (stageAll args c) r s' ↔ Gives host K (s.stageAll args) c r s' := by
  induction args generalizing s with
  | nil => rfl
  | cons a args ih => exact gives_write_iff.trans ih

/-! ### Code that comes to no end -/

/-- Host code that begins in `s` on top of `K` comes to have something done by a script that gives
nothing. Either the script goes on for ever, or it comes to where it has no next step
(`Script.Outcome.stuck`), as it does if a value of the host names a function that is not in
memory. -/
def Hangs (host : Host) (K : List Frame) (s : State) (c : Code) : Prop :=
  ∃ s₁ task k L, K <:+ L ∧ Steps host K ⟨s, .host c, K⟩ ⟨s₁, .host (.run task k), L⟩ ∧
    ∀ done s₂, ¬ Completes host L s₁ task done s₂

/-- What code begins with can be the begin of code that comes to no end. -/
theorem Hangs.after {c c' : Code} {K' : List Frame} (above : K <:+ K')
    (first : Steps host K ⟨s, .host c, K⟩ ⟨s', .host c', K'⟩) (h : Hangs host K' s' c') :
    Hangs host K s c := by
  obtain ⟨s₁, task, k, L, hL, steps, never⟩ := h
  exact ⟨s₁, task, k, L, above.trans hL, first.trans (steps.mono above), never⟩

theorem gives_or_hangs_after {c c' : Code}
    (first : Steps host K ⟨s, .host c, K⟩ ⟨s', .host c', K⟩)
    (h : (∃ r s₁, Gives host K s' c' r s₁) ∨ Hangs host K s' c') :
    (∃ r s₁, Gives host K s c r s₁) ∨ Hangs host K s c :=
  h.imp (fun ⟨r, s₁, h⟩ => ⟨r, s₁, first.trans h⟩) (.after List.suffix_rfl first)

/-- Host code comes to an end, unless a script that it has run does not. -/
theorem gives_or_hangs (host : Host) (K : List Frame) (s : State) (c : Code) :
    (∃ r s', Gives host K s c r s') ∨ Hangs host K s c := by
  induction c generalizing K s with
  | finish r => exact .inl ⟨r, s, .finish⟩
  | read k ih =>
    exact gives_or_hangs_after (.step rfl List.suffix_rfl (.done _)) (ih s K s)
  | write u c ih =>
    exact gives_or_hangs_after (.step rfl List.suffix_rfl (.done _)) (ih K (u.apply s))
  | trace k ih =>
    exact gives_or_hangs_after (.step rfl List.suffix_rfl (.done _)) (ih _ K s)
  | run task k ih =>
    by_cases ends : ∃ done s₁, Completes host K s task done s₁
    · obtain ⟨done, s₁, script⟩ := ends
      exact gives_or_hangs_after script.steps (ih done K s₁)
    · exact .inr ⟨s, task, k, K, List.suffix_rfl, .done _, fun done s₁ script =>
        ends ⟨done, s₁, script⟩⟩
  | scope scope body refused k ihb ihr ihk =>
    cases he : scope.enter s with
    | error f =>
      have first : step host ⟨s, .host (.scope scope body refused k), K⟩ =
          .next ⟨s, .host (refused f), K⟩ := by simp [Machine.step, stepHost, he]
      exact gives_or_hangs_after (.step first List.suffix_rfl (.done _)) (ihr f K s)
    | ok entered =>
      obtain ⟨o, s₁⟩ := entered
      have first : step host ⟨s, .host (.scope scope body refused k), K⟩ =
          .next ⟨s₁, .host body, .scope o k :: K⟩ := by simp [Machine.step, stepHost, he]
      obtain ⟨r₁, s₂, inside⟩ | hangs := ihb (.scope o k :: K) s₁
      · have inside := inside.rebase (AlikeBelow.refl K).scope.symm
        exact gives_or_hangs_after (inside.steps_scope he) (ihk r₁ K _)
      · have above : K <:+ .scope o k :: K := List.suffix_cons _ _
        exact .inr (.after above (.step first above (.done _)) hangs)

end Code

end CardBridge
