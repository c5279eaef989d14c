import CardBridge.Proofs.Effects
import CardBridge.Proofs.ScriptSteps
import CardBridge.Session.Machine

/-!
# Runs

A `Machine.Move` is one step of a machine under some host. From one step to the next the host may
be another one, so what a function of the host does may depend on whatever the host remembers :
`Machine.move_iff` says that the host code which a call of a function stands for is free.

A `Machine.Run` is a sequence of moves that leaves alone a part `K` of the stack, with the changes
that host code makes in it. `Code.Returns` is such a run from the begin of some host code to its
end, in which scripts and functions of the host may have called each other to any depth. The lemmas
`returns_…` take it apart along the code.
-/

namespace CardBridge

open Script (Memory Completion)

namespace Machine

/-! ## Moves -/

/-- One step of a machine. What the call of a function of the host stands for is free. -/
inductive Move : Machine → Machine → Prop
  | leave {s o k r K} : Move ⟨s, .host (.finish r), .scope o k :: K⟩ ⟨o.leave s r, .host (k r), K⟩
  | back {s r stack base K} :
    Move ⟨s, .host (.finish r), .native stack base :: K⟩ ⟨s, .script (resumption r) stack base, K⟩
  | read {s k K} : Move ⟨s, .host (.read k), K⟩ ⟨s, .host (k s), K⟩
  | write {s u c K} : Move ⟨s, .host (.write u c), K⟩ ⟨u.apply s, .host c, K⟩
  | run {s task k K} :
    Move ⟨s, .host (.run task k), K⟩ ⟨s, .script (taskControl task) [] (baseOf K), .script k :: K⟩
  | trace {s k K} :
    Move ⟨s, .host (.trace k), K⟩ ⟨s, .host (k (traceLines (activationsOf K))), K⟩
  | enter {s scope body refused k K o s'} (h : scope.enter s = .ok (o, s')) :
    Move ⟨s, .host (.scope scope body refused k), K⟩ ⟨s', .host body, .scope o k :: K⟩
  | refuse {s scope body refused k K f} (h : scope.enter s = .error f) :
    Move ⟨s, .host (.scope scope body refused k), K⟩ ⟨s, .host (refused f), K⟩
  | script {s control stack base K t}
    (h : Script.State.step ⟨s.env.memory, control, stack, base⟩ = .next t) :
    Move ⟨s, .script control stack base, K⟩
      ⟨s.setMemory t.memory, .script t.control t.stack t.base, K⟩
  | call {s control stack base K n args t}
    (h : Script.State.step ⟨s.env.memory, control, stack, base⟩ = .native n args t) (c : Code) :
    Move ⟨s, .script control stack base, K⟩
      ⟨s.setMemory t.memory, .host c, .native t.stack t.base :: K⟩
  | settle {s control stack base k K c m}
    (h : Script.State.step ⟨s.env.memory, control, stack, base⟩ = .settled c m) :
    Move ⟨s, .script control stack base, .script k :: K⟩ ⟨s.setMemory m, .host (k c), K⟩

theorem move_of_stepHost {s : State} {c : Code} {K : List Frame} {m : Machine}
    (h : stepHost s c K = .next m) : Move ⟨s, .host c, K⟩ m := by
  cases c with
  | finish r =>
    cases K with
    | nil => cases h
    | cons F K =>
      cases F with
      | scope o k =>
        cases h
        exact .leave
      | script k => cases h
      | native stack base =>
        cases h
        exact .back
  | read k =>
    cases h
    exact .read
  | write u c =>
    cases h
    exact .write
  | run task k =>
    cases h
    exact .run
  | trace k =>
    cases h
    exact .trace
  | scope scope body refused k =>
    unfold stepHost at h
    dsimp only at h
    split at h
    case h_1 o s' he =>
      cases h
      exact .enter he
    case h_2 f he =>
      cases h
      exact .refuse he

theorem move_of_stepScript {host : Host} {s : State} {control : Script.Control}
    {stack : List Script.Frame} {base : Script.Base} {K : List Frame} {m : Machine}
    (h : stepScript host (s.setMemory .nothing) ⟨s.env.memory, control, stack, base⟩ K = .next m) :
    Move ⟨s, .script control stack base, K⟩ m := by
  unfold stepScript at h
  split at h
  case h_1 t ht =>
    cases h
    exact .script ht
  case h_2 n args t ht =>
    cases h
    exact .call ht _
  case h_3 c mem hc =>
    split at h
    case h_1 k K =>
      cases h
      exact .settle hc
    case h_2 => cases h
  case h_4 => cases h

/-- A step under a host is a move. -/
theorem move_of_step {host : Host} {m m' : Machine} (h : m.step host = .next m') : Move m m' := by
  obtain ⟨s, activity, K⟩ := m
  cases activity with
  | host c => exact move_of_stepHost h
  | script control stack base => exact move_of_stepScript h

/-- A move is a step under some host. -/
theorem move_iff {m m' : Machine} : Move m m' ↔ ∃ host, m.step host = .next m' := by
  refine ⟨fun h => ?_, fun ⟨_, h⟩ => move_of_step h⟩
  let idle : Host := fun _ _ => .done
  cases h with
  | enter h | refuse h => exact ⟨idle, by simp [step, stepHost, h]⟩
  | script h | settle h => exact ⟨idle, by simp [step, stepScript, h]; rfl⟩
  | call h c => exact ⟨fun _ _ => c, by simp [step, stepScript, h]; rfl⟩
  | leave | back | read | write | run | trace => exact ⟨idle, rfl⟩

/-! ## What a move does -/

/-- The scopes that are open, innermost first. -/
def opens : List Frame → List Open
  | [] => []
  | .scope o _ :: rest => o :: opens rest
  | _ :: rest => opens rest

/-- The change that host code is about to make. -/
def writes : Machine → List Update
  | ⟨_, .host (.write u _), _⟩ => [u]
  | _ => []

theorem edits_of_step {t : Script.State} {o : Script.Outcome} (h : t.step = o) :
    o.Edits t.memory :=
  h ▸ t.step_edits

theorem Move.effect {m m' : Machine} (h : Move m m') :
    Effect m.state (opens m.stack) m.writes m'.state (opens m'.stack) := by
  cases h with
  | leave => exact .leave _ _
  | write => exact .write _
  | enter h => exact .enter _ h
  | script h | settle h | call h => exact .script (edits_of_step h)
  | back | read | run | trace | refuse => exact .quiet

/-- A move puts one frame on the stack at most, or takes one away. -/
theorem Move.stack {m m' : Machine} (h : Move m m') :
    m'.stack = m.stack ∨ (∃ F, m'.stack = F :: m.stack) ∨ ∃ F, m.stack = F :: m'.stack := by
  cases h with
  | leave | back | settle => exact .inr (.inr ⟨_, rfl⟩)
  | run | enter | call => exact .inr (.inl ⟨_, rfl⟩)
  | read | write | trace | refuse | script => exact .inl rfl

/-! ## Runs -/

/-- A run that leaves the part `K` of the stack alone, with the changes of host code in it. -/
inductive Run (K : List Frame) : Machine → List Update → Machine → Prop
  | done (m : Machine) : Run K m [] m
  | move {m m' m'' : Machine} {us : List Update} (h : Move m m') (hK : K <:+ m'.stack)
    (run : Run K m' us m'') : Run K m (m.writes ++ us) m''

variable {K : List Frame} {m m' m'' : Machine} {us us' : List Update}

theorem Run.trans (h : Run K m us m') (h' : Run K m' us' m'') : Run K m (us ++ us') m'' := by
  induction h with
  | done => exact h'
  | move h hK _ ih =>
    rw [List.append_assoc]
    exact .move h hK (ih h')

/-- One move more. -/
theorem Run.snoc (h : Run K m us m') (move : Move m' m'') (hK : K <:+ m''.stack) :
    Run K m (us ++ m'.writes) m'' := by
  have last := Run.move move hK (.done m'')
  rw [List.append_nil] at last
  exact h.trans last

/-- A run is taken apart from its end. -/
theorem Run.snoc_induction {P : List Update → Machine → Prop} (h : Run K m us m')
    (begins : P [] m)
    (step : ∀ {us₁ m₁ m₂}, Run K m us₁ m₁ → P us₁ m₁ → Move m₁ m₂ → K <:+ m₂.stack →
      P (us₁ ++ m₁.writes) m₂) : P us m' := by
  suffices later : ∀ {us₁ m₁ us₂}, Run K m us₁ m₁ → P us₁ m₁ → Run K m₁ us₂ m' →
      P (us₁ ++ us₂) m' from later (.done m) begins h
  clear h
  intro us₁ m₁ us₂ first before rest
  induction rest generalizing us₁ with
  | done => rwa [List.append_nil]
  | move move hK _ ih =>
    rw [← List.append_assoc]
    exact ih (first.snoc move hK) (step first before move hK)

/-- A run may be looked at as one that leaves less of the stack alone. -/
theorem Run.mono {K' : List Frame} (h : Run K m us m') (hK' : K' <:+ K) : Run K' m us m' := by
  induction h with
  | done => exact .done _
  | move h hK _ ih => exact .move h (hK'.trans hK) ih

theorem opens_suffix {K K' : List Frame} (h : K <:+ K') : opens K <:+ opens K' := by
  obtain ⟨L, rfl⟩ := h
  induction L with
  | nil => exact List.suffix_rfl
  | cons F L ih =>
    cases F with
    | scope o k => exact ih.trans (List.suffix_cons _ _)
    | script | native => exact ih

theorem opens_append (L K : List Frame) : opens (L ++ K) = opens L ++ opens K := by
  induction L with
  | nil => rfl
  | cons F L ih =>
    cases F with
    | scope o k => exact congrArg (o :: ·) ih
    | script | native => exact ih

/-- What holds at the begin of a run and is kept by every effect above `K` holds at its end. -/
theorem Run.invariant {P : State → List Open → Prop} (h : Run K m us m')
    (step : ∀ {s os ws s' os'}, P s os → Effect s os ws s' os' → opens K <:+ os' → ws ⊆ us →
      P s' os')
    (begins : P m.state (opens m.stack)) : P m'.state (opens m'.stack) := by
  induction h with
  | done => exact begins
  | move h hK _ ih =>
    refine ih (fun hs e above sub => step hs e above (List.subset_append_of_subset_right _ sub)) ?_
    exact step begins h.effect (opens_suffix hK) (List.subset_append_left _ _)

/-- A foreign environment stays one. -/
theorem Run.foreign (h : Run K m us m') (hb : m.state.env.bridge = none) :
    m'.state.env.bridge = none :=
  h.invariant (P := fun s _ => s.env.bridge = none) (fun hs e _ _ => e.foreign hs) hb

/-- A machine ends where host code ends with nothing waiting for it. -/
theorem eq_of_ended {host : Host} {m : Machine} {r : Reply} {s : State}
    (h : m.step host = .ended r s) : m = ⟨s, .host (.finish r), []⟩ := by
  obtain ⟨s, activity, K⟩ := m
  cases activity with
  | host c =>
    cases c with
    | finish r =>
      cases K with
      | nil =>
        cases h
        rfl
      | cons F K => cases F <;> cases h
    | scope scope body refused k =>
      simp only [step, stepHost] at h
      split at h <;> cases h
    | read | write | run | trace => cases h
  | script control stack base =>
    simp only [step, stepScript] at h
    split at h
    case h_3 => split at h <;> cases h
    all_goals cases h

/-- The changes of host code in the steps under a host. -/
def written (host : Host) : Nat → Machine → List Update
  | 0, _ => []
  | fuel + 1, m =>
    match m.step host with
    | .next m' => m.writes ++ written host fuel m'
    | _ => []

/-- What is so at the end of steps under a host, and before each step if it is after it, is so where
they begin. -/
theorem ended_induction {host : Host} {r : Reply} {s : State} {P : List Update → Machine → Prop}
    (done : P [] ⟨s, .host (.finish r), []⟩)
    (next : ∀ us m m', m.step host = .next m' → P us m' → P (m.writes ++ us) m) :
    ∀ (fuel : Nat) (m : Machine), m.run host fuel = .ended r s → P (written host fuel m) m
  | 0, m, h => by cases h
  | fuel + 1, m, h => by
    cases hm : m.step host with
    | next m' =>
      simp only [run, hm] at h
      simp only [written, hm]
      exact next _ m m' hm (ended_induction done next fuel m' h)
    | ended r' s' =>
      simp only [run, hm] at h
      cases h
      simp only [written, hm]
      rw [eq_of_ended hm]
      exact done
    | stuck s' =>
      simp only [run, hm] at h
      cases h

theorem run_of_ended {host : Host} {r : Reply} {s : State} :
    ∀ (fuel : Nat) (m : Machine), m.run host fuel = .ended r s →
      Run [] m (written host fuel m) ⟨s, .host (.finish r), []⟩ :=
  ended_induction (P := fun us m => Run [] m us ⟨s, .host (.finish r), []⟩) (.done _)
    fun _ _ _ step rest => .move (move_of_step step) List.nil_suffix rest

/-- Steps under a host that have not come to an end are a run. -/
theorem run_of_next {host : Host} {m' : Machine} :
    ∀ (fuel : Nat) (m : Machine), m.run host fuel = .next m' →
      Run [] m (written host fuel m) m'
  | 0, m, h => by
    cases h
    exact .done _
  | fuel + 1, m, h => by
    cases hm : m.step host with
    | next m₁ =>
      simp only [run, hm] at h
      simp only [written, hm]
      exact .move (move_of_step hm) List.nil_suffix (run_of_next fuel m₁ h)
    | ended r s | stuck s =>
      simp only [run, hm] at h
      cases h

/-- A move that takes `F` away, with nothing on it, leaves what is below it. -/
theorem Move.pop {F : Frame} (h : Move m m') (hm : F :: K <:+ m.stack)
    (hm' : ¬ F :: K <:+ m'.stack) : m.stack = F :: K ∧ m'.stack = K := by
  rcases h.stack with same | ⟨G, push⟩ | ⟨G, pop⟩
  · rw [same] at hm'
    exact absurd hm hm'
  · rw [push] at hm'
    exact absurd (hm.trans (List.suffix_cons _ _)) hm'
  · rw [pop, List.suffix_cons_iff] at hm
    rcases hm with eq | below
    · rw [pop, ← eq]
      exact ⟨rfl, ((List.cons.inj eq).2).symm⟩
    · exact absurd below hm'

/-- A scope ends with the host code in it. -/
theorem Move.pop_scope {o : Open} {k : Reply → Code} (h : Move m m')
    (hm : m.stack = .scope o k :: K) (hm' : m'.stack = K) :
    ∃ s r, m = ⟨s, .host (.finish r), .scope o k :: K⟩ ∧ m' = ⟨o.leave s r, .host (k r), K⟩ := by
  have longer : m.stack.length = m'.stack.length + 1 := by rw [hm, hm', List.length_cons]
  cases h with
  | leave =>
    cases hm
    exact ⟨_, _, rfl, rfl⟩
  | back | settle => cases hm
  | read | write | run | trace | enter | refuse | script | call =>
    simp only [List.length_cons] at longer
    omega

/-- Host code that waits for a script goes on where the script has settled. -/
theorem Move.settles {k : Completion → Code} (h : Move m m') (hm : m.stack = .script k :: K)
    (hm' : m'.stack = K) : ∃ control stack base c memory,
      m.activity = .script control stack base ∧
      Script.State.step ⟨m.state.env.memory, control, stack, base⟩ = .settled c memory ∧
      m' = ⟨m.state.setMemory memory, .host (k c), K⟩ := by
  have longer : m.stack.length = m'.stack.length + 1 := by rw [hm, hm', List.length_cons]
  cases h with
  | settle settled =>
    cases hm
    exact ⟨_, _, _, _, _, rfl, settled, rfl⟩
  | leave | back => cases hm
  | read | write | run | trace | enter | refuse | script | call =>
    simp only [List.length_cons] at longer
    omega

theorem Move.pop_script {k : Completion → Code} (h : Move m m') (hm : m.stack = .script k :: K)
    (hm' : m'.stack = K) : ∃ s c, m.writes = [] ∧ m' = ⟨s, .host (k c), K⟩ := by
  obtain ⟨s, activity, K'⟩ := m
  obtain ⟨_, _, _, c, _, rfl, -, rfl⟩ := h.settles hm hm'
  exact ⟨_, c, rfl, rfl⟩

/-- Where a run goes below the frame `F`, it takes that frame away. -/
theorem Run.split {F : Frame} (h : Run K m us m') (hm : F :: K <:+ m.stack)
    (hm' : ¬ F :: K <:+ m'.stack) :
    ∃ us₁ m₁ m₂ us₂, Run (F :: K) m us₁ m₁ ∧ m₁.stack = F :: K ∧ Move m₁ m₂ ∧ m₂.stack = K ∧
      Run K m₂ us₂ m' ∧ us = us₁ ++ (m₁.writes ++ us₂) := by
  induction h with
  | done => exact absurd hm hm'
  | @move m₁ m₂ m' us h hK run ih =>
    by_cases stays : F :: K <:+ m₂.stack
    · obtain ⟨us₁, n₁, n₂, us₂, above, top, step, left, below, rfl⟩ := ih stays hm'
      refine ⟨_, n₁, n₂, us₂, .move h stays above, top, step, left, below, ?_⟩
      rw [List.append_assoc]
    · obtain ⟨top, left⟩ := h.pop hm stays
      exact ⟨[], m₁, m₂, us, .done _, top, h, left, run, rfl⟩

end Machine

/-! ## Host code from begin to end -/

namespace Code

open Machine

/-- Host code that begins in `s` on top of `K` comes to `r` in `s'`, after the changes `us` of it
and of whatever it has led to. -/
def Returns (K : List Frame) (s : State) (c : Code) (us : List Update) (r : Reply) (s' : State) :
    Prop :=
  Run K ⟨s, .host c, K⟩ us ⟨s', .host (.finish r), K⟩

variable {K : List Frame} {s s' : State} {us : List Update} {r r' : Reply}

theorem not_cons_suffix {F : Frame} : ¬ F :: K <:+ K :=
  fun h => absurd h.length_le (by simp)

theorem returns_finish (h : Returns K s (.finish r') us r s') : us = [] ∧ r = r' ∧ s' = s := by
  cases h with
  | done => exact ⟨rfl, rfl, rfl⟩
  | move h hK run =>
    cases h with
    | leave | back => exact absurd hK not_cons_suffix

theorem returns_read {k : State → Code} (h : Returns K s (.read k) us r s') :
    Returns K s (k s) us r s' := by
  cases h with
  | move h hK run =>
    cases h
    exact run

theorem returns_write {u : Update} {c : Code} (h : Returns K s (.write u c) us r s') :
    ∃ us', us = u :: us' ∧ Returns K (u.apply s) c us' r s' := by
  cases h with
  | move h hK run =>
    cases h
    exact ⟨_, rfl, run⟩

theorem returns_trace {k : List TraceLine → Code} (h : Returns K s (.trace k) us r s') :
    ∃ ls, Returns K s (k ls) us r s' := by
  cases h with
  | move h hK run =>
    cases h
    exact ⟨_, run⟩

/-- A script that host code runs, with all that it calls, is a run to where the code goes on. -/
theorem returns_run {task : Task} {k : Completion → Code} (h : Returns K s (.run task k) us r s') :
    ∃ us₁ c s₁ us₂, Run K ⟨s, .host (.run task k), K⟩ us₁ ⟨s₁, .host (k c), K⟩ ∧
      Returns K s₁ (k c) us₂ r s' ∧ us = us₁ ++ us₂ := by
  cases h with
  | move h hK run =>
    have first := h
    cases h
    obtain ⟨us₁, m₁, m₂, us₂, above, top, step, left, below, rfl⟩ :=
      run.split List.suffix_rfl not_cons_suffix
    have to_end : Run K m₁ (m₁.writes ++ []) m₂ :=
      .move step (left ▸ List.suffix_rfl) (.done _)
    obtain ⟨s₁, c, silent, rfl⟩ := step.pop_script top left
    refine ⟨_, c, s₁, us₂, .trans (.move first hK (above.mono (List.suffix_cons _ _))) to_end,
      below, ?_⟩
    simp [silent]

/-- Host code in a scope is refused, or comes to an end with which the scope ends. -/
theorem returns_scope {scope : Scope} {body : Code} {refused : Failure → Code} {k : Reply → Code}
    (h : Returns K s (.scope scope body refused k) us r s') :
    (∃ f, scope.enter s = .error f ∧ Returns K s (refused f) us r s') ∨
      ∃ o s₁ us₁ r₁ s₂ us₂, scope.enter s = .ok (o, s₁) ∧
        Returns (.scope o k :: K) s₁ body us₁ r₁ s₂ ∧
        Returns K (o.leave s₂ r₁) (k r₁) us₂ r s' ∧ us = us₁ ++ us₂ := by
  cases h with
  | move h hK run =>
    cases h with
    | refuse h => exact .inl ⟨_, h, run⟩
    | enter h =>
      obtain ⟨us₁, m₁, m₂, us₂, above, top, step, left, below, rfl⟩ :=
        run.split List.suffix_rfl not_cons_suffix
      obtain ⟨s₂, r₁, rfl, rfl⟩ := step.pop_scope top left
      exact .inr ⟨_, _, us₁, r₁, s₂, us₂, h, above, below, rfl⟩

/-- Where code goes on after other code, a run of both comes to where the second begins, and ends
with a run of that. -/
theorem run_andThen {c : Code} {next : Reply → Code} (h : Returns K s (c.andThen next) us r s') :
    ∃ s₁ r₁ us₁ us₂, Run K ⟨s, .host (c.andThen next), K⟩ us₁ ⟨s₁, .host (next r₁), K⟩ ∧
      Returns K s₁ (next r₁) us₂ r s' ∧ us = us₁ ++ us₂ := by
  induction c generalizing s us with
  | finish r₁ => exact ⟨s, r₁, [], us, .done _, h, rfl⟩
  | read k ih =>
    obtain ⟨s₁, r₁, us₁, us₂, first, second, rfl⟩ := ih s (returns_read h)
    exact ⟨s₁, r₁, us₁, us₂, .move .read List.suffix_rfl first, second, rfl⟩
  | write u c ih =>
    obtain ⟨us', rfl, rest⟩ := returns_write h
    obtain ⟨s₁, r₁, us₁, us₂, first, second, rfl⟩ := ih rest
    exact ⟨s₁, r₁, u :: us₁, us₂, .move .write List.suffix_rfl first, second, rfl⟩
  | run task k ih =>
    obtain ⟨us₀, c, s₀, us₁, before, rest, rfl⟩ := returns_run h
    obtain ⟨s₁, r₁, us₁, us₂, first, second, rfl⟩ := ih c rest
    exact ⟨s₁, r₁, us₀ ++ us₁, us₂, before.trans first, second, (List.append_assoc _ _ _).symm⟩
  | trace k ih =>
    cases h with
    | move move hK rest =>
      cases move
      obtain ⟨s₁, r₁, us₁, us₂, first, second, rfl⟩ := ih _ rest
      exact ⟨s₁, r₁, us₁, us₂, .move .trace List.suffix_rfl first, second, rfl⟩
  | scope scope body refused k _ ihr ihk =>
    obtain ⟨f, refuses, rest⟩ | ⟨o, s₂, us₀, r₀, s₃, us₁, enters, inside, rest, rfl⟩ :=
      returns_scope h
    · obtain ⟨s₁, r₁, us₁, us₂, first, second, rfl⟩ := ihr f rest
      exact ⟨s₁, r₁, us₁, us₂, .move (.refuse refuses) List.suffix_rfl first, second, rfl⟩
    · obtain ⟨s₁, r₁, us₁, us₂, first, second, rfl⟩ := ihk r₀ rest
      have leaves : Run K ⟨s₃, .host (.finish r₀), .scope o (fun r => (k r).andThen next) :: K⟩ us₁
          ⟨s₁, .host (next r₁), K⟩ := .move .leave List.suffix_rfl first
      exact ⟨s₁, r₁, us₀ ++ us₁, us₂, .move (.enter enters) (List.suffix_cons _ _)
        ((Run.mono inside (List.suffix_cons _ _)).trans leaves), second,
        (List.append_assoc _ _ _).symm⟩

/-- Where code goes on after other code, a run of both ends with a run of the second. -/
theorem returns_andThen {c : Code} {next : Reply → Code}
    (h : Returns K s (c.andThen next) us r s') :
    ∃ s₁ r₁ us₁ us₂, Returns K s₁ (next r₁) us₂ r s' ∧ us = us₁ ++ us₂ := by
  obtain ⟨s₁, r₁, us₁, us₂, -, second, eq⟩ := run_andThen h
  exact ⟨s₁, r₁, us₁, us₂, second, eq⟩

/-! ### Runs put together -/

theorem Returns.finish : Returns K s (.finish r) [] r s :=
  .done _

theorem Returns.read {k : State → Code} (h : Returns K s (k s) us r s') :
    Returns K s (.read k) us r s' :=
  .move .read List.suffix_rfl h

theorem Returns.write {u : Update} {c : Code} (h : Returns K (u.apply s) c us r s') :
    Returns K s (.write u c) (u :: us) r s' :=
  .move .write List.suffix_rfl h

theorem Returns.trace {k : List TraceLine → Code}
    (h : Returns K s (k (traceLines (activationsOf K))) us r s') :
    Returns K s (.trace k) us r s' :=
  .move .trace List.suffix_rfl h

theorem Returns.refused {scope : Scope} {body : Code} {refused : Failure → Code} {k : Reply → Code}
    {f : Failure} (refuses : scope.enter s = .error f) (h : Returns K s (refused f) us r s') :
    Returns K s (.scope scope body refused k) us r s' :=
  .move (.refuse refuses) List.suffix_rfl h

theorem Returns.scope {scope : Scope} {body : Code} {refused : Failure → Code} {k : Reply → Code}
    {o : Open} {s₁ s₂ : State} {us₁ us₂ : List Update} {r₁ : Reply}
    (enters : scope.enter s = .ok (o, s₁)) (h : Returns (.scope o k :: K) s₁ body us₁ r₁ s₂)
    (h' : Returns K (o.leave s₂ r₁) (k r₁) us₂ r s') :
    Returns K s (.scope scope body refused k) (us₁ ++ us₂) r s' := by
  have leaves : Run K ⟨s₂, .host (.finish r₁), .scope o k :: K⟩ us₂ ⟨s', .host (.finish r), K⟩ :=
    .move .leave List.suffix_rfl h'
  exact .move (.enter enters) (List.suffix_cons _ _)
    ((Run.mono h (List.suffix_cons _ _)).trans leaves)

end Code

end CardBridge
