import CardBridge.Proofs.Runs

/-!
# Runs under a host

A `Machine.Run` leaves open what the functions of the host do, so it says what can happen. Under a
host a machine has one step at most, and `Machine.Steps` are its steps that leave alone a part of
the stack. `Code.Gives` is such a run of host code to its end. It is a `Code.Returns`
(`Code.Gives.returns`), the state and the reply in which it ends are unique (`Code.Gives.unique`),
and it is put together along the code.
-/

namespace CardBridge

namespace Machine

variable {host : Host} {K : List Frame} {m m' m'' : Machine}

/-- Steps under a host that leave the part `K` of the stack alone. -/
inductive Steps (host : Host) (K : List Frame) : Machine → Machine → Prop
  | done (m : Machine) : Steps host K m m
  | step {m m' m'' : Machine} (h : m.step host = .next m') (hK : K <:+ m'.stack)
    (rest : Steps host K m' m'') : Steps host K m m''

theorem Steps.trans (h : Steps host K m m') (h' : Steps host K m' m'') : Steps host K m m'' := by
  induction h with
  | done => exact h'
  | step h hK _ ih => exact .step h hK (ih h')

/-- Steps may be looked at as ones that leave less of the stack alone. -/
theorem Steps.mono {K' : List Frame} (h : Steps host K m m') (hK' : K' <:+ K) :
    Steps host K' m m' := by
  induction h with
  | done => exact .done _
  | step h hK _ ih => exact .step h (hK'.trans hK) ih

/-- Host code that has ended has no step above what waits for it. -/
theorem not_step_of_finish {s : State} {r : Reply}
    (h : step host ⟨s, .host (.finish r), K⟩ = .next m) (hK : K <:+ m.stack) : False := by
  cases K with
  | nil => cases h
  | cons F K =>
    cases F with
    | scope o k =>
      cases h
      exact Code.not_cons_suffix hK
    | native stack base =>
      cases h
      exact Code.not_cons_suffix hK
    | script k => cases h

/-- Steps come to an end exactly if what they have come to does. -/
theorem Steps.ends_iff (h : Steps host K m m') {s : State} {r : Reply} :
    Steps host K m ⟨s, .host (.finish r), K⟩ ↔ Steps host K m' ⟨s, .host (.finish r), K⟩ := by
  refine ⟨fun ends => ?_, h.trans⟩
  induction h with
  | done => exact ends
  | step h hK _ ih =>
    cases ends with
    | done => exact (not_step_of_finish h hK).elim
    | step h₁ _ rest =>
      cases h.symm.trans h₁
      exact ih rest

theorem Steps.run (h : Steps host K m m') : ∃ us, Run K m us m' := by
  induction h with
  | done => exact ⟨[], .done _⟩
  | step h hK _ ih =>
    obtain ⟨us, run⟩ := ih
    exact ⟨_, .move (move_of_step h) hK run⟩

theorem Steps.unique {s s' : State} {r r' : Reply} (h : Steps host K m ⟨s, .host (.finish r), K⟩)
    (h' : Steps host K m ⟨s', .host (.finish r'), K⟩) : s = s' ∧ r = r' := by
  generalize he : (⟨s, .host (.finish r), K⟩ : Machine) = e at h
  induction h with
  | done m =>
    subst he
    cases h' with
    | done => exact ⟨rfl, rfl⟩
    | step h hK => exact (not_step_of_finish h hK).elim
  | step h hK rest ih =>
    subst he
    cases h' with
    | done => exact (not_step_of_finish h hK).elim
    | step h₂ hK₂ rest₂ =>
      cases h.symm.trans h₂
      exact ih rest₂ rfl

/-- A step of a script. -/
theorem Steps.script {s : State} {control : Script.Control} {stack : List Script.Frame}
    {base : Script.Base} {F : List Frame} {t : Script.State}
    (h : Script.State.step ⟨s.env.memory, control, stack, base⟩ = .next t) (hK : K <:+ F)
    (rest : Steps host K ⟨s.setMemory t.memory, .script t.control t.stack t.base, F⟩ m) :
    Steps host K ⟨s, .script control stack base, F⟩ m := by
  refine .step ?_ hK rest
  simp [Machine.step, stepScript, h, State.setMemory]

/-- The end of a script. -/
theorem Steps.settle {s : State} {control : Script.Control} {stack : List Script.Frame}
    {base : Script.Base} {F : List Frame} {k : Script.Completion → Code} {c : Script.Completion}
    {memory : Script.Memory}
    (h : Script.State.step ⟨s.env.memory, control, stack, base⟩ = .settled c memory) (hK : K <:+ F)
    (rest : Steps host K ⟨s.setMemory memory, .host (k c), F⟩ m) :
    Steps host K ⟨s, .script control stack base, .script k :: F⟩ m := by
  refine .step ?_ hK rest
  simp [Machine.step, stepScript, h, State.setMemory]

/-- Steps that come to an end. -/
theorem steps_of_ended {r : Reply} {s : State} :
    ∀ (fuel : Nat) (m : Machine), m.run host fuel = .ended r s →
      Steps host [] m ⟨s, .host (.finish r), []⟩ :=
  ended_induction (P := fun _ m => Steps host [] m ⟨s, .host (.finish r), []⟩) (.done _)
    fun _ _ _ step rest => .step step List.nil_suffix rest

end Machine

namespace Code

open Machine

variable {host : Host} {K : List Frame} {s s' : State} {r : Reply}

/-- Under a host, code that begins in `s` on top of `K` comes to `r` in `s'`. -/
def Gives (host : Host) (K : List Frame) (s : State) (c : Code) (r : Reply) (s' : State) : Prop :=
  Steps host K ⟨s, .host c, K⟩ ⟨s', .host (.finish r), K⟩

theorem Gives.returns {c : Code} (h : Gives host K s c r s') : ∃ us, Returns K s c us r s' :=
  Steps.run h

theorem Gives.unique {c : Code} {r₁ : Reply} {s₁ : State} (h : Gives host K s c r s')
    (h' : Gives host K s c r₁ s₁) : s' = s₁ ∧ r = r₁ :=
  Steps.unique h h'

/-- Whether code has come to an end that is as `good` says. -/
def endsAs (good : Reply → State → Bool) : Progress → Bool
  | .ended r s => good r s
  | _ => false

/-- What code gives can be computed. -/
theorem exists_gives {c : Code} {good : Reply → State → Bool} {fuel : Nat}
    (h : endsAs good (Machine.run host fuel (.start s c)) = true) :
    ∃ r s', Gives host [] s c r s' ∧ good r s' = true := by
  unfold endsAs at h
  split at h
  case h_1 r s' ended => exact ⟨r, s', steps_of_ended fuel _ ended, h⟩
  case h_2 => cases h

theorem Gives.finish : Gives host K s (.finish r) r s :=
  .done _

theorem Gives.read {k : State → Code} (h : Gives host K s (k s) r s') :
    Gives host K s (.read k) r s' :=
  .step rfl List.suffix_rfl h

theorem Gives.write {u : Update} {c : Code} (h : Gives host K (u.apply s) c r s') :
    Gives host K s (.write u c) r s' :=
  .step rfl List.suffix_rfl h

theorem Gives.refused {scope : Scope} {body : Code} {refused : Failure → Code} {k : Reply → Code}
    {f : Failure} (refuses : scope.enter s = .error f) (h : Gives host K s (refused f) r s') :
    Gives host K s (.scope scope body refused k) r s' := by
  refine .step ?_ List.suffix_rfl h
  simp [Machine.step, stepHost, refuses]

theorem Gives.scope {scope : Scope} {body : Code} {refused : Failure → Code} {k : Reply → Code}
    {o : Open} {s₁ s₂ : State} {r₁ : Reply} (enters : scope.enter s = .ok (o, s₁))
    (h : Gives host (.scope o k :: K) s₁ body r₁ s₂)
    (h' : Gives host K (o.leave s₂ r₁) (k r₁) r s') :
    Gives host K s (.scope scope body refused k) r s' := by
  have leaves : Steps host K ⟨s₂, .host (.finish r₁), .scope o k :: K⟩
      ⟨s', .host (.finish r), K⟩ := .step rfl List.suffix_rfl h'
  refine .step ?_ (List.suffix_cons (.scope o k) K)
    ((Steps.mono h (List.suffix_cons _ _)).trans leaves)
  simp [Machine.step, stepHost, enters]

end Code

end CardBridge
