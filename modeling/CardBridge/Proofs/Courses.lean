import CardBridge.Proofs.Errands

/-!
# Courses

A `Machine.Course` is a run with the moments that it passes. What host code does itself in it is
told from what functions of the host do that its scripts call : these are above a frame of the
script that has called them (`Machine.own`).

`Code.Goes` is the course of some code from its begin to its end. The lemmas `goes_…` take it apart
along the code, and `Code.Goes.path` says that what the code changes itself is a path through it. A
script that it runs changes nothing that is its own (`Machine.Settles.own`), and what it calls is
not suspended (`Machine.Settles.not_yielded`).
-/

namespace CardBridge

open Script (Value Completion)

namespace Machine

/-! ## Moments of a run -/

/-- A run that leaves the part `K` of the stack alone, with the moments in it but the last one. -/
inductive Course (K : List Frame) : Machine → List Machine → Machine → Prop
  | done (m : Machine) : Course K m [] m
  | move {m m' m'' : Machine} {ms : List Machine} (h : Move m m') (hK : K <:+ m'.stack)
    (course : Course K m' ms m'') : Course K m (m :: ms) m''

variable {K : List Frame} {m m' m'' : Machine} {ms ms' : List Machine}

theorem Course.run (h : Course K m ms m') : Run K m (ms.flatMap writes) m' := by
  induction h with
  | done => exact .done _
  | move h hK _ ih => exact .move h hK ih

/-- A run passes some moments. -/
theorem Run.course {us : List Update} (h : Run K m us m') :
    ∃ ms, Course K m ms m' ∧ us = ms.flatMap writes := by
  induction h with
  | done => exact ⟨[], .done _, rfl⟩
  | move h hK _ ih =>
    obtain ⟨ms, course, rfl⟩ := ih
    exact ⟨_, .move h hK course, rfl⟩

theorem Course.trans (h : Course K m ms m') (h' : Course K m' ms' m'') :
    Course K m (ms ++ ms') m'' := by
  induction h with
  | done => exact h'
  | move h hK _ ih => exact .move h hK (ih h')

/-- A course may be looked at as one that leaves less of the stack alone. -/
theorem Course.mono {K' : List Frame} (h : Course K m ms m') (hK' : K' <:+ K) :
    Course K' m ms m' := by
  induction h with
  | done => exact .done _
  | move h hK _ ih => exact .move h (hK'.trans hK) ih

/-- Where a course goes below the frame `F`, it takes that frame away. -/
theorem Course.split {F : Frame} (h : Course K m ms m') (hm : F :: K <:+ m.stack)
    (hm' : ¬ F :: K <:+ m'.stack) :
    ∃ ms₁ m₁ m₂ ms₂, Course (F :: K) m ms₁ m₁ ∧ m₁.stack = F :: K ∧ Move m₁ m₂ ∧ m₂.stack = K ∧
      Course K m₂ ms₂ m' ∧ ms = ms₁ ++ m₁ :: ms₂ := by
  induction h with
  | done => exact absurd hm hm'
  | @move m₁ m₂ m' ms h hK course ih =>
    by_cases stays : F :: K <:+ m₂.stack
    · obtain ⟨ms₁, n₁, n₂, ms₂, above, top, step, left, below, rfl⟩ := ih stays hm'
      exact ⟨_, n₁, n₂, ms₂, .move h stays above, top, step, left, below, rfl⟩
    · obtain ⟨top, left⟩ := h.pop hm stays
      exact ⟨[], m₁, m₂, ms, .done _, top, h, left, course, rfl⟩

/-- What holds at the begin of a course and is kept by each of its moves holds at its end. -/
theorem Course.invariant {P : Machine → Prop} (h : Course K m ms m') (begins : P m)
    (step : ∀ m₁ ∈ ms, ∀ m₂, P m₁ → Move m₁ m₂ → K <:+ m₂.stack → P m₂) :
    P m' ∧ ∀ m₁ ∈ ms, P m₁ := by
  induction h with
  | done => exact ⟨begins, fun _ mem => (List.not_mem_nil mem).elim⟩
  | @move m m₁ m' ms h hK _ ih =>
    obtain ⟨ends, passed⟩ := ih (step m List.mem_cons_self m₁ begins h hK)
      fun m₂ mem => step m₂ (List.mem_cons_of_mem _ mem)
    exact ⟨ends, List.forall_mem_cons.mpr ⟨begins, passed⟩⟩

/-! ## Changes of its own -/

/-- How many functions of the host that scripts have called are at work. -/
def natives : List Frame → Nat
  | [] => 0
  | .native _ _ :: K => natives K + 1
  | _ :: K => natives K

theorem natives_le_of_suffix {K K' : List Frame} (h : K <:+ K') : natives K ≤ natives K' := by
  obtain ⟨L, rfl⟩ := h
  induction L with
  | nil => exact Nat.le_refl _
  | cons F L ih =>
    cases F with
    | native stack base => exact Nat.le_succ_of_le ih
    | scope | script => exact ih

/-- What there is at those of some moments at which the host code at work above `K` is at work
itself, and no function of the host that a script of it calls. -/
def ofOwn {α : Type} (g : Machine → List α) (K : List Frame) (ms : List Machine) : List α :=
  ms.flatMap fun m => if natives m.stack = natives K then g m else []

section OfOwn

variable {α : Type} {g : Machine → List α}

theorem ofOwn_append (ms ms' : List Machine) :
    ofOwn g K (ms ++ ms') = ofOwn g K ms ++ ofOwn g K ms' :=
  List.flatMap_append

theorem ofOwn_top (h : m.stack = K) : ofOwn g K (m :: ms) = g m ++ ofOwn g K ms := by
  simp [ofOwn, h]

theorem ofOwn_of_nil (h : g m = []) : ofOwn g K (m :: ms) = ofOwn g K ms := by
  simp [ofOwn, h]

end OfOwn

/-- The changes at some moments that the host code at work above `K` makes itself, and no function
of the host that a script of it calls. -/
def own (K : List Frame) (ms : List Machine) : List Update :=
  ms.flatMap fun m => if natives m.stack = natives K then m.writes else []

@[simp] theorem own_append (ms ms' : List Machine) : own K (ms ++ ms') = own K ms ++ own K ms' :=
  ofOwn_append ms ms'

@[simp] theorem own_scope {o : Open} {k : Reply → Code} :
    own (.scope o k :: K) ms = own K ms :=
  rfl

theorem own_write {s : State} {u : Update} {c : Code} :
    own K (⟨s, .host (.write u c), K⟩ :: ms) = u :: own K ms :=
  ofOwn_top rfl

theorem own_of_writes_nil (h : m.writes = []) : own K (m :: ms) = own K ms :=
  ofOwn_of_nil h

/-- A script that host code above `K` has do something comes to `c`, by way of some moments, and the
host code goes on. -/
def Settles (K : List Frame) (s : State) (task : Task) (k : Completion → Code) (ms : List Machine)
    (c : Completion) (s' : State) : Prop :=
  ∃ ms₁ s₁ control stack base memory,
    Course (.script k :: K) ⟨s, .script (taskControl task) [] (baseOf K), .script k :: K⟩ ms₁
      ⟨s₁, .script control stack base, .script k :: K⟩ ∧
    ms = ms₁ ++ [⟨s₁, .script control stack base, .script k :: K⟩] ∧
    Script.State.step ⟨s₁.env.memory, control, stack, base⟩ = .settled c memory ∧
    s' = s₁.setMemory memory

/-- Host code goes on where the script has settled. -/
theorem Settles.course {s s' : State} {task : Task} {k : Completion → Code} {c : Completion}
    (h : Settles K s task k ms c s') (rest : Course K ⟨s', .host (k c), K⟩ ms' m) :
    Course K ⟨s, .host (.run task k), K⟩ (⟨s, .host (.run task k), K⟩ :: (ms ++ ms')) m := by
  obtain ⟨ms₁, s₁, control, stack, base, memory, course, rfl, settles, rfl⟩ := h
  rw [List.append_assoc]
  exact .move .run (List.suffix_cons _ _) ((course.mono (List.suffix_cons _ _)).trans
    (.move (.settle settles) List.suffix_rfl rest))

/-- A script is at work for the host code that waits directly below it, or it has called a function
of the host. Where it is so of `inner` it was not begun to resume a coroutine. -/
def ScriptAbove (inner : Prop) (k : Completion → Code) (K : List Frame) (m : Machine) : Prop :=
  (∃ control stack base, m.activity = .script control stack base ∧ m.stack = .script k :: K ∧
    (inner → Script.Grounded stack ∧ control.Fits stack)) ∨
  ∃ stack base, .native stack base :: .script k :: K <:+ m.stack ∧ (inner → Script.Grounded stack)

theorem resumption_fits (r : Reply) (stack : List Script.Frame) : (resumption r).Fits stack := by
  cases r <;> trivial

/-- It is so until the script comes to its end. -/
theorem ScriptAbove.move {inner : Prop} {k : Completion → Code} (h : ScriptAbove inner k K m)
    (move : Move m m') (above : .script k :: K <:+ m'.stack) : ScriptAbove inner k K m' := by
  obtain ⟨control, stack, base, active, top, fits⟩ | ⟨stack, base, on, grounded⟩ := h
  · obtain ⟨s, a, L⟩ := m
    obtain rfl : a = .script control stack base := active
    obtain rfl : L = .script k :: K := top
    have leads : Script.Outcome.Leads s.env.memory inner
        (Script.State.step ⟨s.env.memory, control, stack, base⟩) :=
      Script.State.step_leads ⟨.refl _, fun hi => (fits hi).1⟩ fun hi => (fits hi).2
    cases move with
    | script next =>
      rw [next] at leads
      exact .inl ⟨_, _, _, rfl, rfl, fun hi => ⟨leads.1.grounded hi, leads.2 hi⟩⟩
    | call next =>
      rw [next] at leads
      exact .inr ⟨_, _, List.suffix_rfl, leads.grounded⟩
    | settle => exact (Code.not_cons_suffix above).elim
  · by_cases stays : .native stack base :: .script k :: K <:+ m'.stack
    · exact .inr ⟨stack, base, stays, grounded⟩
    · obtain ⟨top, left⟩ := move.pop on stays
      obtain ⟨s, a, L⟩ := m
      obtain rfl : L = .native stack base :: .script k :: K := top
      cases move with
      | back => exact .inl ⟨_, _, _, rfl, rfl, fun hi => ⟨grounded hi, resumption_fits _ _⟩⟩
      | read | write | trace | refuse | run | enter | script | call =>
        have := congrArg List.length left
        simp only [List.length_cons] at this
        omega

/-- Where a script is above it, host code is not at work itself. -/
theorem ofOwn_of_scriptAbove {α : Type} {g : Machine → List α} {inner : Prop}
    {k : Completion → Code}
    (none : ∀ s control stack base L, g ⟨s, .script control stack base, L⟩ = [])
    (h : ∀ m ∈ ms, ScriptAbove inner k K m) : ofOwn g K ms = [] := by
  refine List.flatMap_eq_nil_iff.mpr fun m mem => ?_
  obtain ⟨control, stack, base, active, -⟩ | ⟨stack, base, on, -⟩ := h m mem
  · obtain ⟨s, a, L⟩ := m
    obtain rfl : a = .script control stack base := active
    rw [none]
    exact ite_self _
  · have more : natives K + 1 ≤ natives m.stack := natives_le_of_suffix on
    exact if_neg (by omega)

/-- A script that is begun for some task is above the host code that waits for it. -/
theorem scriptAbove_of_course {s : State} {task : Task} {k : Completion → Code}
    (h : Course (.script k :: K)
      ⟨s, .script (taskControl task) [] (baseOf K), .script k :: K⟩ ms m) :
    ScriptAbove ((taskControl task).Fits []) k K m ∧
      ∀ m ∈ ms, ScriptAbove ((taskControl task).Fits []) k K m :=
  h.invariant (.inl ⟨_, _, _, rfl, rfl, fun fits => ⟨Script.grounded_nil, fits⟩⟩)
    fun _ _ _ above => above.move

/-- While a script is at work for it, host code is not at work itself. -/
theorem Settles.ofOwn {α : Type} {g : Machine → List α} {s s' : State} {task : Task}
    {k : Completion → Code} {c : Completion} (h : Settles K s task k ms c s')
    (none : ∀ s control stack base L, g ⟨s, .script control stack base, L⟩ = []) :
    Machine.ofOwn g K ms = [] := by
  obtain ⟨ms₁, s₁, control, stack, base, memory, course, rfl, -, -⟩ := h
  rw [ofOwn_append, ofOwn_of_scriptAbove none (scriptAbove_of_course course).2,
    ofOwn_of_nil (none _ _ _ _ _)]
  rfl

/-- So it changes nothing. -/
theorem Settles.own {s s' : State} {task : Task} {k : Completion → Code} {c : Completion}
    (h : Settles K s task k ms c s') : Machine.own K ms = [] :=
  h.ofOwn fun _ _ _ _ _ => rfl

/-- What the host calls is not suspended : only a coroutine that it resumes can be. -/
theorem Settles.not_yielded {s s' : State} {task : Task} {k : Completion → Code} {c : Completion}
    (h : Settles K s task k ms c s') (fits : (taskControl task).Fits []) (vs : List Value) :
    c ≠ .yielded vs := by
  obtain ⟨ms₁, s₁, control, stack, base, memory, course, rfl, settles, -⟩ := h
  obtain ⟨control', stack', base', active, -, inner⟩ | ⟨stack', base', on, -⟩ :=
    (scriptAbove_of_course course).1
  · cases active
    have leads : Script.Outcome.Leads s₁.env.memory True
        (Script.State.step ⟨s₁.env.memory, control, stack, base⟩) :=
      Script.State.step_leads ⟨.refl _, fun _ => (inner fits).1⟩ fun _ => (inner fits).2
    rw [settles] at leads
    exact leads.2 trivial vs
  · exact (Code.not_cons_suffix on).elim

end Machine

/-! ## Host code from begin to end -/

namespace Code

open Machine

variable {K : List Frame} {s s' : State} {ms : List Machine} {r r' : Reply}

/-- Host code that begins in `s` on top of `K` comes to `r` in `s'`, by way of some moments. -/
def Goes (K : List Frame) (s : State) (c : Code) (ms : List Machine) (r : Reply) (s' : State) :
    Prop :=
  Course K ⟨s, .host c, K⟩ ms ⟨s', .host (.finish r), K⟩

theorem Goes.returns {c : Code} (h : Goes K s c ms r s') :
    Returns K s c (ms.flatMap writes) r s' :=
  Course.run h

theorem goes_finish (h : Goes K s (.finish r') ms r s') : ms = [] ∧ r = r' ∧ s' = s := by
  cases h with
  | done => exact ⟨rfl, rfl, rfl⟩
  | move h hK =>
    cases h with
    | leave | back => exact absurd hK not_cons_suffix

theorem goes_read {k : State → Code} (h : Goes K s (.read k) ms r s') :
    ∃ ms', ms = ⟨s, .host (.read k), K⟩ :: ms' ∧ Goes K s (k s) ms' r s' := by
  cases h with
  | move h hK course =>
    cases h
    exact ⟨_, rfl, course⟩

theorem goes_write {u : Update} {c : Code} (h : Goes K s (.write u c) ms r s') :
    ∃ ms', ms = ⟨s, .host (.write u c), K⟩ :: ms' ∧ Goes K (u.apply s) c ms' r s' := by
  cases h with
  | move h hK course =>
    cases h
    exact ⟨_, rfl, course⟩

theorem goes_trace {k : List TraceLine → Code} (h : Goes K s (.trace k) ms r s') :
    ∃ ms', ms = ⟨s, .host (.trace k), K⟩ :: ms' ∧
      Goes K s (k (traceLines (activationsOf K))) ms' r s' := by
  cases h with
  | move h hK course =>
    cases h
    exact ⟨_, rfl, course⟩

/-- Host code that has a script do something waits for it and goes on. -/
theorem goes_run {task : Task} {k : Completion → Code} (h : Goes K s (.run task k) ms r s') :
    ∃ ms₁ c s₁ ms₂, Settles K s task k ms₁ c s₁ ∧ Goes K s₁ (k c) ms₂ r s' ∧
      ms = ⟨s, .host (.run task k), K⟩ :: (ms₁ ++ ms₂) := by
  cases h with
  | move h hK course =>
    cases h
    obtain ⟨ms₁, m₁, m₂, ms₂, above, top, step, left, below, rfl⟩ :=
      course.split List.suffix_rfl not_cons_suffix
    obtain ⟨control, stack, base, c, memory, active, settles, rfl⟩ := step.settles top left
    obtain ⟨s₁, a, L⟩ := m₁
    obtain rfl : a = .script control stack base := active
    obtain rfl : L = .script k :: K := top
    exact ⟨_, c, _, ms₂, ⟨ms₁, s₁, control, stack, base, memory, above, rfl, settles, rfl⟩, below,
      by simp⟩

/-- Host code in a scope is refused, or comes to an end with which the scope ends. -/
theorem goes_scope {scope : Scope} {body : Code} {refused : Failure → Code} {k : Reply → Code}
    (h : Goes K s (.scope scope body refused k) ms r s') :
    (∃ f ms', scope.enter s = .error f ∧ Goes K s (refused f) ms' r s' ∧
      ms = ⟨s, .host (.scope scope body refused k), K⟩ :: ms') ∨
    ∃ o s₁ ms₁ r₁ s₂ ms₂, scope.enter s = .ok (o, s₁) ∧
      Goes (.scope o k :: K) s₁ body ms₁ r₁ s₂ ∧ Goes K (o.leave s₂ r₁) (k r₁) ms₂ r s' ∧
      ms = ⟨s, .host (.scope scope body refused k), K⟩ ::
        (ms₁ ++ ⟨s₂, .host (.finish r₁), .scope o k :: K⟩ :: ms₂) := by
  cases h with
  | move h hK course =>
    cases h with
    | refuse h => exact .inl ⟨_, _, h, course, rfl⟩
    | enter h =>
      obtain ⟨ms₁, m₁, m₂, ms₂, above, top, step, left, below, rfl⟩ :=
        course.split List.suffix_rfl not_cons_suffix
      obtain ⟨s₂, r₁, rfl, rfl⟩ := step.pop_scope top left
      exact .inr ⟨_, _, ms₁, r₁, s₂, ms₂, h, above, below, rfl⟩

/-! ### Paths -/

/-- What host code changes itself where it goes on after other code is what both change. -/
theorem goes_andThen {c : Code} {next : Reply → Code} (h : Goes K s (c.andThen next) ms r s') :
    ∃ ms₁ r₁ s₁ ms₂, c.Path (own K ms₁) r₁ ∧
      Course K ⟨s, .host (c.andThen next), K⟩ ms₁ ⟨s₁, .host (next r₁), K⟩ ∧
      Goes K s₁ (next r₁) ms₂ r s' ∧ ms = ms₁ ++ ms₂ := by
  induction c generalizing K s ms next r s' with
  | finish r₁ => exact ⟨[], r₁, s, ms, .finish, .done _, h, rfl⟩
  | read k ih =>
    obtain ⟨ms', rfl, rest⟩ := goes_read h
    obtain ⟨ms₁, r₁, s₁, ms₂, path, first, second, rfl⟩ := ih s rest
    refine ⟨_ :: ms₁, r₁, s₁, ms₂, ?_, .move .read List.suffix_rfl first, second, rfl⟩
    rw [own_of_writes_nil rfl]
    exact .read s path
  | write u c ih =>
    obtain ⟨ms', rfl, rest⟩ := goes_write h
    obtain ⟨ms₁, r₁, s₁, ms₂, path, first, second, rfl⟩ := ih rest
    refine ⟨_ :: ms₁, r₁, s₁, ms₂, ?_, .move .write List.suffix_rfl first, second, rfl⟩
    rw [andThen, own_write]
    exact .write path
  | run task k ih =>
    obtain ⟨ms₀, c, s₀, ms', settles, rest, rfl⟩ := goes_run h
    obtain ⟨ms₁, r₁, s₁, ms₂, path, first, second, rfl⟩ := ih c rest
    refine ⟨_ :: (ms₀ ++ ms₁), r₁, s₁, ms₂, ?_, settles.course first, second, by simp⟩
    rw [own_of_writes_nil rfl, own_append, settles.own, List.nil_append]
    exact .run c path
  | trace k ih =>
    obtain ⟨ms', rfl, rest⟩ := goes_trace h
    obtain ⟨ms₁, r₁, s₁, ms₂, path, first, second, rfl⟩ := ih _ rest
    refine ⟨_ :: ms₁, r₁, s₁, ms₂, ?_, .move .trace List.suffix_rfl first, second, rfl⟩
    rw [own_of_writes_nil rfl]
    exact .trace _ path
  | scope scope body refused k ihb ihr ihk =>
    obtain ⟨f, ms', refuses, rest, rfl⟩ | ⟨o, s₀, ms₀, r₀, s₂, ms', enters, inside, rest, rfl⟩ :=
      goes_scope h
    · obtain ⟨ms₁, r₁, s₁, ms₂, path, first, second, rfl⟩ := ihr f rest
      refine ⟨_ :: ms₁, r₁, s₁, ms₂, ?_, .move (.refuse refuses) List.suffix_rfl first, second, rfl⟩
      rw [own_of_writes_nil rfl]
      exact .refused f path
    · obtain ⟨ms₁, r₁, s₁, ms₂, path, first, second, rfl⟩ := ihk r₀ rest
      rw [← andThen_finish body] at inside
      obtain ⟨ms₃, r₃, s₃, ms₄, path₀, -, ends, rfl⟩ := ihb inside
      obtain ⟨rfl, rfl, rfl⟩ := goes_finish ends
      rw [andThen_finish, List.append_nil] at inside
      refine ⟨_ :: (ms₃ ++ _ :: ms₁), r₁, s₁, ms₂, ?_, .move (.enter enters) (List.suffix_cons _ _)
        ((Course.mono inside (List.suffix_cons _ _)).trans (.move .leave List.suffix_rfl first)),
        second, by simp [andThen]⟩
      rw [own_of_writes_nil rfl, own_append, own_of_writes_nil rfl]
      exact .scope path₀ path

/-- What host code changes itself is one path through it. -/
theorem Goes.path {c : Code} (h : Goes K s c ms r s') : c.Path (own K ms) r := by
  rw [← andThen_finish c] at h
  obtain ⟨ms₁, r₁, s₁, ms₂, path, -, ends, rfl⟩ := goes_andThen h
  obtain ⟨rfl, rfl, rfl⟩ := goes_finish ends
  rwa [List.append_nil]

end Code

end CardBridge
