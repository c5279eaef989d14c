import CardBridge.Proofs.Lives
import CardBridge.Session.Collector

/-!
# Lives with a collector

In the life of an environment finalizers may run while an object is registered. `Collecting.Later`
is one step of a life with that, under any host and with any collector, and `Blueprint.Lived` says
that a machine with its registrations in progress comes up in one, with the game objects that were
`replaced` in it: those of an object that was registered by what ran during another registration
of the same object.

A registration in progress waits for a script, and goes on where that has ended (`Waits`,
`Placed`). So at rest there is none (`Lived.at_rest`), and between the making of a game object and
its entry nothing runs. Seen from the game objects and the registry a step is a `Roster.Turn`.

A life without finalizers is such a life (`Leads.of_later`), and a run of which no memory has marked
tables is a run with the usual collector (`run_of_unmarked`).
-/

namespace CardBridge

open Relation
open Script (Memory)

/-- The game object of a registered object. -/
def State.registered (s : State) (o : ObjectRef) : Option Nat :=
  s.env.bridge.bind (·.registry.payload o)

namespace Collecting

/-! ## Lives -/

/-- One step in the life of an environment. -/
inductive Later : Collecting → Collecting → Prop
  | step {c : Collecting} {m : Machine} {bs : List Binding} (host : Host) (collector : Collector)
    (h : c.step host collector = (.next m, bs)) : Later c ⟨m, bs⟩
  | begins {s : State} {r : Reply} {memory : Memory} (h : s.env.memory.Edits memory)
    (shared : Shared) (code : Code) :
    Later ⟨⟨s, .host (.finish r), []⟩, []⟩ (.start ⟨{ s.env with memory }, shared⟩ code)

/-- The game object that the next step takes out of the registry by entering another one for its
object. -/
def replaced (c : Collecting) : List Nat :=
  match c.machine.activity with
  | .host (.write (.register o _) _) =>
    match current o c.machine.stack c.bindings with
    | some (b, _) => (b.made.bind fun _ => c.machine.state.registered o).toList
    | none => []
  | _ => []

/-- Steps of a life, with the game objects that were replaced in them. -/
inductive Leads (c : Collecting) : List Nat → Collecting → Prop
  | refl : Leads c [] c
  | tail {ns : List Nat} {c' c'' : Collecting} (h : Leads c ns c') (later : Later c' c'') :
    Leads c (c'.replaced ++ ns) c''

variable {c c' c'' : Collecting} {ns ns' : List Nat}

theorem Leads.trans (h : Leads c ns c') (h' : Leads c' ns' c'') : Leads c (ns' ++ ns) c'' := by
  induction h' with
  | refl => exact h
  | tail _ later ih =>
    rw [List.append_assoc]
    exact ih.tail later

theorem Leads.single (h : Later c c') : Leads c c.replaced c' := by
  simpa using Leads.refl.tail h

/-- At most `fuel` steps under a host and a collector: what was replaced in them, and what they come
to. -/
def trail (host : Host) (collector : Collector) : Nat → Collecting → List Nat × Collecting
  | 0, c => ([], c)
  | fuel + 1, c =>
    match c.step host collector with
    | (.next m, bs) =>
      let (ns, c') := trail host collector fuel ⟨m, bs⟩
      (ns ++ c.replaced, c')
    | _ => ([], c)

theorem leads_trail (host : Host) (collector : Collector) : ∀ (fuel : Nat) (c : Collecting),
    Leads c (trail host collector fuel c).1 (trail host collector fuel c).2
  | 0, _ => .refl
  | fuel + 1, c => by
    unfold trail
    split
    case h_1 m bs h => exact (Leads.single (.step host collector h)).trans (leads_trail _ _ fuel _)
    case h_2 => exact .refl

/-! ## Moves -/

/-- One step, with the step that a registration takes in it. -/
inductive Move : Collecting → Collecting → Prop
  | plain {m m' : Machine} {bs : List Binding} (h : Machine.Move m m')
    (known : ∀ o cls next, m.activity = .host (.write (.register o cls) next) →
      current o m.stack bs = none ∧ m.state.isNew o = false) : Move ⟨m, bs⟩ ⟨m', bs⟩
  | allocate {s : State} {o : ObjectRef} {cls : Option String} {next : Code} {K : List Frame}
    {bs : List Binding} (new : s.isNew o = true) (begins : current o K bs = none) :
    Move ⟨⟨s, .host (.write (.register o cls) next), K⟩, bs⟩
      ⟨⟨s.allocateHandle.2, .host (.write (.register o cls) next), K⟩,
        ⟨K.length, o, s.allocateHandle.1, none⟩ :: bs⟩
  | finalize {s : State} {b : Binding} {cls : Option String} {next : Code} {K : List Frame}
    {bs : List Binding} (here : b.height = K.length) (unmade : b.made = none) (t : Nat)
    (f : Script.Value) :
    Move ⟨⟨s, .host (.write (.register b.object cls) next), K⟩, b :: bs⟩
      ⟨⟨s.setMemory (s.env.memory.unmark t),
        .script (Machine.taskControl (.call f [.table t])) [] (Machine.baseOf K),
        .script (fun _ => .write (.register b.object cls) next) :: K⟩, b :: bs⟩
  | make {s : State} {b : Binding} {cls : Option String} {next : Code} {K : List Frame}
    {bs : List Binding} (here : b.height = K.length) (unmade : b.made = none) :
    Move ⟨⟨s, .host (.write (.register b.object cls) next), K⟩, b :: bs⟩
      ⟨⟨(s.makeObject ⟨b.handle, b.object, false, cls⟩).2,
        .host (.write (.register b.object cls) next), K⟩,
        { b with made := some s.env.objects.size } :: bs⟩
  | enter {s : State} {b : Binding} {cls : Option String} {next : Code} {K : List Frame}
    {bs : List Binding} {n : Nat} (here : b.height = K.length) (made : b.made = some n) :
    Move ⟨⟨s, .host (.write (.register b.object cls) next), K⟩, b :: bs⟩
      ⟨⟨s.enterObject b.handle b.object n, .host next, K⟩, bs⟩

theorem current_eq_some {o : ObjectRef} {K : List Frame} {bs bs' : List Binding} {b : Binding}
    (h : current o K bs = some (b, bs')) :
    bs = b :: bs' ∧ b.height = K.length ∧ b.object = o := by
  cases bs with
  | nil => cases h
  | cons b₁ bs₁ =>
    simp only [current, Option.ite_none_right_eq_some] at h
    obtain ⟨here, eq⟩ := h
    cases eq
    exact ⟨rfl, here⟩

theorem current_cons {K : List Frame} {b : Binding} (here : b.height = K.length)
    (bs : List Binding) : current b.object K (b :: bs) = some (b, bs) :=
  if_pos ⟨here, rfl⟩

theorem move_of_step {host : Host} {collector : Collector} {m : Machine} {bs : List Binding}
    (h : c.step host collector = (.next m, bs)) : Move c ⟨m, bs⟩ := by
  obtain ⟨⟨s, activity, K⟩, bs₀⟩ := c
  unfold step at h
  dsimp only at h
  split at h
  case h_1 o cls next =>
    split at h
    case h_1 b bs₁ found =>
      obtain ⟨rfl, here, rfl⟩ := current_eq_some found
      unfold proceed at h
      split at h
      case h_1 n _ _ made =>
        cases h
        exact .enter here made
      case h_2 t unmade _ =>
        cases h
        exact .finalize here unmade t _
      case h_3 unmade _ =>
        cases h
        exact .make here unmade
    case h_2 begins =>
      split at h
      case isTrue new =>
        cases h
        exact .allocate new begins
      case isFalse known =>
        obtain ⟨step, rfl⟩ := Prod.mk.inj h
        refine .plain (Machine.move_of_step step) fun o' cls' next' same => ?_
        cases same
        exact ⟨begins, Bool.not_eq_true _ ▸ known⟩
  case h_2 other =>
    obtain ⟨step, rfl⟩ := Prod.mk.inj h
    exact .plain (Machine.move_of_step step) fun o cls next same => absurd same (other o cls next)

/-! ## Registrations in progress -/

/-- Registrations in progress wait on a stack, each for the script that is on top of it. -/
inductive Waits : List Frame → List Binding → Prop
  | idle (K : List Frame) : Waits K []
  | frame {K : List Frame} {bs : List Binding} (F : Frame) (h : Waits K bs) : Waits (F :: K) bs
  | wait {K : List Frame} {b : Binding} {bs : List Binding} (cls : Option String) (next : Code)
    (here : b.height = K.length) (unmade : b.made = none) (h : Waits K bs) :
    Waits (.script (fun _ => .write (.register b.object cls) next) :: K) (b :: bs)

/-- All registrations in progress wait, but perhaps for one that goes on now. -/
inductive Placed : Collecting → Prop
  | waiting {m : Machine} {bs : List Binding} (h : Waits m.stack bs) : Placed ⟨m, bs⟩
  | goesOn {s : State} (b : Binding) {cls : Option String} {next : Code} {K : List Frame}
    {bs : List Binding} (here : b.height = K.length) (h : Waits K bs) :
    Placed ⟨⟨s, .host (.write (.register b.object cls) next), K⟩, b :: bs⟩

theorem Waits.height_lt {K : List Frame} {bs : List Binding} (h : Waits K bs) :
    ∀ b ∈ bs, b.height < K.length := by
  induction h with
  | idle => simp
  | frame F _ ih => exact fun b mem => Nat.lt_succ_of_lt (ih b mem)
  | wait _ _ here _ _ ih =>
    refine List.forall_mem_cons.mpr ⟨?_, fun b mem => Nat.lt_succ_of_lt (ih b mem)⟩
    rw [here]
    exact Nat.lt_succ_self _

theorem Waits.unmade {K : List Frame} {bs : List Binding} (h : Waits K bs) :
    ∀ b ∈ bs, b.made = none := by
  induction h with
  | idle => simp
  | frame _ _ ih => exact ih
  | wait _ _ _ unmade _ ih => exact List.forall_mem_cons.mpr ⟨unmade, ih⟩

/-- A machine that moves with registrations waiting has them wait, or the first one goes on. -/
theorem Waits.move {m m' : Machine} {bs : List Binding} (h : Waits m.stack bs)
    (move : Machine.Move m m') : Placed ⟨m', bs⟩ := by
  obtain same | ⟨F, pushed⟩ | ⟨F, popped⟩ := move.stack
  · exact .waiting (by rw [same]; exact h)
  · exact .waiting (by rw [pushed]; exact h.frame F)
  · rw [popped] at h
    cases h with
    | idle => exact .waiting (.idle _)
    | frame _ h => exact .waiting h
    | wait cls next here unmade h =>
      obtain ⟨_, _, _, _, _, _, -, eq⟩ := move.settles popped rfl
      rw [eq]
      exact .goesOn _ here h

/-- Where one goes on, the others wait. -/
theorem Placed.waits {m : Machine} {b : Binding} {bs : List Binding} (h : Placed ⟨m, b :: bs⟩)
    (here : b.height = m.stack.length) : Waits m.stack bs := by
  cases h with
  | waiting waits =>
    have lower := waits.height_lt b (List.mem_cons_self ..)
    exact absurd here (Nat.ne_of_lt lower)
  | goesOn _ _ waits => exact waits

theorem Placed.move (h : Placed c) (move : Move c c') : Placed c' := by
  cases move with
  | plain move known =>
    cases h with
    | waiting waits => exact waits.move move
    | goesOn b here =>
      obtain ⟨begins, -⟩ := known _ _ _ rfl
      rw [current_cons here] at begins
      cases begins
  | @allocate s o cls next K bs new begins =>
    cases h with
    | waiting waits => exact .goesOn ⟨K.length, o, s.allocateHandle.1, none⟩ rfl waits
    | goesOn b here =>
      rw [current_cons here] at begins
      cases begins
  | finalize here unmade t f => exact .waiting (.wait _ _ here unmade (h.waits here))
  | @make s b cls next K bs here unmade =>
    exact .goesOn { b with made := some s.env.objects.size } here (h.waits here)
  | enter here made => exact .waiting (h.waits here)

theorem Placed.later (h : Placed c) (later : Later c c') : Placed c' := by
  cases later with
  | step host collector h' => exact h.move (move_of_step h')
  | begins => exact .waiting (.idle _)

theorem Leads.placed (h : Leads c ns c') (placed : Placed c) : Placed c' := by
  induction h with
  | refl => exact placed
  | tail _ later ih => exact ih.later later

/-- A game object that is being made is about to be entered. -/
theorem Placed.making (h : Placed c) {b : Binding} {n : Nat} (mem : b ∈ c.bindings)
    (made : b.made = some n) :
    ∃ cls next, c.machine.activity = .host (.write (.register b.object cls) next) := by
  cases h with
  | waiting waits =>
    rw [waits.unmade b mem] at made
    cases made
  | @goesOn _ b' cls next _ bs _ waits =>
    obtain rfl | mem := List.mem_cons.mp mem
    · exact ⟨cls, next, rfl⟩
    · rw [waits.unmade b mem] at made
      cases made

/-- At rest no registration is in progress. -/
theorem Placed.at_rest {s : State} {r : Reply} {bs : List Binding}
    (h : Placed ⟨⟨s, .host (.finish r), []⟩, bs⟩) : bs = [] := by
  cases h with
  | waiting waits =>
    cases waits
    rfl

/-! ## Runs -/

theorem eq_of_ended {host : Host} {collector : Collector} {r : Reply} {s : State}
    {bs : List Binding} (h : c.step host collector = (.ended r s, bs)) :
    c.machine = ⟨s, .host (.finish r), []⟩ := by
  unfold step at h
  dsimp only at h
  split at h
  case h_1 =>
    split at h
    case h_1 =>
      unfold proceed at h
      split at h <;> cases h
    case h_2 =>
      split at h
      case isTrue => cases h
      case isFalse => exact Machine.eq_of_ended (Prod.mk.inj h).1
  case h_2 => exact Machine.eq_of_ended (Prod.mk.inj h).1

/-- A run that ends comes to a machine at rest. -/
theorem leads_of_ended {host : Host} {collector : Collector} {r : Reply} {s : State} :
    ∀ (fuel : Nat) (c : Collecting), Placed c → c.run host collector fuel = .ended r s →
      ∃ ns, Leads c ns ⟨⟨s, .host (.finish r), []⟩, []⟩
  | 0, _, _, h => by cases h
  | fuel + 1, c, placed, h => by
    unfold run at h
    split at h
    case h_1 m bs hm =>
      have later := Later.step host collector hm
      obtain ⟨ns, leads⟩ := leads_of_ended fuel _ (placed.later later) h
      exact ⟨_, (Leads.single later).trans leads⟩
    case h_2 ended bs hm =>
      subst h
      obtain ⟨m, bs⟩ := c
      obtain rfl : m = _ := eq_of_ended hm
      obtain rfl := placed.at_rest
      exact ⟨[], .refl⟩

end Collecting

/-! ## Lives of an environment -/

namespace Host

open Collecting

/-- A machine with its registrations in progress comes up in the life of an environment that is made
from a blueprint, with the game objects that were replaced until then. -/
def Blueprint.Lived (b : Blueprint) (lost : List Nat) (c : Collecting) : Prop :=
  ∃ account shared code, Leads (.start ⟨b.environment account, shared⟩ code) lost c

theorem Blueprint.Lived.leads {b : Blueprint} {lost ns : List Nat} {c c' : Collecting}
    (h : b.Lived lost c) (h' : Leads c ns c') : b.Lived (ns ++ lost) c' := by
  obtain ⟨account, shared, code, h⟩ := h
  exact ⟨account, shared, code, h.trans h'⟩

/-- A registration in progress goes on now or waits for a script. -/
theorem Blueprint.Lived.placed {b : Blueprint} {lost : List Nat} {c : Collecting}
    (h : b.Lived lost c) : Placed c := by
  obtain ⟨account, shared, code, h⟩ := h
  exact h.placed (.waiting (.idle _))

/-- Where a run has ended the host may begin something else. -/
theorem Blueprint.Lived.next {b : Blueprint} {lost : List Nat} {s s' : State} {c : Code}
    (h : b.Lived lost (.start s c)) {host : CardBridge.Host} {collector : Collector} {fuel : Nat}
    {r : Reply} (stops : run host collector fuel (.start s c) = .ended r s') {memory : Memory}
    (edits : s'.env.memory.Edits memory) (shared : Shared) (code : Code) :
    ∃ lost', b.Lived lost' (.start ⟨{ s'.env with memory }, shared⟩ code) := by
  obtain ⟨ns, leads⟩ := leads_of_ended _ _ (.waiting (.idle _)) stops
  exact ⟨_, h.leads (leads.trans (.single (.begins edits shared code)))⟩

/-! ### Environments of a world -/

/-- A function is installed by edits of the memory. -/
theorem install_edits {m m' : Memory} (h : m.Edits m') (cls name : String) (f : Script.Native) :
    m.Edits (install m' cls name f) :=
  (classTable_edits h cls).rawSet _ _ _

theorem installAll_edits {m m' : Memory} (h : m.Edits m') (ps : List (Program × Nat))
    (base : Nat) : m.Edits
      (ps.foldl (fun m p => install m p.1.cls p.1.name (.host (base + p.2))) m') := by
  induction ps generalizing m' with
  | nil => exact h
  | cons p ps ih => exact ih (install_edits h _ _ _)

/-- In an environment that a world has made, whatever host code begins in it is in a life of its
blueprint. -/
theorem World.make_lived {w : World} {name : String} {b : Blueprint} {env : Environment}
    (h : (w.make name b).2.environments.lookup name = some env) (shared : Shared) (code : Code) :
    ∃ lost, b.Lived lost (.start ⟨env, shared⟩ code) := by
  unfold make at h
  dsimp only at h
  split at h
  · rw [Keyed.lookup_erase_self] at h
    cases h
  case h_2 succeeds =>
    rw [Keyed.lookup_put_self] at h
    cases h
    unfold runCode at succeeds ⊢
    split at succeeds
    case h_1 r s stops =>
      have installed := installAll_edits (.refl s.env.memory) b.programs.zipIdx w.programs.size
      exact Blueprint.Lived.next ⟨_, _, _, .refl⟩ stops installed shared code
    all_goals exact absurd rfl (succeeds _)

end Host

/-! ## Lives without finalizers -/

namespace Collecting

/-- A step of a machine in which no object is registered anew is a step with any collector. -/
theorem step_of_machine (host : Host) (collector : Collector) {m : Machine} {bs : List Binding}
    (known : ∀ o cls next, m.activity = .host (.write (.register o cls) next) →
      current o m.stack bs = none ∧ m.state.isNew o = false) :
    step host collector ⟨m, bs⟩ = (m.step host, bs) := by
  obtain ⟨s, activity, K⟩ := m
  unfold step
  dsimp only
  split
  case h_1 o cls next =>
    obtain ⟨begins, old⟩ := known o cls next rfl
    simp [begins, old]
  case h_2 => rfl

theorem register_of_new {s : State} {o : ObjectRef} (new : s.isNew o = true)
    (cls : Option String) :
    s.register o cls =
      let (handle, s₁) := s.allocateHandle
      let (n, s₂) := s₁.makeObject ⟨handle, o, false, cls⟩
      s₂.enterObject handle o n := by
  obtain ⟨b, hb, unknown⟩ := s.unknown_of_isNew new
  simp [State.register, hb, unknown]

/-- Without a finalizer an object is registered anew in three steps, in which nothing is
replaced. -/
theorem steps_of_new (host : Host) (collector : Collector) {s : State} {o : ObjectRef}
    (cls : Option String) (next : Code) (K : List Frame) (bs : List Binding)
    (new : s.isNew o = true) (begins : current o K bs = none)
    (quiet : ∀ s', s'.env.memory = s.env.memory →
      collector ⟨s', .host (.write (.register o cls) next), K⟩ = none) :
    ∃ c₁ c₂, step host collector ⟨⟨s, .host (.write (.register o cls) next), K⟩, bs⟩ =
        (.next c₁.machine, c₁.bindings) ∧
      step host collector c₁ = (.next c₂.machine, c₂.bindings) ∧
      step host collector c₂ = (.next ⟨s.register o cls, .host next, K⟩, bs) ∧
      replaced ⟨⟨s, .host (.write (.register o cls) next), K⟩, bs⟩ = [] ∧
      c₁.replaced = [] ∧ c₂.replaced = [] := by
  obtain ⟨b, hb, unknown⟩ := s.unknown_of_isNew new
  let activity : Activity := .host (.write (.register o cls) next)
  let b₁ : Binding := ⟨K.length, o, s.allocateHandle.1, none⟩
  let s₁ := s.allocateHandle.2
  let s₂ := (s₁.makeObject ⟨b₁.handle, o, false, cls⟩).2
  let b₂ : Binding := { b₁ with made := some s₁.env.objects.size }
  have memory : s₁.env.memory = s.env.memory := by simp [s₁, State.allocateHandle, hb]
  refine ⟨⟨⟨s₁, activity, K⟩, b₁ :: bs⟩, ⟨⟨s₂, activity, K⟩, b₂ :: bs⟩, ?_, ?_, ?_, ?_, ?_, ?_⟩
  · simp [step, begins, new, activity, s₁, b₁]
  · have here : current o K (b₁ :: bs) = some (b₁, bs) := current_cons rfl bs
    simp only [step, activity, here, proceed, b₁, quiet s₁ memory]
    rfl
  · have here : current o K (b₂ :: bs) = some (b₂, bs) := current_cons rfl bs
    simp only [step, activity, here, proceed, b₂]
    rw [register_of_new new]
    rfl
  · simp [replaced, begins]
  · have here : current o K (b₁ :: bs) = some (b₁, bs) := current_cons rfl bs
    simp [replaced, activity, here, b₁]
  · have here : current o K (b₂ :: bs) = some (b₂, bs) := current_cons rfl bs
    have still : s₂.registered o = none := by
      simp only [State.registered, s₂, State.makeObject, s₁, State.allocateHandle, hb]
      exact unknown
    simp [replaced, activity, here, b₂, still]

/-- What a machine at work does next: it registers an object anew, or it takes a step that every
collector leaves alone. -/
theorem new_or_known (m : Machine) :
    (∃ s o cls next K, m = ⟨s, .host (.write (.register o cls) next), K⟩ ∧ s.isNew o = true) ∨
      ∀ o cls next, m.activity = .host (.write (.register o cls) next) →
        current o m.stack [] = none ∧ m.state.isNew o = false := by
  obtain ⟨s, activity, K⟩ := m
  by_cases new : ∃ o cls next, activity = .host (.write (.register o cls) next) ∧ s.isNew o = true
  · obtain ⟨o, cls, next, rfl, new⟩ := new
    exact .inl ⟨s, o, cls, next, K, rfl, new⟩
  · refine .inr fun o cls next here => ⟨rfl, Bool.eq_false_iff.mpr fun isNew => ?_⟩
    exact new ⟨o, cls, next, here, isNew⟩

theorem replaced_of_machine (m : Machine) : replaced ⟨m, []⟩ = [] := by
  unfold replaced
  split <;> rfl

theorem Leads.of_move {m m' : Machine} (h : Machine.Move m m') : Leads ⟨m, []⟩ [] ⟨m', []⟩ := by
  obtain ⟨host, step⟩ := Machine.move_iff.mp h
  obtain ⟨s, o, cls, next, K, rfl, new⟩ | known := new_or_known m
  · obtain ⟨c₁, c₂, first, second, third, none₀, none₁, none₂⟩ :=
      steps_of_new host (fun _ => none) cls next K [] new rfl fun _ _ => rfl
    cases step
    have leads := ((Leads.refl.tail (.step host _ first)).tail (.step host _ second)).tail
      (.step host _ third)
    rwa [none₀, none₁, none₂] at leads
  · have leads := Leads.single (.step host _ ((step_of_machine host (fun _ => none) known).trans
      (congrArg (·, []) step)))
    rwa [replaced_of_machine] at leads

/-- A life without finalizers is a life in which nothing is replaced. -/
theorem Leads.of_later {m m' : Machine} (h : ReflTransGen Machine.Later m m') :
    Leads ⟨m, []⟩ [] ⟨m', []⟩ := by
  induction h with
  | refl => exact .refl
  | tail _ later ih =>
    cases later with
    | move move => exact ih.trans (.of_move move)
    | begins edits shared code => exact ih.trans (.single (.begins edits shared code))

theorem usual_of_unmarked {m : Machine} (h : m.state.env.memory.marked = []) :
    Collector.usual m = none := by
  simp [Collector.usual, h]

/-- A run that comes to an end without a table being marked comes to the same end with the usual
collector. -/
theorem run_of_unmarked {host : Host} {r : Reply} {s : State} : ∀ (fuel : Nat) (m : Machine),
    (∀ k m', m.run host k = .next m' → m'.state.env.memory.marked = []) →
    m.run host fuel = .ended r s →
    ∃ fuel' ≤ 3 * fuel, run host .usual fuel' ⟨m, []⟩ = .ended r s
  | 0, _, _, h => by cases h
  | fuel + 1, m, unmarked, h => by
    obtain ⟨s, o, cls, next, K, rfl, new⟩ | known := new_or_known m
    · obtain ⟨c₁, c₂, first, second, third, -⟩ :=
        steps_of_new host .usual cls next K [] new rfl fun s' same =>
        usual_of_unmarked ((congrArg (·.marked) same).trans (unmarked 0 _ rfl))
      obtain ⟨fuel', le, ends⟩ := run_of_unmarked fuel ⟨s.register o cls, .host next, K⟩
        (fun k m' later => unmarked (k + 1) m' later) h
      refine ⟨fuel' + 3, by omega, ?_⟩
      simp only [run, first, second, third, ends]
    · have same := step_of_machine host .usual known
      cases hm : m.step host with
      | next m' =>
        simp only [Machine.run, hm] at h
        obtain ⟨fuel', le, ends⟩ := run_of_unmarked fuel m'
          (fun k m'' later => unmarked (k + 1) m'' (by simp only [Machine.run, hm, later])) h
        refine ⟨fuel' + 1, by omega, ?_⟩
        simp only [run, same, hm, ends]
      | ended r' s' =>
        simp only [Machine.run, hm] at h
        exact ⟨1, by omega, by simp only [run, same, hm, h]⟩
      | stuck s' =>
        simp only [Machine.run, hm] at h
        cases h

end Collecting

/-- A life without finalizers is one in which nothing is replaced. -/
theorem Host.Blueprint.Reaches.lived_unreplaced {b : Blueprint} {m : Machine} (h : b.Reaches m) :
    b.Lived [] ⟨m, []⟩ := by
  obtain ⟨account, shared, code, h⟩ := h
  exact ⟨account, shared, code, .of_later h⟩

end CardBridge
