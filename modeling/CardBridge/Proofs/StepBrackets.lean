import CardBridge.Proofs.CoroutineHistory

/-!
# Steps between a beginning and an end

A step is begun by a request that hands out the means to go on, and ended by another one. The
request to end a step names the phase that follows, and any phase may be named that may follow the
one the operation is in. So where an operation waits, a step of it can be ended in the phase in
which it runs : that opens a step, and nothing is handed out.

`stepsOf` are the requests about steps that were not refused. They open and close steps in turn in
any history (`alternates_opens`), and steps are bracketed by a beginning and an end exactly where no
step was ended in the phase in which an operation runs (`steps_in_turn`).
-/

namespace CardBridge

namespace CoroutineTable

variable {α : Type}

/-! ## Requests about steps -/

/-- The requests about the steps of an operation, the last one first, once one more was accepted. -/
def Request.record (steps : List (Request α)) : Request α → List (Request α)
  | create _ _ => []
  | begin id => .begin id :: steps
  | finishStep id phase => .finishStep id phase :: steps
  | abandon _ => steps

/-- The requests that began and ended the steps of the operation that was last created under a name,
the last one first. Those that were refused are not among them. -/
def stepsOf (id : CoroutineId) : List (Request α) → List (Request α)
  | [] => []
  | a :: past =>
    match a.answer (kept past) with
    | .error _ => stepsOf id past
    | .ok _ => if a.id = id then a.record (stepsOf id past) else stepsOf id past

/-- Requests that open a step and close it in turn, the last one first, where `opens` says which of
them open one. The first one does, and `inside` says whether the last one has. -/
inductive Alternates (opens : Request α → Prop) : Bool → List (Request α) → Prop
  | none : Alternates opens false []
  | opened {a : Request α} {steps : List (Request α)} (opening : opens a)
    (before : Alternates opens false steps) : Alternates opens true (a :: steps)
  | closed {a : Request α} {steps : List (Request α)} (closing : ¬ opens a)
    (before : Alternates opens true steps) : Alternates opens false (a :: steps)

/-- A request to begin a step. -/
def Begins (a : Request α) : Prop :=
  a = .begin a.id

/-- A request that opens a step : to begin one, or to end one in the phase in which an operation
runs. -/
def Opens (a : Request α) : Prop :=
  Begins a ∨ a = .finishStep a.id .running

/-- The last request about the steps of an operation was to begin one, and it handed out what the
operation was created with. -/
def BegunLast (id : CoroutineId) (past : List (Request α)) : Prop :=
  ∃ later earlier payload t, past = later ++ .begin id :: earlier ∧
    (kept earlier).begin id = .ok (payload, t) ∧ Started id payload past ∧
    stepsOf id past = .begin id :: stepsOf id earlier

/-- All through a history, steps are between a beginning and an end. -/
structure Bracketed (past : List (Request α)) : Prop where
  /-- The steps of an operation are begun and ended in turn, a beginning first. -/
  inTurn : ∀ later earlier, past = later ++ earlier →
    ∀ id, ∃ inside, Alternates Begins inside (stepsOf id earlier)
  /-- A step ends that was begun and has not ended since. -/
  ended : ∀ later earlier id phase t, past = later ++ .finishStep id phase :: earlier →
    (kept earlier).finishStep id phase = .ok t → BegunLast id earlier
  /-- An operation that did not run does so after a beginning that handed out what it was created
  with. -/
  running : ∀ later a earlier id, past = later ++ a :: earlier →
    (kept earlier).phase id ≠ some .running → (kept (a :: earlier)).phase id = some .running →
      a = .begin id ∧ ∃ payload t, (kept earlier).begin id = .ok (payload, t) ∧
        Started id payload earlier

/-! ## One request -/

/-- What a request makes of the entry of a name and of the requests about its steps. -/
inductive Move (id : CoroutineId) : Request α →
    Option (CoroutineEntry α) → List (Request α) →
    Option (CoroutineEntry α) → List (Request α) → Prop
  | stay {a : Request α} {e : Option (CoroutineEntry α)} {steps : List (Request α)} :
    Move id a e steps e steps
  | create {payload : α} {steps : List (Request α)} :
    Move id (.create id payload) none steps (some ⟨.created, payload⟩) []
  | begin {e : CoroutineEntry α} {steps : List (Request α)}
    (ready : e.phase.canBecome .running = true) :
    Move id (.begin id) (some e) steps (some { e with phase := .running }) (.begin id :: steps)
  | goesOn {e : CoroutineEntry α} {phase : CoroutinePhase} {steps : List (Request α)}
    (next : e.phase.canBecome phase = true) (inner : phase.isTerminal = false) :
    Move id (.finishStep id phase) (some e) steps (some { e with phase })
      (.finishStep id phase :: steps)
  | last {e : CoroutineEntry α} {phase : CoroutinePhase} {steps : List (Request α)}
    (next : e.phase.canBecome phase = true) (last : phase.isTerminal = true) :
    Move id (.finishStep id phase) (some e) steps none (.finishStep id phase :: steps)
  | abandon {e : CoroutineEntry α} {steps : List (Request α)} :
    Move id (.abandon id) (some e) steps none steps

theorem move (id : CoroutineId) (a : Request α) (past : List (Request α)) :
    Move id a ((kept past).lookup id) (stepsOf id past) ((kept (a :: past)).lookup id)
      (stepsOf id (a :: past)) := by
  rw [stepsOf, kept, Request.apply]
  cases answered : a.answer (kept past) with
  | error why => exact .stay
  | ok p =>
    obtain ⟨handed, t⟩ := p
    have turn := turn_of_answer answered
    by_cases own : a.id = id
    case neg =>
      simp only [own, if_false, turn.lookup_of_ne (Ne.symm own)]
      exact .stay
    case pos =>
      subst own
      simp only [if_true]
      clear answered
      cases turn with
      | create free =>
        rw [Request.id, free, Keyed.lookup_put_self]
        exact .create
      | begin found ready =>
        rw [Request.id, found, Keyed.lookup_put_self]
        exact .begin ready
      | goesOn found next inner =>
        rw [Request.id, found, Keyed.lookup_put_self]
        exact .goesOn next inner
      | last found next last =>
        rw [Request.id, found, Keyed.lookup_erase_self]
        exact .last next last
      | abandon found =>
        rw [Request.id, found, Keyed.lookup_erase_self]
        exact .abandon
      | nothing free => exact .stay

/-- Of two phases that follow each other, an operation runs in one. -/
theorem eq_running_iff {p q : CoroutinePhase} (next : p.canBecome q = true) :
    p = .running ↔ q ≠ .running := by
  cases p <;> cases q <;> simp_all [CoroutinePhase.canBecome]

theorem opens_finishStep_iff {id : CoroutineId} {phase : CoroutinePhase} :
    Opens (.finishStep id phase : Request α) ↔ phase = .running := by
  simp [Opens, Begins, Request.id]

/-! ## Histories -/

variable {id : CoroutineId} {past : List (Request α)}

/-- A request that opens a step where none is open, and closes one where one is, goes on in turn. -/
theorem Alternates.next {opens : Request α → Prop} {inside : Bool} {steps : List (Request α)}
    {a : Request α} {phase : CoroutinePhase} (before : Alternates opens inside steps)
    (opens_iff : opens a ↔ phase = .running) (inside_iff : inside = true ↔ phase ≠ .running) :
    Alternates opens (decide (phase = .running)) (a :: steps) := by
  by_cases runs : phase = .running
  · obtain rfl : inside = false := Bool.eq_false_iff.mpr fun isOpen => inside_iff.mp isOpen runs
    rw [decide_eq_true runs]
    exact .opened (opens_iff.mpr runs) before
  · obtain rfl := inside_iff.mpr runs
    rw [decide_eq_false runs]
    exact .closed (mt opens_iff.mp runs) before

/-- Steps are opened and closed in turn, and an operation runs exactly if a step of it is open. -/
theorem alternates_opens (id : CoroutineId) (past : List (Request α)) :
    ∃ inside, Alternates Opens inside (stepsOf id past) ∧
      ∀ e, (kept past).lookup id = some e → (inside = true ↔ e.phase = .running) := by
  induction past with
  | nil => exact ⟨false, .none, nofun⟩
  | cons a past ih =>
    obtain ⟨inside, before, open_iff⟩ := ih
    have moved := move id a past
    generalize (kept past).lookup id = e₀ at moved open_iff
    generalize stepsOf id past = steps at moved before
    generalize (kept (a :: past)).lookup id = e₁ at moved
    generalize stepsOf id (a :: past) = steps' at moved
    cases moved with
    | stay => exact ⟨inside, before, open_iff⟩
    | create => exact ⟨false, .none, by rintro e ⟨⟩; simp⟩
    | begin ready =>
      have inside_iff := (open_iff _ rfl).trans (eq_running_iff ready)
      exact ⟨_, before.next (iff_of_true (.inl rfl) rfl) inside_iff, by rintro e ⟨⟩; simp⟩
    | goesOn next inner =>
      have inside_iff := (open_iff _ rfl).trans (eq_running_iff next)
      exact ⟨_, before.next opens_finishStep_iff inside_iff, by rintro e ⟨⟩; simp⟩
    | last next last =>
      have inside_iff := (open_iff _ rfl).trans (eq_running_iff next)
      exact ⟨_, before.next opens_finishStep_iff inside_iff, nofun⟩
    | abandon => exact ⟨inside, before, nofun⟩

/-- Whether a step is open after requests in turn depends on how many there are only. -/
theorem Alternates.unique {opens opens' : Request α → Prop} {inside inside' : Bool}
    {steps : List (Request α)} (h : Alternates opens inside steps)
    (h' : Alternates opens' inside' steps) : inside = inside' := by
  induction h generalizing inside' with
  | none =>
    cases h'
    rfl
  | opened _ _ ih =>
    cases h' with
    | opened => rfl
    | closed _ before => cases ih before
  | closed _ _ ih =>
    cases h' with
    | opened _ before => cases ih before
    | closed => rfl

/-- Requests that are in turn stay so under another reading of what opens a step exactly if it reads
each of them alike. -/
theorem Alternates.exists_iff {opens opens' : Request α → Prop} {inside : Bool}
    {steps : List (Request α)} (h : Alternates opens inside steps) :
    (∃ inside', Alternates opens' inside' steps) ↔ ∀ a ∈ steps, (opens a ↔ opens' a) := by
  constructor
  · rintro ⟨inside', h'⟩
    induction h generalizing inside' with
    | none => nofun
    | opened opening before ih =>
      cases h' with
      | opened opening' before' =>
        exact List.forall_mem_cons.mpr ⟨iff_of_true opening opening', ih _ before'⟩
      | closed _ before' => cases before.unique before'
    | closed closing before ih =>
      cases h' with
      | opened _ before' => cases before.unique before'
      | closed closing' before' =>
        exact List.forall_mem_cons.mpr ⟨iff_of_false closing closing', ih _ before'⟩
  · intro alike
    refine ⟨inside, ?_⟩
    induction h with
    | none => exact .none
    | opened opening before ih =>
      obtain ⟨here, alike⟩ := List.forall_mem_cons.mp alike
      exact .opened (here.mp opening) (ih alike)
    | closed closing before ih =>
      obtain ⟨here, alike⟩ := List.forall_mem_cons.mp alike
      exact .closed (mt here.mpr closing) (ih alike)

/-- What is recorded of the steps of an operation was asked for and accepted. -/
theorem accepted_of_mem_stepsOf {a : Request α} (mem : a ∈ stepsOf id past) :
    a.id = id ∧ ∃ later earlier p, past = later ++ a :: earlier ∧
      a.answer (kept earlier) = .ok p := by
  induction past with
  | nil => cases mem
  | cons a' past ih =>
    have further (mem : a ∈ stepsOf id past) : a.id = id ∧ ∃ later earlier p,
        a' :: past = later ++ a :: earlier ∧ a.answer (kept earlier) = .ok p := by
      obtain ⟨own, later, earlier, p, rfl, accepted⟩ := ih mem
      exact ⟨own, a' :: later, earlier, p, rfl, accepted⟩
    rw [stepsOf] at mem
    cases answered : a'.answer (kept past) with
    | error why =>
      rw [answered] at mem
      exact further mem
    | ok p =>
      simp only [answered] at mem
      split at mem
      case isFalse => exact further mem
      case isTrue own =>
        cases a' with
        | create => cases mem
        | begin id' | finishStep id' phase =>
          rcases List.mem_cons.mp mem with rfl | mem
          · exact ⟨own, [], past, p, rfl, answered⟩
          · exact further mem
        | abandon => exact further mem

/-- Only a request to end a step in the phase in which an operation runs opens one and does not
begin it. -/
theorem opens_iff_begins_iff {a : Request α} :
    (Opens a ↔ Begins a) ↔ a ≠ .finishStep a.id .running := by
  constructor
  · intro alike same
    rw [alike.mp (.inr same)] at same
    cases same
  · exact fun other => or_iff_left other

theorem alternates_begins_iff : (∃ inside, Alternates Begins inside (stepsOf id past)) ↔
    .finishStep id .running ∉ stepsOf id past := by
  obtain ⟨inside, inTurn, -⟩ := alternates_opens id past
  rw [inTurn.exists_iff]
  constructor
  · exact fun alike mem => opens_iff_begins_iff.mp (alike _ mem) rfl
  · intro absent a mem
    refine opens_iff_begins_iff.mpr fun same => absent ?_
    rw [(accepted_of_mem_stepsOf mem).1] at same
    exact same ▸ mem

/-- A beginning that is the last request about the steps of an operation handed out what the
operation is kept with. -/
theorem begunLast_of_lookup {e : CoroutineEntry α} {steps : List (Request α)}
    (found : (kept past).lookup id = some e) (recorded : stepsOf id past = .begin id :: steps) :
    BegunLast id past := by
  suffices begun : ∃ later earlier t, past = later ++ .begin id :: earlier ∧
      (kept earlier).begin id = .ok (e.payload, t) ∧ steps = stepsOf id earlier by
    obtain ⟨later, earlier, t, split, begun, rfl⟩ := begun
    exact ⟨later, earlier, e.payload, t, split, begun, started_iff.mpr ⟨e, found, rfl⟩, recorded⟩
  induction past generalizing e with
  | nil => cases found
  | cons a past ih =>
    have moved := move id a past
    generalize before : (kept past).lookup id = e₀ at moved
    generalize recordedBefore : stepsOf id past = steps₀ at moved
    rw [found, recorded] at moved
    cases moved with
    | stay =>
      obtain ⟨later, earlier, t, rfl, begun, same⟩ := ih before recordedBefore
      exact ⟨a :: later, earlier, t, rfl, begun, same⟩
    | begin ready =>
      have begun := begin_eq_ok_iff.mpr ⟨_, before, ready, rfl, rfl⟩
      exact ⟨[], past, _, rfl, begun, recordedBefore.symm⟩

/-- Where a step ends in a phase in which the operation does not run, the last request about its
steps opened one. -/
theorem exists_opening {phase : CoroutinePhase} {t : CoroutineTable α}
    (accepted : (kept past).finishStep id phase = .ok t) (ends : phase ≠ .running) :
    ∃ e a steps, (kept past).lookup id = some e ∧ stepsOf id past = a :: steps ∧ Opens a := by
  obtain ⟨e, found, next, -⟩ := finishStep_eq_ok_iff.mp accepted
  obtain ⟨inside, inTurn, open_iff⟩ := alternates_opens id past
  obtain rfl := (open_iff e found).mpr ((eq_running_iff next).mpr ends)
  generalize stepsOf id past = steps at inTurn
  cases inTurn with
  | opened opening => exact ⟨e, _, _, found, rfl, opening⟩

/-- All through a history, no step was ended in the phase in which an operation runs. -/
def EndsOnly (past : List (Request α)) : Prop :=
  ∀ later earlier id t, past = later ++ .finishStep id .running :: earlier →
    (kept earlier).finishStep id .running ≠ .ok t

theorem EndsOnly.suffix {later : List (Request α)} (endsOnly : EndsOnly (later ++ past)) :
    EndsOnly past := by
  rintro between earlier id t rfl
  exact endsOnly (later ++ between) earlier id t (List.append_assoc ..).symm

theorem EndsOnly.not_mem_stepsOf (endsOnly : EndsOnly past) (id : CoroutineId) :
    .finishStep id .running ∉ stepsOf id past := by
  intro mem
  obtain ⟨-, later, earlier, p, split, accepted⟩ := accepted_of_mem_stepsOf mem
  obtain ⟨t, ended, -⟩ := exists_of_map_ok accepted
  exact endsOnly later earlier id t split ended

/-- An operation that did not run and then does was begun, or a step of it was ended in the phase in
which it runs. -/
theorem begin_or_finishStep_of_running {a : Request α}
    (waits : (kept past).phase id ≠ some .running)
    (runs : (kept (a :: past)).phase id = some .running) :
    (a = .begin id ∧ ∃ payload t, (kept past).begin id = .ok (payload, t) ∧
      Started id payload past) ∨
      a = .finishStep id .running ∧ ∃ t, (kept past).finishStep id .running = .ok t := by
  have moved := move id a past
  rw [phase] at waits runs
  generalize before : (kept past).lookup id = e₀ at moved waits
  generalize (kept (a :: past)).lookup id = e₁ at moved runs
  generalize stepsOf id past = steps at moved
  generalize stepsOf id (a :: past) = steps' at moved
  cases moved with
  | stay => exact absurd runs waits
  | create | last | abandon => cases runs
  | @begin e _ ready =>
    have begun := begin_eq_ok_iff.mpr ⟨e, before, ready, rfl, rfl⟩
    exact .inl ⟨rfl, e.payload, _, begun, started_iff.mpr ⟨e, before, rfl⟩⟩
  | @goesOn e phase _ next inner =>
    obtain rfl : phase = .running := Option.some.inj runs
    exact .inr ⟨rfl, _, finishStep_eq_ok_iff.mpr ⟨e, before, next, rfl⟩⟩

/-- Steps are bracketed exactly if none was ended in the phase in which an operation runs. -/
theorem bracketed_iff : Bracketed past ↔ EndsOnly past := by
  constructor
  · rintro bracketed later earlier id t rfl accepted
    obtain ⟨e, found, next, rfl⟩ := finishStep_eq_ok_iff.mp accepted
    have waits : (kept earlier).phase id ≠ some .running := by
      rw [phase, found, Option.map_some, Ne, Option.some.injEq, eq_running_iff next]
      exact not_not.mpr rfl
    have runs : (kept (.finishStep id .running :: earlier)).phase id = some .running := by
      rw [kept, Request.apply, Request.answer, accepted]
      exact congrArg (Option.map _) (Keyed.lookup_put_self id _ _)
    cases (bracketed.running later _ earlier id rfl waits runs).1
  · intro endsOnly
    constructor
    case inTurn =>
      -- each operation of the name is the last one at some moment, so all moments are looked at
      rintro later earlier rfl id
      exact alternates_begins_iff.mpr (endsOnly.suffix.not_mem_stepsOf id)
    case ended =>
      rintro later earlier id phase t rfl accepted
      have ends : phase ≠ .running := by
        rintro rfl
        exact endsOnly later earlier id t rfl accepted
      obtain ⟨e, a, steps, found, recorded, opening⟩ := exists_opening accepted ends
      have mem : a ∈ stepsOf id earlier := recorded ▸ List.mem_cons_self
      have own := (accepted_of_mem_stepsOf mem).1
      rw [Opens, Begins, own] at opening
      rcases opening with rfl | rfl
      · exact begunLast_of_lookup found recorded
      · have since : EndsOnly ([.finishStep id phase] ++ earlier) := endsOnly.suffix
        exact absurd mem (since.suffix.not_mem_stepsOf id)
    case running =>
      rintro later a earlier id rfl waits runs
      rcases begin_or_finishStep_of_running waits runs with begun | ⟨rfl, t, accepted⟩
      · exact begun
      · exact absurd accepted (endsOnly later earlier id t rfl)

/-- How steps are opened and closed in a history. -/
structure Stepwise (past : List (Request α)) : Prop where
  /-- Steps are opened and closed in turn, and an operation runs exactly if a step of it is open. -/
  inTurn : ∀ id, ∃ inside, Alternates Opens inside (stepsOf id past) ∧
    ∀ phase, (kept past).phase id = some phase → (inside = true ↔ phase = .running)
  /-- A step is opened by a request to end one exactly where an operation waits. -/
  openedByEnd : ∀ id, (∃ t, (kept past).finishStep id .running = .ok t) ↔
    (kept past).phase id = some .created ∨ (kept past).phase id = some .yielded
  /-- The steps of an operation are begun and ended in turn exactly if none was opened so. -/
  begunInTurn : ∀ id, (∃ inside, Alternates Begins inside (stepsOf id past)) ↔
    .finishStep id .running ∉ stepsOf id past
  /-- Steps are bracketed by a beginning and an end exactly if none was opened so. -/
  bracketed : Bracketed past ↔ EndsOnly past

/-- **Steps in turn.** In any history the steps of an operation are opened and closed in turn, and
they are begun and ended in turn, by a beginning that handed out what the operation was created
with, exactly if no request to end a step in the phase in which an operation runs was accepted. -/
theorem steps_in_turn (past : List (Request α)) : Stepwise past := by
  constructor
  case inTurn =>
    intro id
    obtain ⟨inside, inTurn, open_iff⟩ := alternates_opens id past
    refine ⟨inside, inTurn, fun p now => ?_⟩
    obtain ⟨e, found, rfl⟩ := Option.map_eq_some_iff.mp now
    exact open_iff e found
  case openedByEnd =>
    intro id
    rw [exists_finishStep_iff]
    constructor
    · rintro ⟨p, now, next⟩
      rcases canBecome_running_iff.mp next with rfl | rfl
      · exact .inl now
      · exact .inr now
    · rintro (now | now)
      · exact ⟨_, now, rfl⟩
      · exact ⟨_, now, rfl⟩
  case begunInTurn => exact fun id => alternates_begins_iff
  case bracketed => exact bracketed_iff

/-- An operation that was never begun runs and is finished : its one step is ended twice. -/
theorem not_bracketed :
    let opened : List (Request Char) := [.finishStep ⟨1⟩ .running, .create ⟨1⟩ 'a']
    let past := .finishStep ⟨1⟩ .finished :: opened
    (kept opened).phase ⟨1⟩ = some .running ∧ kept past = [] ∧
      stepsOf ⟨1⟩ past = [.finishStep ⟨1⟩ .finished, .finishStep ⟨1⟩ .running] ∧
      ¬ Bracketed opened ∧ ¬ Bracketed past := by
  refine ⟨rfl, rfl, rfl, ?_, ?_⟩
  · intro bracketed
    cases (bracketed.running [] _ [.create ⟨1⟩ 'a'] ⟨1⟩ rfl (by decide) rfl).1
  · intro bracketed
    have begun := bracketed.running [.finishStep ⟨1⟩ .finished] _ [.create ⟨1⟩ 'a'] ⟨1⟩ rfl
    cases (begun (by decide) rfl).1

end CoroutineTable

end CardBridge
