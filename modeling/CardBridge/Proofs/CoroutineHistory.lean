import CardBridge.Coroutine
import CardBridge.Proofs.RegistryHistory

/-!
# What a table of operations holds

The table of operations is asked to create an operation, to begin a step of it, to end the step in
some phase, and to give the operation up, in any order and under any names. `Turn` says what a
request does that is not refused, and `change` what any request makes of the entry of a name. From
that follows what the table holds after any history (`kept_orderly`) : the operations that were
created and have not come to an end since, each in the last phase of its course, with what it was
created with.

Histories are lists of requests, the last one first.
-/

namespace CardBridge

namespace CoroutineTable

variable {α : Type}

/-! ## Histories -/

/-- What a table is asked for. -/
inductive Request (α : Type)
  | create (id : CoroutineId) (payload : α)
  | begin (id : CoroutineId)
  | finishStep (id : CoroutineId) (phase : CoroutinePhase)
  | abandon (id : CoroutineId)

namespace Request

/-- The name that a request is about. -/
def id : Request α → CoroutineId
  | create id _ | begin id | finishStep id _ | abandon id => id

/-- The answer to a request : what is handed out, and the table afterwards. -/
def answer (t : CoroutineTable α) : Request α → Except Failure (Option α × CoroutineTable α)
  | create id payload => (t.create id payload).map fun t' => (none, t')
  | begin id => (t.begin id).map fun p => (some p.1, p.2)
  | finishStep id phase => (t.finishStep id phase).map fun t' => (none, t')
  | abandon id => .ok (t.abandon id)

/-- What a request makes of a table. -/
def apply (a : Request α) (t : CoroutineTable α) : CoroutineTable α :=
  match a.answer t with
  | .ok (_, t') => t'
  | .error _ => t

end Request

/-- The table after all that it was asked for. -/
def kept : List (Request α) → CoroutineTable α
  | [] => []
  | a :: past => a.apply (kept past)

/-- A request that ends the operation of a name : it is given up, or its step ends in a last
phase. -/
inductive Ends (id : CoroutineId) (t : CoroutineTable α) : Request α → Prop
  | abandon : Ends id t (.abandon id)
  | finishStep {phase : CoroutinePhase} {t' : CoroutineTable α}
    (accepted : t.finishStep id phase = .ok t') (last : phase = .finished ∨ phase = .errored) :
    Ends id t (.finishStep id phase)

/-- An operation was created under a name that was free, and nothing has ended it since. -/
inductive Started (id : CoroutineId) (payload : α) : List (Request α) → Prop
  | create {past : List (Request α)} (free : (kept past).lookup id = none) :
    Started id payload (.create id payload :: past)
  | since {a : Request α} {past : List (Request α)} (started : Started id payload past)
    (goesOn : ¬ Ends id (kept past) a) : Started id payload (a :: past)

/-- The phases that the entry of a name has had since it was made, the last one first. -/
def phases (id : CoroutineId) : List (Request α) → List CoroutinePhase
  | [] => []
  | a :: past =>
    match (kept (a :: past)).phase id with
    | none => []
    | some phase =>
      if (phases id past).head? = some phase then phases id past else phase :: phases id past

/-- The phases of an operation whose phase has changed `n` times, the last one first : it runs and
yields in turn. -/
def course : Nat → List CoroutinePhase
  | 0 => [.created]
  | n + 1 => (if n % 2 = 0 then .running else .yielded) :: course n

/-! ## One request -/

section Turns

variable {t t' : CoroutineTable α} {id : CoroutineId} {payload : α} {phase : CoroutinePhase}

theorem create_eq_ok_iff : t.create id payload = .ok t' ↔
    t.lookup id = none ∧ t' = Keyed.put id ⟨.created, payload⟩ t := by
  unfold create
  cases t.lookup id with
  | none => simp [eq_comm]
  | some e => simp [refused]

theorem begin_eq_ok_iff : t.begin id = .ok (payload, t') ↔
    ∃ e, t.lookup id = some e ∧ e.phase.canBecome .running = true ∧ payload = e.payload ∧
      t' = Keyed.put id { e with phase := .running } t := by
  unfold begin
  constructor
  · intro accepted
    split at accepted
    · cases accepted
    · split at accepted
      case isTrue found ready =>
        cases accepted
        exact ⟨_, found, ready, rfl, rfl⟩
      · cases accepted
  · rintro ⟨e, found, ready, rfl, rfl⟩
    simp only [found, ready, if_true]

theorem finishStep_eq_ok_iff : t.finishStep id phase = .ok t' ↔
    ∃ e, t.lookup id = some e ∧ e.phase.canBecome phase = true ∧
      t' = if phase.isTerminal then Keyed.erase id t else Keyed.put id { e with phase } t := by
  constructor
  · intro accepted
    rw [finishStep] at accepted
    split at accepted
    · cases accepted
    case h_2 e found =>
      split at accepted
      · cases accepted
      case isFalse next =>
        refine ⟨e, found, by simpa using next, ?_⟩
        split at accepted
        case isTrue last => rw [if_pos last, Except.ok.inj accepted]
        case isFalse last => rw [if_neg last, Except.ok.inj accepted]
  · rintro ⟨e, found, next, rfl⟩
    simp only [finishStep, found, next, Bool.not_true, Bool.false_eq_true, if_false]
    split <;> rfl

/-- What a request does that is not refused : what is handed out, and the table afterwards. -/
inductive Turn (t : CoroutineTable α) : Request α → Option α → CoroutineTable α → Prop
  | create {id : CoroutineId} {payload : α} (free : t.lookup id = none) :
    Turn t (.create id payload) none (Keyed.put id ⟨.created, payload⟩ t)
  | begin {id : CoroutineId} {e : CoroutineEntry α} (found : t.lookup id = some e)
    (ready : e.phase.canBecome .running = true) :
    Turn t (.begin id) (some e.payload) (Keyed.put id { e with phase := .running } t)
  | goesOn {id : CoroutineId} {e : CoroutineEntry α} {phase : CoroutinePhase}
    (found : t.lookup id = some e) (next : e.phase.canBecome phase = true)
    (inner : phase.isTerminal = false) :
    Turn t (.finishStep id phase) none (Keyed.put id { e with phase } t)
  | last {id : CoroutineId} {e : CoroutineEntry α} {phase : CoroutinePhase}
    (found : t.lookup id = some e) (next : e.phase.canBecome phase = true)
    (last : phase.isTerminal = true) :
    Turn t (.finishStep id phase) none (Keyed.erase id t)
  | abandon {id : CoroutineId} {e : CoroutineEntry α} (found : t.lookup id = some e) :
    Turn t (.abandon id) (some e.payload) (Keyed.erase id t)
  | nothing {id : CoroutineId} (free : t.lookup id = none) : Turn t (.abandon id) none t

theorem exists_of_map_ok {β γ ε : Type} {g : β → γ} {x : Except ε β} {c : γ}
    (h : x.map g = .ok c) : ∃ b, x = .ok b ∧ g b = c := by
  cases x with
  | error e => cases h
  | ok b => exact ⟨b, rfl, Except.ok.inj h⟩

theorem turn_of_answer {a : Request α} {handed : Option α}
    (accepted : a.answer t = .ok (handed, t')) : Turn t a handed t' := by
  cases a with
  | create id payload =>
    obtain ⟨t₁, made, eq⟩ := exists_of_map_ok accepted
    obtain ⟨free, rfl⟩ := create_eq_ok_iff.mp made
    cases eq
    exact .create free
  | begin id =>
    obtain ⟨⟨payload, t₁⟩, made, eq⟩ := exists_of_map_ok accepted
    obtain ⟨e, found, ready, rfl, rfl⟩ := begin_eq_ok_iff.mp made
    cases eq
    exact .begin found ready
  | finishStep id phase =>
    obtain ⟨t₁, made, eq⟩ := exists_of_map_ok accepted
    obtain ⟨e, found, next, rfl⟩ := finishStep_eq_ok_iff.mp made
    cases eq
    cases last : phase.isTerminal with
    | true => exact .last found next last
    | false => exact .goesOn found next last
  | abandon id =>
    have given := Except.ok.inj accepted
    unfold abandon at given
    split at given
    case h_1 free =>
      cases given
      exact .nothing free
    case h_2 e found =>
      cases given
      exact .abandon found

namespace Turn

variable {a : Request α} {handed : Option α}

/-- A turn touches at most the entry of the name that it is about. -/
theorem touches (turn : Turn t a handed t') :
    t' = t ∨ (∃ e, t' = Keyed.put a.id e t) ∨ t' = Keyed.erase a.id t := by
  cases turn with
  | create | begin | goesOn => exact .inr (.inl ⟨_, rfl⟩)
  | last | abandon => exact .inr (.inr rfl)
  | nothing => exact .inl rfl

theorem lookup_of_ne (turn : Turn t a handed t') (other : id ≠ a.id) :
    t'.lookup id = t.lookup id := by
  obtain rfl | ⟨e, rfl⟩ | rfl := turn.touches
  · rfl
  · exact Keyed.lookup_put_of_ne other e t
  · exact Keyed.lookup_erase_of_ne other t

theorem nodup (turn : Turn t a handed t') (once : (t.map Prod.fst).Nodup) :
    (t'.map Prod.fst).Nodup := by
  obtain rfl | ⟨e, rfl⟩ | rfl := turn.touches
  · exact once
  · exact Keyed.nodup_put a.id e once
  · exact Keyed.nodup_erase a.id once

end Turn

/-- A request is refused, or it is a turn. -/
theorem kept_cons (a : Request α) (past : List (Request α)) :
    (∃ why, a.answer (kept past) = .error why ∧ kept (a :: past) = kept past) ∨
      ∃ handed, Turn (kept past) a handed (kept (a :: past)) := by
  rw [kept, Request.apply]
  cases answered : a.answer (kept past) with
  | error why => exact .inl ⟨why, rfl, rfl⟩
  | ok p => exact .inr ⟨p.1, turn_of_answer answered⟩

/-- No request that is refused ends an operation. -/
theorem not_ends_of_error {a : Request α} {why : Failure} (answered : a.answer t = .error why) :
    ¬ Ends id t a := by
  rintro (_ | ⟨accepted, -⟩)
  · cases answered
  · rw [Request.answer, accepted] at answered
    cases answered

theorem Ends.id_eq {a : Request α} (ends : Ends id t a) : a.id = id := by
  cases ends <;> rfl

theorem not_ends_begin (id id' : CoroutineId) : ¬ Ends id t (.begin id') := by
  intro ends
  cases ends

/-- The phases that are last are those that end an operation. -/
theorem isTerminal_iff : phase.isTerminal = true ↔ phase = .finished ∨ phase = .errored := by
  cases phase <;> simp [CoroutinePhase.isTerminal]

theorem not_ends_finishStep {id' : CoroutineId} (inner : phase.isTerminal = false) :
    ¬ Ends id t (.finishStep id' phase) := by
  intro ends
  cases ends with
  | finishStep _ last => exact Bool.false_ne_true (inner.symm.trans (isTerminal_iff.mpr last))

/-! ## One entry -/

/-- What a request makes of the entry of a name. -/
inductive Change (id : CoroutineId) (a : Request α) (t : CoroutineTable α) :
    Option (CoroutineEntry α) → Option (CoroutineEntry α) → Prop
  | stay {e : Option (CoroutineEntry α)} (goesOn : e.isSome = true → ¬ Ends id t a) :
      Change id a t e e
  | create {payload : α} (created : a = .create id payload) :
    Change id a t none (some ⟨.created, payload⟩)
  | move {e : CoroutineEntry α} {phase : CoroutinePhase} (next : e.phase.canBecome phase = true)
    (inner : phase.isTerminal = false) (goesOn : ¬ Ends id t a) :
    Change id a t (some e) (some { e with phase })
  | last {e : CoroutineEntry α} (ends : Ends id t a) : Change id a t (some e) none

theorem change (id : CoroutineId) (a : Request α) (past : List (Request α)) :
    Change id a (kept past) ((kept past).lookup id) ((kept (a :: past)).lookup id) := by
  obtain ⟨why, answered, same⟩ | ⟨handed, turn⟩ := kept_cons a past
  · rw [same]
    exact .stay fun _ => not_ends_of_error answered
  · by_cases own : id = a.id
    case neg =>
      rw [turn.lookup_of_ne own]
      exact .stay fun _ ends => own ends.id_eq.symm
    case pos =>
      subst own
      generalize kept (a :: past) = t' at turn
      cases turn with
      | create free =>
        rw [Request.id, free, Keyed.lookup_put_self]
        exact .create rfl
      | begin found ready =>
        rw [Request.id, found, Keyed.lookup_put_self]
        exact .move ready rfl (not_ends_begin _ _)
      | goesOn found next inner =>
        rw [Request.id, found, Keyed.lookup_put_self]
        exact .move next inner (not_ends_finishStep inner)
      | @last id e phase found next last =>
        rw [Request.id, found, Keyed.lookup_erase_self]
        have accepted := finishStep_eq_ok_iff.mpr ⟨e, found, next, rfl⟩
        exact .last (.finishStep accepted (isTerminal_iff.mp last))
      | abandon found =>
        rw [Request.id, found, Keyed.lookup_erase_self]
        exact .last .abandon
      | nothing free =>
        rw [Request.id, free]
        exact .stay fun isSome => absurd isSome Bool.false_ne_true

end Turns

/-! ## Histories of an entry -/

variable {id : CoroutineId} {past : List (Request α)}

/-- The next phase of a course is the only one that may follow the last one and has something after
it. -/
theorem cons_course {n : Nat} {p q : CoroutinePhase} (now : (course n).head? = some p)
    (next : p.canBecome q = true) (inner : q.isTerminal = false) :
    q :: course n = course (n + 1) := by
  suffices turn : q = if n % 2 = 0 then .running else .yielded by
    rw [turn]
    rfl
  cases n with
  | zero =>
    cases now
    cases q <;> simp_all [CoroutinePhase.canBecome, CoroutinePhase.isTerminal]
  | succ n =>
    simp only [course, List.head?_cons, Option.some.injEq] at now
    subst now
    by_cases even : n % 2 = 0
    · rw [if_neg (by omega)]
      cases q <;> simp_all [CoroutinePhase.canBecome, CoroutinePhase.isTerminal]
    · rw [if_pos (by omega)]
      cases q <;> simp_all [CoroutinePhase.canBecome, CoroutinePhase.isTerminal]

theorem canBecome_irrefl (p : CoroutinePhase) : p.canBecome p = false := by
  cases p <;> rfl

theorem canBecome_running_iff {p : CoroutinePhase} :
    p.canBecome .running = true ↔ p = .created ∨ p = .yielded := by
  cases p <;> simp [CoroutinePhase.canBecome]

/-- The phases of an entry are a course that ends in its phase. -/
theorem phases_spec (id : CoroutineId) (past : List (Request α)) :
    match (kept past).lookup id with
    | none => phases id past = []
    | some e => ∃ n, phases id past = course n ∧ (course n).head? = some e.phase := by
  induction past with
  | nil => rfl
  | cons a past ih =>
    rw [phases, phase]
    have changed := change id a past
    generalize (kept past).lookup id = before at changed ih
    generalize (kept (a :: past)).lookup id = after at changed
    cases changed with
    | stay goesOn =>
      cases before with
      | none => rfl
      | some e =>
        obtain ⟨n, so, last⟩ := ih
        refine ⟨n, ?_, last⟩
        simp only [Option.map_some, so, last, if_true]
    | create created =>
      have first : phases id past = [] := ih
      refine ⟨0, ?_, rfl⟩
      simp [first, course]
    | @move e phase next inner goesOn =>
      obtain ⟨n, so, last⟩ := ih
      have other : e.phase ≠ phase := by
        rintro rfl
        rw [canBecome_irrefl] at next
        cases next
      have further := cons_course last next inner
      refine ⟨n + 1, ?_, by rw [← further, List.head?_cons]⟩
      simp [so, last, other, further]
    | last ends => rfl

theorem head_course (n : Nat) :
    (course n).head? = some .created ∨ (course n).head? = some .running ∨
      (course n).head? = some .yielded := by
  cases n with
  | zero => exact .inl rfl
  | succ n =>
    by_cases even : n % 2 = 0
    · exact .inr (.inl (by simp [course, even]))
    · exact .inr (.inr (by simp [course, even]))

/-- The entries are of the operations that were created and have not ended since, with what they
were created with. -/
theorem started_iff {payload : α} :
    Started id payload past ↔ ∃ e, (kept past).lookup id = some e ∧ e.payload = payload := by
  constructor
  · intro started
    induction started with
    | @create past free =>
      have made : (kept past).create id payload = .ok _ := create_eq_ok_iff.mpr ⟨free, rfl⟩
      refine ⟨⟨.created, payload⟩, ?_, rfl⟩
      rw [kept, Request.apply, Request.answer, made]
      exact Keyed.lookup_put_self id _ _
    | @since a past started goesOn ih =>
      obtain ⟨e, found, rfl⟩ := ih
      have changed := change id a past
      generalize (kept (a :: past)).lookup id = after at changed
      rw [found] at changed
      cases changed with
      | stay => exact ⟨e, rfl, rfl⟩
      | move => exact ⟨_, rfl, rfl⟩
      | last ends => exact absurd ends goesOn
  · rintro ⟨e, found, rfl⟩
    induction past generalizing e with
    | nil => cases found
    | cons a past ih =>
      have changed := change id a past
      generalize before : (kept past).lookup id = earlier at changed
      rw [found] at changed
      cases changed with
      | stay goesOn => exact .since (ih e before) (goesOn rfl)
      | create created =>
        subst created
        exact .create before
      | @move e phase next inner goesOn => exact .since (ih e before) goesOn

/-- A name is taken exactly if an operation was created under it and has not ended since. -/
theorem exists_started_iff :
    (∃ payload, Started id payload past) ↔ ((kept past).lookup id).isSome = true := by
  simp only [started_iff, Option.isSome_iff_exists]
  rw [exists_comm]
  exact exists_congr fun e => ⟨fun ⟨_, found, _⟩ => found, fun found => ⟨_, found, rfl⟩⟩

theorem nodup_kept (past : List (Request α)) : ((kept past).map Prod.fst).Nodup := by
  induction past with
  | nil => exact .nil
  | cons a past ih =>
    obtain ⟨why, -, same⟩ | ⟨handed, turn⟩ := kept_cons a past
    · rwa [same]
    · exact turn.nodup ih

theorem length_kept (past : List (Request α)) :
    (kept past).length = {id | ∃ payload, Started id payload past}.ncard := by
  have names :
      {id | ∃ payload, Started id payload past} = ↑((kept past).map Prod.fst).toFinset := by
    ext id
    rw [Set.mem_ofPred_eq, exists_started_iff, List.coe_toFinset, Set.mem_ofPred_eq,
      Keyed.mem_keys_iff]
  rw [names, Set.ncard_coe_finset, List.toFinset_card_of_nodup (nodup_kept past), List.length_map]

/-! ## The table -/

/-- The phases of an entry are a course, and its phase is the last of them. -/
theorem course_of_lookup {e : CoroutineEntry α} (found : (kept past).lookup id = some e) :
    ∃ n, phases id past = course n ∧ (phases id past).head? = some e.phase := by
  have spec := phases_spec id past
  rw [found] at spec
  obtain ⟨n, so, last⟩ := spec
  exact ⟨n, so, by rw [so, last]⟩

/-- No entry is in a phase that ends its operation. -/
theorem live_of_lookup {e : CoroutineEntry α} (found : (kept past).lookup id = some e) :
    e.phase = .created ∨ e.phase = .running ∨ e.phase = .yielded := by
  obtain ⟨n, so, last⟩ := course_of_lookup found
  rw [so] at last
  simpa only [last, Option.some.injEq] using head_course n

/-- The entry of a name disappears with a request that ends its operation, and with no other. -/
theorem lookup_cons_eq_none_iff {a : Request α} (live : ((kept past).lookup id).isSome = true) :
    (kept (a :: past)).lookup id = none ↔ Ends id (kept past) a := by
  obtain ⟨e, found⟩ := Option.isSome_iff_exists.mp live
  have changed := change id a past
  rw [found] at changed
  generalize (kept (a :: past)).lookup id = after at changed
  cases changed with
  | stay goesOn => exact iff_of_false (Option.some_ne_none e) (goesOn rfl)
  | move next inner goesOn => exact iff_of_false (Option.some_ne_none _) goesOn
  | last ends => exact iff_of_true rfl ends

/-- A step begins that follows the beginning or a yield, with what the operation was created
with. -/
theorem exists_begin_iff {payload : α} : (∃ t, (kept past).begin id = .ok (payload, t)) ↔
    Started id payload past ∧
      ((kept past).phase id = some .created ∨ (kept past).phase id = some .yielded) := by
  rw [started_iff, phase]
  constructor
  · rintro ⟨t, begun⟩
    obtain ⟨e, found, ready, rfl, -⟩ := begin_eq_ok_iff.mp begun
    refine ⟨⟨e, found, rfl⟩, ?_⟩
    rw [found]
    exact (canBecome_running_iff.mp ready).imp (congrArg some) (congrArg some)
  · rintro ⟨⟨e, found, rfl⟩, ready⟩
    rw [found] at ready
    have ready := canBecome_running_iff.mpr (ready.imp Option.some.inj Option.some.inj)
    exact ⟨_, begin_eq_ok_iff.mpr ⟨e, found, ready, rfl, rfl⟩⟩

theorem abandon_eq_some_iff {payload : α} :
    ((kept past).abandon id).1 = some payload ↔ Started id payload past := by
  rw [started_iff, abandon]
  cases (kept past).lookup id with
  | none => simp
  | some e => simp

theorem exists_finishStep_iff {t : CoroutineTable α} {next : CoroutinePhase} :
    (∃ t', t.finishStep id next = .ok t') ↔
      ∃ now, t.phase id = some now ∧ now.canBecome next = true := by
  simp only [finishStep_eq_ok_iff, phase, Option.map_eq_some_iff]
  constructor
  · rintro ⟨t', e, found, follows, -⟩
    exact ⟨e.phase, ⟨e, found, rfl⟩, follows⟩
  · rintro ⟨now, ⟨e, found, rfl⟩, follows⟩
    exact ⟨_, e, found, follows, rfl⟩

/-- An operation is created under any name that is not taken. -/
theorem exists_create_iff {payload : α} : (∃ t, (kept past).create id payload = .ok t) ↔
    ¬ ∃ payload', Started id payload' past := by
  rw [exists_started_iff, Option.not_isSome_iff_eq_none]
  constructor
  · rintro ⟨t, made⟩
    exact (create_eq_ok_iff.mp made).1
  · exact fun free => ⟨_, create_eq_ok_iff.mpr ⟨free, rfl⟩⟩

/-- What a table of operations holds and answers, after all that it was asked for. -/
structure Orderly (past : List (Request α)) : Prop where
  /-- An operation that has ended is not stored. -/
  stored : ∀ id e, (kept past).lookup id = some e →
    e.phase = .created ∨ e.phase = .running ∨ e.phase = .yielded
  /-- A refused request changes nothing, and any other one at most the entry of its name. -/
  refused : ∀ a why, a.answer (kept past) = .error why → kept (a :: past) = kept past
  apart : ∀ a id, id ≠ a.id → (kept (a :: past)).lookup id = (kept past).lookup id
  /-- The phases of an entry are a course, and its phase is the last of them. -/
  course : ∀ id e, (kept past).lookup id = some e →
    ∃ n, phases id past = course n ∧ (phases id past).head? = some e.phase
  /-- An entry disappears when its operation ends. -/
  ends : ∀ id a, ((kept past).lookup id).isSome = true →
    ((kept (a :: past)).lookup id = none ↔ Ends id (kept past) a)
  /-- What is handed out is what the operation was created with. -/
  begun : ∀ id payload, (∃ t, (kept past).begin id = .ok (payload, t)) ↔
    Started id payload past ∧
      ((kept past).phase id = some .created ∨ (kept past).phase id = some .yielded)
  abandoned : ∀ id payload, ((kept past).abandon id).1 = some payload ↔ Started id payload past
  /-- A step ends in a phase that may follow the one that the operation is in, and in no other. -/
  ended : ∀ id next, (∃ t, (kept past).finishStep id next = .ok t) ↔
    ∃ now, (kept past).phase id = some now ∧ now.canBecome next = true
  /-- The operations that were created and have not ended since are counted, and their names are
  taken. -/
  size : (kept past).length = {id | ∃ payload, Started id payload past}.ncard
  again : ∀ id payload, (∃ t, (kept past).create id payload = .ok t) ↔
    ¬ ∃ payload', Started id payload' past

/-- **What a table of operations holds.** After any history a table holds the operations that were
created and have not ended since, each in the last phase of its course and with what it was created
with. -/
theorem kept_orderly (past : List (Request α)) : Orderly past := by
  constructor
  case stored => exact fun id e found => live_of_lookup found
  case refused =>
    intro a why answered
    rw [kept, Request.apply, answered]
  case apart =>
    intro a id other
    obtain ⟨why, -, same⟩ | ⟨handed, turn⟩ := kept_cons a past
    · rw [same]
    · exact turn.lookup_of_ne other
  case course => exact fun id e found => course_of_lookup found
  case ends => exact fun id a live => lookup_cons_eq_none_iff live
  case begun => exact fun id payload => exists_begin_iff
  case abandoned => exact fun id payload => abandon_eq_some_iff
  case ended => exact fun id next => exists_finishStep_iff
  case size => exact length_kept past
  case again => exact fun id payload => exists_create_iff

end CoroutineTable

end CardBridge
