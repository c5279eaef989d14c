import CardBridge.Proofs.Surroundings

/-!
# Looking up members

What a look-up in a table finds, where nothing stands behind the table (`Memory.Bare`) or one other
table does (`Memory.Inherits`) : then no function of a metatable is called, and the look-up is three
steps of a script at most. The member of a game object is looked up in the class of the card, if its
global is a table, and in that of the kind otherwise (`State.memberTable`). So what it is can be
read off the memory (`Code.gives_lookupMember_iff`), and a script that asks for it gets that
(`Code.gives_member_iff`).
-/

namespace CardBridge

open Script (Value Memory Completion)

/-! ## Tables -/

namespace Script.Memory

variable {m : Memory} {t c : Nat} {key : Value}

/-- Nothing stands behind a table where it has no value. -/
def Bare (m : Memory) (t : Nat) : Prop :=
  m.metafield (.table t) .index = .nil

/-- Where the table `t` has no value the table `c` is asked, and nothing stands behind that. -/
structure Inherits (m : Memory) (t c : Nat) : Prop where
  behind : m.metafield (.table t) .index = .table c
  last : m.Bare c

/-- The table that is asked for a value leads to it without a function being called, and it is
`v`. -/
inductive Finds (m : Memory) (t : Nat) (key : Value) : Value → Prop
  | own (h : m.rawGet t key ≠ .nil) : Finds m t key (m.rawGet t key)
  | bare (h : m.Bare t) : Finds m t key (m.rawGet t key)
  | inherited {c : Nat} (h : m.rawGet t key = .nil) (inherits : m.Inherits t c) :
    Finds m t key (m.rawGet c key)

theorem step_index_own {site : Site} {n : Nat} {base : Base} (h : m.rawGet t key ≠ .nil) :
    State.step ⟨m, .index (.table t) key site n, [], base⟩ =
      .next ⟨m, .give [m.rawGet t key], [], base⟩ := by
  simp only [State.step, State.index]
  rfl

theorem step_index_bare {site : Site} {n : Nat} {base : Base} (h : m.Bare t) :
    State.step ⟨m, .index (.table t) key site n, [], base⟩ =
      .next ⟨m, .give [m.rawGet t key], [], base⟩ := by
  by_cases own : m.rawGet t key = .nil
  · simp only [State.step, State.index, own]
    rw [h]
    rfl
  · exact step_index_own own

theorem step_index_inherited {site : Site} {base : Base} (h : m.rawGet t key = .nil)
    (inherits : m.Inherits t c) :
    State.step ⟨m, .index (.table t) key site 0, [], base⟩ =
      .next ⟨m, .index (.table c) key { site with name := none } 1, [], base⟩ := by
  simp only [State.step, State.index, h, inherits.behind]
  rfl

end Script.Memory

namespace Machine

variable {host : Host} {K : List Frame} {s : State} {t : Nat} {key v : Value}

/-- Once a look-up has its value, it has come to its end. -/
theorem completes_of_give {task : Task} (h : Steps host K
      ⟨s, .script (taskControl task) [] (baseOf K), K⟩ ⟨s, .script (.give [v]) [] (baseOf K), K⟩) :
    Completes host K s task (.returned [v]) s :=
  ⟨s, _, _, _, s.env.memory, h, rfl, rfl⟩

theorem completes_index (h : s.env.memory.Finds t key v) :
    Completes host K s (.index (.table t) key) (.returned [v]) s := by
  refine completes_of_give ?_
  cases h with
  | own own =>
    exact .script (Memory.step_index_own own) List.suffix_rfl (.done _)
  | bare bare =>
    exact .script (Memory.step_index_bare bare) List.suffix_rfl (.done _)
  | inherited nothing inherits =>
    exact .script (Memory.step_index_inherited nothing inherits) List.suffix_rfl
      (.script (Memory.step_index_bare inherits.last) List.suffix_rfl (.done _))

end Machine

/-! ## Members -/

/-- The table in which the members of an object are looked up. -/
def State.memberTable (s : State) (kind : ObjectKind) (cls : Option String) : Option Nat :=
  match cls.map s.global, s.global kind.className with
  | some (.table t), _ => some t
  | _, .table t => some t
  | _, _ => none

/-- What a look-up of a member finds, as far as no function of a metatable is called. -/
inductive State.MemberOf (s : State) (kind : ObjectKind) (cls : Option String) (key : Value) :
    Value → Prop
  | nowhere (h : s.memberTable kind cls = none) : MemberOf s kind cls key .nil
  | found {t : Nat} {v : Value} (h : s.memberTable kind cls = some t)
    (finds : s.env.memory.Finds t key v) : MemberOf s kind cls key v

theorem State.memberTable_congr {s s' : State} (same : s'.env.memory = s.env.memory)
    (kind : ObjectKind) (cls : Option String) :
    s'.memberTable kind cls = s.memberTable kind cls := by
  have globals : s'.global = s.global := by
    funext name
    simp only [State.global, same]
  simp only [State.memberTable, globals]

/-- It depends on the memory only. -/
theorem State.memberOf_congr {s s' : State} (same : s'.env.memory = s.env.memory)
    {kind : ObjectKind} {cls : Option String} {key v : Value} :
    s'.MemberOf kind cls key v ↔ s.MemberOf kind cls key v := by
  have tables := memberTable_congr same kind cls
  constructor
  · intro member
    cases member with
    | nowhere h => exact .nowhere (tables ▸ h)
    | found h finds => exact .found (tables ▸ h) (same ▸ finds)
  · intro member
    cases member with
    | nowhere h => exact .nowhere (tables.trans h)
    | found h finds => exact .found (tables.trans h) (same.symm ▸ finds)

/-- A game object that is not deleted has the value `v` for a member. -/
def State.Member (s : State) (n : Nat) (key v : Value) : Prop :=
  (s.object n).kind ≠ .deleted ∧ s.MemberOf (s.object n).kind (s.object n).cls key v

namespace Code

variable {host : Host} {K : List Frame} {s s' : State} {r : Reply} {key v : Value}

theorem gives_index_iff {t : Nat} (finds : s.env.memory.Finds t key v) :
    Gives host K s (attempt (.index (.table t) key) values fun text => finish (.raised text)) r s' ↔
      r = .answer (.values [v]) ∧ s' = s := by
  have found : Gives host K s
      (attempt (.index (.table t) key) values fun text => finish (.raised text))
      (.answer (.values [v])) s :=
    gives_run_iff.mpr ⟨_, s, Machine.completes_index finds, .finish⟩
  refine ⟨fun gives => ?_, ?_⟩
  · obtain ⟨rfl, rfl⟩ := found.unique gives
    exact ⟨rfl, rfl⟩
  · rintro ⟨rfl, rfl⟩
    exact found

theorem lookupMember_eq {kind : ObjectKind} (live : kind ≠ .deleted) (cls : Option String) :
    lookupMember kind cls key = read fun s =>
      match s.memberTable kind cls with
      | some t => attempt (.index (.table t) key) values fun text => finish (.raised text)
      | none => values [.nil] := by
  rw [lookupMember, if_neg live]
  refine congrArg read (funext fun s => ?_)
  unfold State.memberTable
  dsimp only
  split <;> simp [*]

theorem gives_lookupMember_iff {kind : ObjectKind} (live : kind ≠ .deleted) {cls : Option String}
    (member : s.MemberOf kind cls key v) :
    Gives host K s (lookupMember kind cls key) r s' ↔ r = .answer (.values [v]) ∧ s' = s := by
  rw [lookupMember_eq live, gives_read_iff]
  cases member with
  | nowhere h =>
    rw [h]
    exact gives_finish_iff
  | found h finds =>
    rw [h]
    exact gives_index_iff finds

/-- A script that asks a game object for a member gets it. -/
theorem gives_member_iff {lent : Nat → List Value → Code} {n : Nat} (member : s.Member n key v) :
    Gives host K s (native lent .member [.object n, key]) r s' ↔
      r = .answer (.values [v]) ∧ s' = s := by
  have alive : (s.object n).deleted = false :=
    Bool.of_not_eq_true fun dead => member.1 (if_pos dead)
  have asks : native lent .member [.object n, key] =
      askObject (.object n) [inertMember key] fun g => lookupMember g.kind g.cls key := rfl
  rw [asks, askObject, gives_read_iff]
  simp only [alive]
  exact gives_lookupMember_iff member.1 member.2

end Code

end CardBridge
