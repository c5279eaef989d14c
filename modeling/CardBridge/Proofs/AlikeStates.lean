import CardBridge.Proofs.Effects

/-!
# States that scripts do not tell apart

A step of an operation changes the queues of arguments, the table of operations, the depth, the
messages, the owners of functions and the journal. A script finds out nothing of that, unless it
asks a function of the host for it. `State.Alike` says that two states differ in nothing else.
-/

namespace CardBridge

open Script (Value)

/-- What a held function is, whose it is, and whether that environment is open. -/
def Shared.function? (s : Shared) (c : Callable) : Option (Value × Nat × Option Bool) :=
  (s.held[c.id]?).map fun h => (h.function, h.account, (s.accounts[h.account]?).map (·.isOpen))

/-- Only owners are counted otherwise and only the journal differs. -/
structure Shared.Alike (s s' : Shared) : Prop where
  slots : s'.slots = s.slots
  scripts : s'.scripts = s.scripts
  functions : s'.function? = s.function?

/-- An environment without the bookkeeping. -/
def Environment.bare (env : Environment) : Environment :=
  { env with bridge := none }

/-- A script cannot tell two states from each other, if it looks neither at the arguments that are
staged nor at the operations, the depth, the messages and the owners of functions. -/
structure State.Alike (s s' : State) : Prop where
  env : s'.env.bare = s.env.bare
  bridge : s'.env.bridge.map (fun b => (b.config, b.registry, b.noAction)) =
    s.env.bridge.map fun b => (b.config, b.registry, b.noAction)
  shared : s.shared.Alike s'.shared

namespace Shared

variable {s s' s'' : Shared}

theorem Alike.refl (s : Shared) : s.Alike s :=
  ⟨rfl, rfl, rfl⟩

theorem Alike.trans (h : s.Alike s') (h' : s'.Alike s'') : s.Alike s'' :=
  ⟨h'.slots.trans h.slots, h'.scripts.trans h.scripts, h'.functions.trans h.functions⟩

theorem alike_own (s : Shared) (c : Callable) : s.Alike (s.own c) := by
  refine ⟨rfl, rfl, funext fun c' => ?_⟩
  unfold function? own
  rw [Array.getElem?_modify]
  by_cases same : c.id = c'.id
  · cases s.held[c'.id]? <;> simp [same]
  · simp [same]

theorem alike_disown (s : Shared) (c : Callable) : s.Alike (s.disown c) := by
  unfold disown
  split
  · exact .refl s
  case h_2 h hc =>
    have fewer : s.Alike { s with
        held := s.held.modify c.id fun h => { h with owners := h.owners - 1 } } := by
      refine ⟨rfl, rfl, funext fun c' => ?_⟩
      unfold function?
      rw [Array.getElem?_modify]
      by_cases same : c.id = c'.id
      · cases s.held[c'.id]? <;> simp [same]
      · simp [same]
    dsimp only
    split
    · refine fewer.trans ⟨rfl, rfl, funext fun c' => ?_⟩
      unfold function?
      congr 1
      funext g
      simp only [Prod.mk.injEq, true_and, Array.getElem?_modify]
      by_cases same : h.account = g.account
      · cases s.accounts[g.account]? <;> simp [same]
      · simp [same]
    · exact fewer

theorem alike_ownArgument (s : Shared) (a : Argument) : s.Alike (s.ownArgument a) := by
  cases a with
  | function c => exact s.alike_own c
  | nil | int | bool | text | object | value => exact .refl s

theorem alike_disownAll (args : List Argument) : ∀ s : Shared, s.Alike (s.disownAll args) := by
  induction args with
  | nil => exact .refl
  | cons a args ih =>
    intro s
    refine Alike.trans ?_ (ih (s.disownArgument a))
    cases a with
    | function c => exact s.alike_disown c
    | nil | int | bool | text | object | value => exact .refl s

end Shared

namespace State

variable {s s' s'' : State}

theorem Alike.refl (s : State) : s.Alike s :=
  ⟨rfl, rfl, .refl _⟩

theorem Alike.trans (h : s.Alike s') (h' : s'.Alike s'') : s.Alike s'' :=
  ⟨h'.env.trans h.env, h'.bridge.trans h.bridge, h.shared.trans h'.shared⟩

theorem Alike.memory (h : s.Alike s') : s'.env.memory = s.env.memory :=
  (congrArg Environment.memory h.env :)

theorem resolve_eq (s : State) (c : Callable) : s.resolve c =
    match s.shared.function? c with
    | some (f, a, some true) =>
      match s.env.account with
      | some a' => if a = a' then .ok f else .error .foreignCallable
      | none => .error .environmentClosed
    | _ => .error .environmentClosed := by
  unfold resolve isValid Shared.function?
  cases s.shared.held[c.id]? with
  | none => simp
  | some h =>
    cases ha : s.shared.accounts[h.account]? with
    | none => simp [ha]
    | some a =>
      cases ho : a.isOpen <;> simp [ha, ho]
      cases s.env.account <;> rfl

theorem Alike.resolve (h : s.Alike s') (c : Callable) : s'.resolve c = s.resolve c := by
  have account : s'.env.account = s.env.account :=
    (congrArg Environment.account h.env :)
  rw [resolve_eq, resolve_eq, h.shared.functions, account]

/-- The bookkeeping is changed where no script looks. -/
theorem alike_updateBridge (s : State) {f : Bridge → Bridge}
    (h : ∀ b, (f b).config = b.config ∧ (f b).registry = b.registry ∧ (f b).noAction = b.noAction) :
    s.Alike (s.updateBridge f) := by
  refine ⟨rfl, ?_, .refl _⟩
  cases hb : s.env.bridge <;> simp [hb, h]

theorem alike_setQueue (s : State) (q : Queue) (args : ArgumentQueue) :
    s.Alike (s.updateBridge (·.setQueue q args)) :=
  s.alike_updateBridge fun b => by cases q <;> exact ⟨rfl, rfl, rfl⟩

theorem alike_clear (s : State) (q : Queue) : s.Alike (s.clear q) :=
  ⟨(s.alike_setQueue q []).env, (s.alike_setQueue q []).bridge, Shared.alike_disownAll _ _⟩

theorem alike_record (s : State) (e : Event) : s.Alike (s.record e) :=
  ⟨rfl, rfl, rfl, rfl, rfl⟩

theorem alike_emit (s : State) (kind : MessageKind) (text : String) :
    s.Alike (s.emit kind text) := by
  unfold emit
  split
  · split
    · exact s.alike_record _
    · exact .refl s
  · exact .refl s

theorem alike_report (s : State) (site : String) (f : Failure) : s.Alike (s.report site f) := by
  refine s.report_induction (fun t messages h => h.trans ?_)
    (fun t kind text h => h.trans (t.alike_emit kind text)) (.refl s) site f
  exact t.alike_updateBridge fun b => ⟨rfl, rfl, rfl⟩

theorem alike_leaveGuard (s : State) : s.Alike s.leaveGuard := by
  have counted := s.alike_updateBridge (f := fun b => { b with depth := b.depth.leave })
    fun b => ⟨rfl, rfl, rfl⟩
  unfold leaveGuard
  split
  · exact .refl s
  · dsimp only
    split
    · split
      · exact counted.trans (alike_record _ _)
      · exact counted
    · exact counted

theorem alike_endStep (s : State) (id : CoroutineId) (phase : CoroutinePhase) :
    s.Alike (s.endStep id phase) := by
  refine s.alike_updateBridge fun b => ?_
  split <;> exact ⟨rfl, rfl, rfl⟩

theorem alike_stage (s : State) (q : Queue) (front : Bool) (a : Argument) :
    s.Alike (s.stage q front a) := by
  unfold stage
  split
  · exact .refl s
  · exact ⟨(s.alike_setQueue q _).env, (s.alike_setQueue q _).bridge, Shared.alike_ownArgument _ _⟩

end State

end CardBridge
