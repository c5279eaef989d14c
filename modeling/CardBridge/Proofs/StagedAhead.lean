import CardBridge.Proofs.Surroundings
import CardBridge.Proofs.UnawareCode

/-!
# Arguments staged ahead

What happens while arguments wait in the queue for calls is the same as what happens without them,
if it neither looks at the queue nor changes it. For a change of the state this means that it may be
made before or after an argument is staged (`State.apply_stage`), and for the scopes the same
(`State.enter_stage`, `State.leave_stage`). Only the last owner of a staged function makes a
difference, since that function is not held any more without it.

A moment at which nothing looks at the queue or changes it is a `Machine.LeavesQueue`. Steps through
such moments are the same steps with arguments staged (`Machine.Steps.stageAll`), and moments at
which all code is unaware of the queue are of this kind (`Machine.Codes.leavesQueue`).
-/

namespace CardBridge

open Script (Value)

/-! ## Owners -/

namespace Shared

/-- The owners of a held function. -/
def owners (s : Shared) (c : Callable) : Nat :=
  ((s.held[c.id]?).map (·.owners)).getD 0

variable {s : Shared} {c d : Callable}

theorem modify_modify {α : Type} {xs : Array α} {i j : Nat} {f g : α → α}
    (h : ∀ x, xs[i]? = some x → i = j → g (f x) = f (g x)) :
    (xs.modify i f).modify j g = (xs.modify j g).modify i f := by
  refine Array.ext_getElem? fun n => ?_
  simp only [Array.getElem?_modify]
  by_cases hi : i = n
  · by_cases hj : j = n
    · subst hi hj
      cases hx : xs[j]? with
      | none => simp
      | some x => simpa [hx] using h x hx rfl
    · simp [hi, hj]
  · simp [hi]

theorem own_own : (s.own c).own d = (s.own d).own c :=
  congrArg (fun held => { s with held }) (modify_modify fun _ _ _ => rfl)

theorem disown_of_held {h : HeldFunction} (hd : s.held[d.id]? = some h) : s.disown d =
    { s with
      held := s.held.modify d.id fun h => { h with owners := h.owners - 1 }
      accounts := if h.owners = 1 then
        s.accounts.modify h.account fun a => { a with held := a.held - 1 } else s.accounts } := by
  unfold disown
  rw [hd]
  dsimp only
  split <;> rfl

theorem disown_of_none (hd : s.held[d.id]? = none) : s.disown d = s := by
  unfold disown
  rw [hd]

theorem owners_disown_le : (s.disown d).owners c ≤ s.owners c := by
  cases hd : s.held[d.id]? with
  | none => exact Nat.le_of_eq (congrArg (owners · c) (disown_of_none hd))
  | some h =>
    rw [disown_of_held hd]
    simp only [owners, Array.getElem?_modify]
    split
    · cases s.held[c.id]? <;> simp
    · exact Nat.le_refl _

/-- It makes no difference whether a function gets an owner before or after another owner is gone,
unless that was the last one. -/
theorem disown_own (h : 0 < (s.disown d).owners c) :
    (s.own c).disown d = (s.disown d).own c := by
  have held_own : (s.own c).held[d.id]? =
      if c.id = d.id then s.held[d.id]?.map fun h => { h with owners := h.owners + 1 }
      else s.held[d.id]? := by
    simp [own, Array.getElem?_modify]
  cases hd : s.held[d.id]? with
  | none =>
    rw [disown_of_none hd, disown_of_none (by rw [held_own, hd]; split <;> rfl)]
  | some x =>
    rw [disown_of_held hd] at h ⊢
    by_cases same : c.id = d.id
    · have two : 0 < x.owners - 1 := by
        simpa [owners, same, hd, Array.getElem?_modify] using h
      have last : x.owners ≠ 1 := by omega
      have none : x.owners + 1 ≠ 1 := by omega
      rw [if_pos same, hd, Option.map_some] at held_own
      rw [disown_of_held held_own, if_neg last, if_neg none]
      simp only [own, mk.injEq, true_and, and_true]
      refine modify_modify fun y hy _ => ?_
      rw [same, hd] at hy
      cases hy
      simp only [HeldFunction.mk.injEq, true_and]
      omega
    · rw [if_neg same, hd] at held_own
      rw [disown_of_held held_own]
      simp only [own, mk.injEq, true_and, and_true]
      exact modify_modify fun _ _ eq => absurd eq same

theorem dropSlot_own {slot : String} (h : 0 < (s.dropSlot slot).owners c) :
    (s.own c).dropSlot slot = (s.dropSlot slot).own c := by
  unfold dropSlot at h ⊢
  cases hl : s.slots.lookup slot with
  | none => simp only [own, hl]
  | some d =>
    rw [hl] at h
    simp only [own, hl]
    exact disown_own h

theorem fillSlot_own {slot : String} (h : 0 < (s.fillSlot slot d).owners c) :
    (s.own c).fillSlot slot d = (s.fillSlot slot d).own c := by
  have drop : (s.own c).dropSlot slot = (s.dropSlot slot).own c := dropSlot_own h
  simp only [fillSlot, drop]
  rfl

theorem owners_foldl_disown_le (ds : List Callable) :
    ∀ s : Shared, (ds.foldl disown s).owners c ≤ s.owners c := by
  induction ds with
  | nil => exact fun s => Nat.le_refl _
  | cons d ds ih => exact fun s => Nat.le_trans (ih _) owners_disown_le

theorem foldl_disown_own (ds : List Callable) : ∀ {s : Shared},
    0 < (ds.foldl disown s).owners c →
      ds.foldl disown (s.own c) = (ds.foldl disown s).own c := by
  induction ds with
  | nil => exact fun _ => rfl
  | cons d ds ih =>
    intro s h
    have first : 0 < (s.disown d).owners c := Nat.lt_of_lt_of_le h (owners_foldl_disown_le ds _)
    rw [List.foldl_cons, disown_own first]
    exact ih h

theorem foldl_own_own (ds : List Callable) :
    ∀ s : Shared, ds.foldl own (s.own c) = (ds.foldl own s).own c := by
  induction ds with
  | nil => exact fun _ => rfl
  | cons d ds ih =>
    intro s
    rw [List.foldl_cons, own_own]
    exact ih _

/-- What is shared when a function is held in a slot for an account. -/
def withHeld (s : Shared) (f : Value) (account : Nat) (slot : String) : Shared :=
  { s with
    accounts := s.accounts.modify account fun x => { x with held := x.held + 1 }
    held := s.held.push ⟨f, account, 1⟩ }.fillSlot slot ⟨s.held.size⟩

theorem withHeld_own {f : Value} {account : Nat} {slot : String} (before : 0 < s.owners c)
    (after : 0 < (s.withHeld f account slot).owners c) :
    (s.own c).withHeld f account slot = (s.withHeld f account slot).own c := by
  have old : c.id < s.held.size := by
    refine Nat.lt_of_not_le fun new => ?_
    simp [owners, Array.getElem?_eq_none new] at before
  have pushed : (s.held.modify c.id fun h => { h with owners := h.owners + 1 }).push
      ⟨f, account, 1⟩ = (s.held.push ⟨f, account, 1⟩).modify c.id fun h =>
        { h with owners := h.owners + 1 } := by
    refine Array.ext_getElem? fun n => ?_
    simp only [Array.getElem?_push, Array.getElem?_modify, Array.size_modify]
    by_cases last : n = s.held.size
    · rw [if_pos last, if_neg (by omega), if_pos last]
    · rw [if_neg last, if_neg last]
  refine Eq.trans ?_ (fillSlot_own after)
  simp only [withHeld, own, pushed, Array.size_modify]

theorem ownArgument_comm {F : Shared → Shared} {a : Argument}
    (h : ∀ c, a = .function c → F (s.own c) = (F s).own c) :
    F (s.ownArgument a) = (F s).ownArgument a := by
  cases a with
  | function c => exact h c rfl
  | nil | int | bool | text | object | value => rfl

/-- The functions among some arguments. -/
def callables (args : List Argument) : List Callable :=
  args.filterMap fun
    | .function c => some c
    | _ => none

theorem disownAll_eq (args : List Argument) :
    ∀ s : Shared, s.disownAll args = (callables args).foldl disown s := by
  induction args with
  | nil => exact fun _ => rfl
  | cons a args ih =>
    intro s
    refine (ih (s.disownArgument a)).trans ?_
    cases a <;> rfl

end Shared

/-! ## Changes and scopes -/

namespace State

variable {s : State} {a : Argument}

/-- A function among some arguments has an owner. -/
def Owns (s : State) (args : List Argument) : Prop :=
  ∀ c, .function c ∈ args → 0 < s.owners c

theorem stage_foreign (hb : s.env.bridge = none) (q : Queue) (front : Bool) (a : Argument) :
    s.stage q front a = s := by
  unfold stage
  rw [hb]

theorem Owns.of_eq {c : Callable} (h : s.Owns [a]) (eq : a = .function c) :
    0 < s.shared.owners c :=
  h c (eq ▸ List.mem_singleton_self _)

theorem record_stage (e : Event) :
    (s.stage .call false a).record e = (s.record e).stage .call false a := by
  unfold stage
  cases hb : s.env.bridge with
  | none => simp [hb]
  | some b =>
    simp only [record_env, hb]
    exact congrArg (State.mk _) (Shared.ownArgument_comm (F := (·.record e)) fun _ _ => rfl)

theorem emit_stage (kind : MessageKind) (text : String) :
    (s.stage .call false a).emit kind text = (s.emit kind text).stage .call false a := by
  unfold emit
  rw [stage_env]
  dsimp only
  split
  · split
    · exact record_stage _
    · rfl
  · rfl

/-- A change of the bookkeeping that has nothing to do with the queue. -/
theorem updateBridge_stage {f : Bridge → Bridge} (same : ∀ b, (f b).params = b.params)
    (other : ∀ b params, f { b with params } = { f b with params }) :
    (s.stage .call false a).updateBridge f = (s.updateBridge f).stage .call false a := by
  unfold stage
  cases hb : s.env.bridge with
  | none => simp [hb]
  | some b =>
    simp only [updateBridge, hb, Option.map_some, Bridge.setQueue, Bridge.queue, same]
    rw [other]

theorem report_stage (site : String) (f : Failure) :
    (s.stage .call false a).report site f = (s.report site f).stage .call false a := by
  cases hb : s.env.bridge with
  | none =>
    have still : (s.report site f).env.bridge = none := Update.apply_foreign (.report site f) hb
    rw [stage_foreign hb, stage_foreign still]
  | some b =>
    unfold report
    have noted (messages : MessageBuffer) :
        (s.stage .call false a).updateBridge (fun b => { b with messages }) =
          (s.updateBridge fun b => { b with messages }).stage .call false a :=
      updateBridge_stage (fun _ => rfl) fun _ _ => rfl
    simp only [stage_env, hb, Option.map_some, Bridge.setQueue, noted, emit_stage]
    split
    · split <;> rfl
    · split <;> simp only [emit_stage]

theorem register_stage (o : ObjectRef) (cls : Option String) :
    (s.stage .call false a).register o cls = (s.register o cls).stage .call false a := by
  obtain ⟨⟨session, memory, objects, bridge, account, reader, handles, hooked⟩, shared⟩ := s
  cases bridge with
  | none => rfl
  | some b =>
    simp only [stage, register, updateBridge, Option.map_some, Bridge.setQueue]
    cases b.registry.payload o with
    | none => rfl
    | some n =>
      dsimp only [refresh]
      split <;> rfl

theorem apply_stage {u : Update} (h : ¬ u.Touches .call) (before : s.Owns [a])
    (after : (u.apply s).Owns [a]) :
    u.apply (s.stage .call false a) = (u.apply s).stage .call false a := by
  cases hb : s.env.bridge with
  | none => rw [stage_foreign hb, stage_foreign (u.apply_foreign hb)]
  | some b =>
    obtain ⟨⟨session, memory, objects, _, account, reader, handles, hooked⟩, shared⟩ := s
    obtain rfl : _ = some b := hb
    cases u with
    | stage q front a' =>
      cases q with
      | call => exact absurd rfl h
      | resume =>
        refine congrArg (State.mk _) (Shared.ownArgument_comm (F := (·.ownArgument a')) ?_)
        rintro c rfl
        exact (Shared.ownArgument_comm (F := (·.own c)) fun _ _ => Shared.own_own).symm
    | clear q =>
      cases q with
      | call => exact absurd rfl h
      | resume =>
        refine congrArg (State.mk _)
          (Shared.ownArgument_comm (F := (·.disownAll b.resumes)) fun c eq => ?_)
        have owned := after.of_eq eq
        simp only [Shared.disownAll_eq]
        refine Shared.foldl_disown_own _ ?_
        rw [← Shared.disownAll_eq]
        exact owned
    | register o cls => simp only [Update.apply, register_stage]
    | unregister o => rfl
    | abandon id => rfl
    | emit kind text => simp only [Update.apply, emit_stage]
    | report site f => simp only [Update.apply, report_stage]
    | hold slot f =>
      cases account with
      | none => rfl
      | some account =>
        exact congrArg (State.mk _) (Shared.ownArgument_comm (F := (·.withHeld f account slot))
          fun c eq => Shared.withHeld_own (before.of_eq eq) (after.of_eq eq))
    | copySlot source target =>
      have slots : (shared.ownArgument a).slots = shared.slots := by cases a <;> rfl
      simp only [Update.apply, copySlot] at after ⊢
      cases hl : shared.slots.lookup source with
      | none => simp [stage, slots, hl]
      | some d =>
        rw [hl] at after
        simp only [stage, slots, hl]
        refine congrArg (State.mk _)
          (Shared.ownArgument_comm (F := fun s => (s.own d).fillSlot target d) fun c eq => ?_)
        rw [Shared.own_own]
        exact Shared.fillSlot_own (after.of_eq eq)
    | dropSlot slot =>
      exact congrArg (State.mk _) (Shared.ownArgument_comm (F := (·.dropSlot slot)) fun c eq =>
        Shared.dropSlot_own (after.of_eq eq))
    | makeClass | makeTable | addChunk => rfl
    | called name args =>
      exact congrArg (State.mk _) (Shared.ownArgument_comm (F := (·.record _)) fun _ _ => rfl)
    | ended name r =>
      exact congrArg (State.mk _) (Shared.ownArgument_comm (F := (·.record _)) fun _ _ => rfl)

theorem enter_stage {scope : Scope} :
    scope.enter (s.stage .call false a) =
      (scope.enter s).map fun (o, s') => (o, s'.stage .call false a) := by
  cases hb : s.env.bridge with
  | none =>
    rw [stage_foreign hb]
    cases he : scope.enter s with
    | error f => rfl
    | ok entered =>
      obtain ⟨o, s'⟩ := entered
      have still : s'.env.bridge = none :=
        (Effect.enter scope he : Effect s [] [] s' [o]).foreign hb
      simp only [Except.map, stage_foreign still]
  | some b =>
    obtain ⟨⟨session, memory, objects, _, account, reader, handles, hooked⟩, shared⟩ := s
    obtain rfl : _ = some b := hb
    cases scope with
    | guard =>
      simp only [Scope.enter, enterGuard, stage, updateBridge, Option.map_some, Bridge.setQueue]
      cases b.depth.enter? <;> rfl
    | query | loading code => rfl
    | start id f =>
      simp only [Scope.enter, startStep, stage, updateBridge, Option.map_some, Bridge.setQueue]
      cases b.coroutines.create id (memory.addThread f).1 with
      | error e => rfl
      | ok t =>
        simp only [beginStep, setMemory, updateBridge, bind, Except.bind, Option.map_some]
        cases t.begin id <;> rfl
    | proceed id =>
      simp only [Scope.enter, beginStep, stage, updateBridge, Option.map_some, Bridge.setQueue]
      cases b.coroutines.begin id <;> rfl
    | holding cs =>
      refine congrArg (fun shared => Except.ok (Open.holding cs, State.mk _ shared))
        (Shared.ownArgument_comm (F := (cs.foldl Shared.own ·)) fun c _ => ?_)
      exact Shared.foldl_own_own cs shared

theorem leave_stage {o : Open} {r : Reply} (after : (o.leave s r).Owns [a]) :
    o.leave (s.stage .call false a) r = (o.leave s r).stage .call false a := by
  cases hb : s.env.bridge with
  | none =>
    have still : (o.leave s r).env.bridge = none :=
      (Effect.leave o r : Effect s [o] [] (o.leave s r) []).foreign hb
    rw [stage_foreign hb, stage_foreign still]
  | some b =>
    cases o with
    | guard =>
      have left :
          (s.stage .call false a).updateBridge (fun b => { b with depth := b.depth.leave }) =
          (s.updateBridge fun b => { b with depth := b.depth.leave }).stage .call false a :=
        updateBridge_stage (fun _ => rfl) fun _ _ => rfl
      simp only [Open.leave, leaveGuard, stage_env, hb, Option.map_some, Bridge.setQueue, left]
      split
      · split
        · exact record_stage _
        · rfl
      · rfl
    | query => exact updateBridge_stage (fun _ => rfl) fun _ _ => rfl
    | step id thread =>
      refine updateBridge_stage (fun b => ?_) fun b params => ?_
      · split <;> rfl
      · dsimp only
        split <;> rfl
    | loading cls table code =>
      simp only [Open.leave, endLoading, stage, hb, setMemory, updateBridge]
    | holding cs =>
      simp only [Open.leave, stage, hb, updateBridge]
      refine congrArg (State.mk _)
        (Shared.ownArgument_comm (F := (cs.foldl Shared.disown ·)) fun c eq => ?_)
      exact Shared.foldl_disown_own cs (after.of_eq eq)

theorem stage_memory : (s.stage .call false a).env.memory = s.env.memory := by
  rw [stage_env]

theorem setMemory_stage (m : Script.Memory) :
    (s.stage .call false a).setMemory m = (s.setMemory m).stage .call false a := by
  unfold stage
  cases hb : s.env.bridge with
  | none => simp [hb]
  | some b => simp [hb, setMemory, updateBridge]

/-! ### Several arguments -/

variable {args : List Argument}

theorem Owns.mono {args' : List Argument} (h : s.Owns args) (le : args' ⊆ args) : s.Owns args' :=
  fun c mem => h c (le mem)

theorem Owns.stage (h : s.Owns args) : (s.stage .call false a).Owns args := by
  intro c mem
  have more (t : Shared) : t.owners c ≤ (t.ownArgument a).owners c := by
    cases a with
    | function d =>
      simp only [Shared.owners, Shared.ownArgument, Shared.own, Array.getElem?_modify]
      split
      · cases t.held[c.id]? <;> simp
      · exact Nat.le_refl _
    | nil | int | bool | text | object | value => exact Nat.le_refl _
  unfold State.stage
  split
  · exact h c mem
  · exact Nat.lt_of_lt_of_le (h c mem) (more s.shared)

/-- What may be done before or after one argument is staged may be done before or after several
are. -/
theorem stageAll_comm {F : State → State}
    (one : ∀ {s : State} {a : Argument}, s.Owns [a] → (F s).Owns [a] →
      F (s.stage .call false a) = (F s).stage .call false a) :
    ∀ {args : List Argument} {s : State}, s.Owns args → (F s).Owns args →
      F (s.stageAll args) = (F s).stageAll args
  | [], _, _, _ => rfl
  | a :: args, s, before, after => by
    have first := one (before.mono (List.cons_subset_cons a (List.nil_subset args)))
      (after.mono (List.cons_subset_cons a (List.nil_subset args)))
    have rest := stageAll_comm one (before.mono (List.subset_cons_self a args)).stage
      (first ▸ (after.mono (List.subset_cons_self a args)).stage)
    exact rest.trans (congrArg (stageAll · args) first)

theorem enter_stageAll {scope : Scope} (args : List Argument) : ∀ s : State,
    scope.enter (s.stageAll args) =
      (scope.enter s).map fun (o, s') => (o, s'.stageAll args) := by
  induction args with
  | nil =>
    intro s
    cases h : scope.enter s <;> simp [stageAll, h, Except.map]
  | cons a args ih =>
    intro s
    refine (ih (s.stage .call false a)).trans ?_
    rw [enter_stage]
    cases scope.enter s <;> rfl

theorem stageAll_memory (args : List Argument) :
    ∀ s : State, (s.stageAll args).env.memory = s.env.memory := by
  induction args with
  | nil => exact fun _ => rfl
  | cons a args ih => exact fun s => (ih (s.stage .call false a)).trans stage_memory

theorem setMemory_stageAll (m : Script.Memory) (args : List Argument) :
    ∀ s : State, (s.stageAll args).setMemory m = (s.setMemory m).stageAll args := by
  induction args with
  | nil => exact fun _ => rfl
  | cons a args ih =>
    exact fun s =>
      (ih (s.stage .call false a)).trans (congrArg (stageAll · args) (setMemory_stage m))

end State

/-! ## Moments -/

namespace Machine

/-- The same moment with more arguments staged for calls. -/
def stageAll (m : Machine) (args : List Argument) : Machine :=
  ⟨m.state.stageAll args, m.activity, m.stack⟩

/-- What happens next does not change the queue for calls, and is the same if `args` are staged. -/
def LeavesQueue (args : List Argument) (m : Machine) : Prop :=
  match m.activity with
  | .host (.read k) => k (m.state.stageAll args) = k m.state
  | .host (.write u _) => ¬ u.Touches .call
  | _ => True

variable {host : Host} {K : List Frame} {m m' : Machine} {args : List Argument}

theorem step_stageAll (h : m.step host = .next m') (leaves : m.LeavesQueue args)
    (before : m.state.Owns args) (after : m'.state.Owns args) :
    (m.stageAll args).step host = .next (m'.stageAll args) := by
  obtain ⟨s, activity, stack⟩ := m
  cases activity with
  | host c =>
    cases c with
    | finish r =>
      cases stack with
      | nil => cases h
      | cons F K =>
        cases F with
        | scope o k =>
          cases h
          have left := State.stageAll_comm (F := (o.leave · r))
            (fun _ after => State.leave_stage after) before after
          simp only [stageAll, Machine.step, stepHost, left]
        | script k => cases h
        | native stack base =>
          cases h
          rfl
    | read k =>
      cases h
      have same : k (s.stageAll args) = k s := leaves
      simp only [stageAll, Machine.step, stepHost, same]
    | write u c =>
      cases h
      have changed := State.stageAll_comm (F := (u.apply ·))
        (fun before after => State.apply_stage leaves before after) before after
      simp only [stageAll, Machine.step, stepHost, changed]
    | run task k | trace k =>
      cases h
      rfl
    | scope scope body refused k =>
      simp only [stageAll, Machine.step, stepHost, State.enter_stageAll] at h ⊢
      cases he : scope.enter s with
      | error f =>
        rw [he] at h
        cases h
        rfl
      | ok entered =>
        rw [he] at h
        cases h
        rfl
  | script control frames base =>
    simp only [stageAll, Machine.step, stepScript, State.stageAll_memory,
      State.setMemory_stageAll] at h ⊢
    split at h
    case h_1 | h_2 =>
      cases h
      rfl
    case h_3 =>
      split at h
      · cases h
        rfl
      · cases h
    case h_4 => cases h

/-- Steps that leave the queue alone are the same steps with arguments staged. -/
theorem Steps.stageAll (h : Steps host K m m')
    (alone : ∀ n, Steps host K m n → n.LeavesQueue args ∧ n.state.Owns args) :
    Steps host K (m.stageAll args) (m'.stageAll args) := by
  induction h with
  | done m => exact .done _
  | @step m m₁ m' h hK rest ih =>
    obtain ⟨leaves, before⟩ := alone m (.done m)
    obtain ⟨-, after⟩ := alone m₁ (.step h hK (.done m₁))
    refine .step (step_stageAll h leaves before after) hK (ih fun n steps => ?_)
    exact alone n (.step h hK steps)

/-! ### Moments at which all code is unaware -/

theorem Codes.steps {P : Code → Prop} (hereditary : Code.Hereditary P)
    (lent : ∀ n args, P (host n args)) (h : Codes P m) (steps : Steps host K m m') :
    Codes P m' := by
  induction steps with
  | done => exact h
  | step first _ _ ih => exact ih (h.step hereditary lent first)

theorem Codes.leavesQueue (h : Codes Code.Unaware m) : m.LeavesQueue args := by
  unfold LeavesQueue
  split
  case h_1 k active =>
    obtain ⟨same, -⟩ := h.active active
    generalize m.state = s
    induction args generalizing s with
    | nil => rfl
    | cons a args ih => exact (ih _).trans (same s a)
  case h_2 u c active => exact (h.active active).1
  case h_3 => trivial

end Machine

end CardBridge
