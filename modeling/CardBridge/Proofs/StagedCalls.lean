import CardBridge.Proofs.Errands
import CardBridge.Proofs.Lives

/-!
# Calls with what was staged for them

A call counts the arguments in the queue before it takes them, and between the two no script runs.
So it takes no argument that was staged for another call, if as many were staged for it as it
declares. `Code.Tidy` is that argument, as a condition on host code : a `Phase` says what the code
knows of the queue, and a scope in which arguments are taken may only begin while they are counted.

Errands are tidy, and leave nothing staged (`Code.Errand.tidy`).
-/

namespace CardBridge

open Script (Value)

/-- What host code knows of the queue for calls. -/
structure Phase where
  /-- How many arguments it has staged and not taken. -/
  staged : Nat
  /-- Those are in the queue. -/
  intact : Bool
  /-- As many are in the queue. -/
  counted : Bool

namespace Phase

/-- What is known at the begin. -/
def begun : Phase :=
  ⟨0, true, false⟩

/-- What is known after a look at the state. -/
def seen (p : Phase) (s : State) : Phase :=
  { p with counted := (s.staged .call).length = p.staged }

/-- What is known after a script, since that may have others empty the queue. -/
def waited (p : Phase) : Phase :=
  ⟨p.staged, false, false⟩

/-- What is known after a change. -/
def after (p : Phase) : Update → Phase
  | .stage .call _ _ => ⟨p.staged + 1, true, false⟩
  | .clear .call => begun
  | _ => p

theorem after_of_not_touches {u : Update} (h : ¬ u.Touches .call) (p : Phase) : p.after u = p := by
  cases u with
  | stage q | clear q =>
    cases q with
    | call => exact absurd rfl h
    | resume => rfl
  | _ => rfl

theorem not_touches_of_counted {u : Update} {p : Phase} (h : (p.after u).counted = true) :
    ¬ u.Touches .call := by
  cases u with
  | stage q | clear q =>
    cases q with
    | call => cases h
    | resume => exact nofun
  | _ => exact id

end Phase

namespace Code

/-- In a scope of an invocation the arguments that are staged for calls are taken. -/
def Takes (scope : Scope) (body : Code) : Prop :=
  (scope = .guard ∨ ∃ id f, scope = .start id f) ∧ ∃ k, body = withStaged .call k

/-- In the phase `p`, host code stages nothing on top of what others may have taken away, and takes
no arguments without having counted them. It ends in a phase and with a reply that satisfy `E`. -/
def Tidy : Code → Phase → (Phase → Reply → Prop) → Prop
  | finish r, p, E => E p r
  | read k, p, E => ∀ s, (k s).Tidy (p.seen s) E
  | write u c, p, E =>
    (∀ front a, u = .stage .call front a → p.staged = 0 ∨ p.intact = true) ∧ c.Tidy (p.after u) E
  | run _ k, p, E => ∀ c, (k c).Tidy p.waited E
  | trace k, p, E => ∀ ls, (k ls).Tidy p E
  | scope sc body refused k, p, E => (Takes sc body → p.counted = true) ∧
    (∀ s f, sc.enter s = .error f → (refused f).Tidy p E) ∧
    body.Tidy p fun p' r => (k r).Tidy p' E

variable {E E' : Phase → Reply → Prop} {p : Phase}

theorem Tidy.mono {c : Code} (le : ∀ p r, E p r → E' p r) (h : c.Tidy p E) : c.Tidy p E' := by
  induction c generalizing p E E' with
  | finish r => exact le p r h
  | read k ih => exact fun s => ih s le (h s)
  | write u c ih => exact ⟨h.1, ih le h.2⟩
  | run task k ih => exact fun c => ih c le (h c)
  | trace k ih => exact fun ls => ih ls le (h ls)
  | scope sc body refused k ihb ihr ihk =>
    exact ⟨h.1, fun s f refuses => ihr f le (h.2.1 s f refuses),
      ihb (fun p r => ihk r le) h.2.2⟩

theorem tidy_andThen {c : Code} {next : Reply → Code}
    (h : c.Tidy p fun p' r => (next r).Tidy p' E) : (c.andThen next).Tidy p E := by
  induction c generalizing p with
  | finish r => exact h
  | read k ih => exact fun s => ih s (h s)
  | write u c ih => exact ⟨h.1, ih h.2⟩
  | run task k ih => exact fun c => ih c (h c)
  | trace k ih => exact fun ls => ih ls (h ls)
  | scope sc body refused k _ ihr ihk =>
    exact ⟨h.1, fun s f refuses => ihr f (h.2.1 s f refuses), h.2.2.mono fun p r => ihk r⟩

/-- Code that spares the queue leaves staged what is. -/
theorem Spares.tidy {c : Code} (h : c.Spares)
    (ends : ∀ p' us r, p'.staged = p.staged → c.Path us r → E p' r) : c.Tidy p E := by
  induction c generalizing p E with
  | finish r => exact ends p [] r rfl .finish
  | read k ih => exact fun s => ih s (h s) fun p' us r same path => ends p' us r same (.read s path)
  | write u c ih =>
    refine ⟨?_, ?_⟩
    · rintro front a rfl
      exact absurd rfl h.1
    · rw [Phase.after_of_not_touches h.1]
      exact ih h.2 fun p' us r same path => ends p' _ r same (.write path)
  | run task k ih =>
    exact fun c => ih c (h c) fun p' us r same path => ends p' us r same (.run c path)
  | trace k ih =>
    exact fun ls => ih ls (h ls) fun p' us r same path => ends p' us r same (.trace ls path)
  | scope sc body refused k ihb ihr ihk =>
    refine ⟨?_, fun s f _ => ihr f (h.2.1 f) fun p' us r same path =>
      ends p' us r same (.refused f path), ?_⟩
    · rintro ⟨-, k', rfl⟩
      exact absurd h.1 (not_spares_withStaged ⟨Host.foreignEnvironment, .empty⟩ k')
    · exact ihb h.1 fun p' us r same path => ihk r (h.2.2 r) fun p'' us' r' same' path' =>
        ends p'' _ r' (same'.trans same) (.scope path path')

/-! ## Calls -/

/-- Nothing is staged any more. -/
def Settled (p : Phase) (_ : Reply) : Prop :=
  p.staged = 0

/-- Nothing is staged any more, or the call has failed. -/
def FailedOrSettled (p : Phase) (r : Reply) : Prop :=
  (∃ f, r = .failed f) ∨ p.staged = 0

theorem tidy_fail (f : Failure) : (fail f).Tidy p FailedOrSettled :=
  .inl ⟨f, rfl⟩

theorem tidy_settle {site : String} {call : Code} (h : call.Tidy p FailedOrSettled) :
    (settle site call).Tidy p Settled := by
  refine tidy_andThen (h.mono ?_)
  rintro p' r (⟨f, rfl⟩ | none)
  · exact ⟨nofun, nofun, rfl⟩
  · split
    · exact ⟨nofun, nofun, rfl⟩
    · exact none

/-- Counted arguments are taken, and then nothing is staged. -/
theorem tidy_withStaged {k : List Value → Code} (hk : ∀ vs, (k vs).Spares)
    (ends : ∀ p' r, p'.staged = 0 → E p' r) : (withStaged .call k).Tidy p E := by
  refine fun s => ⟨nofun, ?_⟩
  split
  · exact (hk _).tidy fun p' us r none _ => ends p' r none
  · exact ends _ _ rfl

theorem tidy_invokeStaged (f : Value) (ret : ReturnCount) :
    (invokeStaged f p.staged ret).Tidy p FailedOrSettled := by
  intro s
  dsimp only
  split
  case isTrue count =>
    refine ⟨fun _ => by simp [Phase.seen, count], fun _ e _ => tidy_fail e, ?_⟩
    exact tidy_withStaged (spares_callWith f · ret) fun p' r none => .inr none
  case isFalse => exact tidy_fail _

theorem tidy_callFunction (c : Callable) (ret : ReturnCount) :
    (callFunction c p.staged ret).Tidy p Settled := by
  refine tidy_settle fun s => ?_
  dsimp only
  split
  · exact tidy_invokeStaged (p := p.seen s) _ ret
  · exact tidy_fail _

theorem tidy_callValue (v : Value) (ret : ReturnCount) :
    (callValue v p.staged ret).Tidy p Settled := by
  refine tidy_settle ?_
  split
  · exact tidy_invokeStaged v ret
  · split <;> exact tidy_fail _

/-- What is staged for a call stays staged while its function is looked up. -/
theorem tidy_callFound {lookup missing : Code} {ret : ReturnCount} (hl : lookup.Spares)
    (found : ∀ us r, lookup.Path us r → Found r)
    (hm : ∀ p', missing.Tidy p' FailedOrSettled) :
    (callFound lookup p.staged ret missing).Tidy p FailedOrSettled := by
  refine tidy_andThen (hl.tidy fun p' us r same path => ?_)
  rw [← same]
  cases found us r path with
  | values vs =>
    dsimp only
    split
    · exact tidy_invokeStaged _ ret
    · exact hm p'
  | raised text | failed f => exact tidy_fail _

theorem tidy_callCard (card : ObjectId) (name : String) (ret : ReturnCount) (forced : Bool) :
    (callCard card name p.staged ret forced).Tidy p Settled := by
  refine tidy_settle fun s => ?_
  dsimp only
  split
  · intro s'
    dsimp only
    split
    · exact tidy_fail _
    · split
      · exact tidy_fail _
      · refine tidy_callFound (p := (p.seen s).seen s') (spares_lookupMember _ _ _)
          (fun us r path => path_lookupMember path) fun p' => ?_
        split
        · exact tidy_fail _
        · exact ⟨nofun, .inr rfl⟩
  · exact tidy_fail _

theorem tidy_callCode (code : UInt32) (name : String) (ret : ReturnCount) :
    (callCode code name p.staged ret).Tidy p Settled := by
  refine tidy_settle ?_
  split
  · refine tidy_callFound (fun _ => trivial) (fun us r path => ?_) fun p' => tidy_fail _
    cases path with
    | read s path =>
      obtain ⟨-, rfl⟩ := path_finish path
      exact .values _
  · exact tidy_callFound (spares_lookupInClass _ _) (fun us r path => path_lookupInClass path)
      fun p' => tidy_fail _

theorem tidy_query {body : Code} {reading : List Value → Answer} {otherwise : Answer}
    (h : body.Tidy p Settled) : (query body reading otherwise).Tidy p Settled := by
  refine ⟨?_, fun _ _ refuses => ?_, h.mono fun p' r none => ?_⟩
  · rintro ⟨eq | ⟨id, f, eq⟩, -⟩ <;> cases eq
  · cases refuses
  · dsimp only
    split <;> exact none

theorem tidy_failStep (f : Failure) : (failStep .call f).Tidy p Settled :=
  ⟨nofun, nofun, rfl⟩

theorem tidy_callCoroutine (c : Callable) (id : CoroutineId) :
    (callCoroutine c p.staged id 0).Tidy p Settled := by
  rw [callCoroutine, if_pos rfl]
  intro s
  dsimp only
  split
  case isTrue count =>
    cases s.resolve c with
    | ok f =>
      -- Counted once, before the level and the step begin, and no script runs in between.
      have counted : (p.seen s).counted = true := by simp [Phase.seen, count]
      refine ⟨fun _ => counted, fun _ f _ => tidy_failStep f, fun _ => counted, ?_, ?_⟩
      · exact fun _ f _ => tidy_failStep f
      · refine tidy_withStaged (spares_resumed id) fun p' r none => ?_
        refine (spares_stepResult r).tidy fun p'' us r' same path => ?_
        dsimp only
        split
        · exact tidy_failStep _
        · exact same.trans none
    | error f => exact tidy_failStep _
  case isFalse => exact tidy_failStep _

end Code

/-- A call with the staged arguments that declares as many leaves none. -/
theorem Operation.Declares.tidy {o : Operation} {p : Phase} (h : o.Declares p.staged) :
    o.code.Tidy p Code.Settled := by
  cases o with
  | callFunction c declared ret =>
    obtain rfl : p.staged = declared := h
    exact Code.tidy_callFunction c ret
  | callValue v declared ret =>
    obtain rfl : p.staged = declared := h
    exact Code.tidy_callValue v ret
  | callCard card name declared ret forced =>
    obtain rfl : p.staged = declared := h
    exact Code.tidy_callCard card name ret forced
  | callCode code name declared ret =>
    obtain rfl : p.staged = declared := h
    exact Code.tidy_callCode code name ret
  | checkCondition f declared | functionValue f declared | functionValues f declared =>
    cases f with
    | none => exact h.elim
    | some c =>
      obtain rfl : p.staged = declared := h
      exact Code.tidy_query (Code.tidy_callFunction c _)
  | callCoroutine c declared id step =>
    match step, h with
    | 0, h =>
      obtain rfl : p.staged = declared := h
      exact Code.tidy_callCoroutine c id
  | _ => exact h.elim

namespace Code

/-- An errand is tidy, and leaves nothing staged. -/
theorem Errand.tidy {n : Nat} {c : Code} (h : Errand n c) :
    ∀ {p : Phase}, p.staged = n → (n = 0 ∨ p.intact = true) → c.Tidy p Settled := by
  induction h with
  | finish r => exact fun none _ => none
  | aside h hn ih =>
    intro p none _
    exact tidy_andThen (h.tidy fun p' us r same _ => ih r (same.trans none) (.inl rfl))
  | read h ih => exact fun {p} staged there s => ih s (p := p.seen s) staged there
  | write other h ih =>
    intro p staged there
    refine ⟨?_, ?_⟩
    · rintro front a rfl
      exact absurd rfl other
    · rw [Phase.after_of_not_touches other]
      exact ih staged there
  | stage h ih =>
    intro p staged there
    exact ⟨fun _ _ _ => staged ▸ there, ih (congrArg (· + 1) staged) (.inr rfl)⟩
  | holding h hk ih ihk =>
    intro p staged there
    refine ⟨?_, fun _ _ refuses => ?_,
      (ih staged there).mono fun p' r none => ihk r none (.inl rfl)⟩
    · rintro ⟨eq | ⟨id, f, eq⟩, -⟩ <;> cases eq
    · cases refuses
  | call declares h ih =>
    intro p staged _
    subst staged
    exact tidy_andThen (declares.tidy.mono fun p' r none => ih r none (.inl rfl))

end Code

end CardBridge
