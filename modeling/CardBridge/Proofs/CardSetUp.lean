import CardBridge.Proofs.Errands
import CardBridge.Proofs.Moments

/-!
# Setting up a card

A card that is registered is set up by its script. Whether it is registered already is looked up
when the call begins, and then the script is loaded, which may have the card registered, too. So as
long as a card stays registered it is set up only by calls that began before that, and by each of
them at most once (`set_up_within_registration`). Those may be several : a script that has its card
registered while it is loaded sets it up twice (`not_set_up_once`).

What a call does is read off its `Code.Line`. It comes to the set-up only if the card was not
registered when it began (`Code.line_registerCard`), and then it does come to it, if loading the
script comes to an end (`Code.steps_setUp`). After that it does not come to it again
(`Code.not_line_setUp`).
-/

namespace CardBridge

open Relation (ReflTransGen)
open Machine

namespace Code

/-- The end of the registration of a card that its script is to set up : the card is staged and the
function `initial_effect` of its script is called. -/
def setUp (id : ObjectId) (h : Handle) : Code :=
  write (.stage .call false (.object (.card id))) <|
    (callCard id "initial_effect" 1 (.exactly 0) false).andThen fun _ => answer (.handle h)

/-! ## What stages nothing -/

/-- Host code that stages nothing for calls. -/
def StagesNothing : Code → Prop
  | finish _ => True
  | read k => ∀ s, (k s).StagesNothing
  | write u c => (∀ front a, u ≠ .stage .call front a) ∧ c.StagesNothing
  | run _ k => ∀ c, (k c).StagesNothing
  | trace k => ∀ ls, (k ls).StagesNothing
  | scope _ body refused k =>
    body.StagesNothing ∧ (∀ f, (refused f).StagesNothing) ∧ ∀ r, (k r).StagesNothing

theorem hereditary_stagesNothing : Hereditary StagesNothing where
  read h := h
  write h := h.2
  run h := h
  trace h := h
  scope h := h

theorem Spares.stagesNothing {c : Code} (h : c.Spares) : c.StagesNothing := by
  induction c with
  | finish r => trivial
  | read k ih => exact fun s => ih s (h s)
  | write u c ih =>
    refine ⟨?_, ih h.2⟩
    rintro front a rfl
    exact h.1 rfl
  | run task k ih => exact fun c => ih c (h c)
  | trace k ih => exact fun ls => ih ls (h ls)
  | scope s body refused k ihb ihr ihk =>
    exact ⟨ihb h.1, fun f => ihr f (h.2.1 f), fun r => ihk r (h.2.2 r)⟩

theorem stagesNothing_andThen {c : Code} {next : Reply → Code} (h : c.StagesNothing)
    (h' : ∀ r, (next r).StagesNothing) : (c.andThen next).StagesNothing := by
  induction c with
  | finish r => exact h' r
  | read k ih => exact fun s => ih s (h s)
  | write u c ih => exact ⟨h.1, ih h.2⟩
  | run task k ih => exact fun c => ih c (h c)
  | trace k ih => exact fun ls => ih ls (h ls)
  | scope s body refused k _ ihr ihk =>
    exact ⟨h.1, fun f => ihr f (h.2.1 f), fun r => ihk r (h.2.2 r)⟩

theorem stagesNothing_invokeStaged (f : Script.Value) (declared : Nat) (ret : ReturnCount) :
    (invokeStaged f declared ret).StagesNothing := by
  intro s
  dsimp only
  split
  · refine ⟨fun s => ⟨nofun, ?_⟩, fun _ => trivial, fun _ => trivial⟩
    split
    · exact (spares_callWith _ _ _).stagesNothing
    · exact trivial
  · exact trivial

theorem stagesNothing_callCard (card : ObjectId) (name : String) (declared : Nat)
    (ret : ReturnCount) : (callCard card name declared ret false).StagesNothing := by
  refine stagesNothing_andThen (fun s => ?_) fun r => ?_
  · dsimp only
    split
    · intro s'
      dsimp only
      split
      · exact trivial
      · split
        · exact trivial
        · refine stagesNothing_andThen (spares_lookupMember _ _ _).stagesNothing fun r => ?_
          split
          · dsimp only
            split
            · exact stagesNothing_invokeStaged _ _ _
            · exact ⟨nofun, trivial⟩
          · exact trivial
          · exact trivial
    · exact trivial
  · split
    · exact ⟨nofun, nofun, trivial⟩
    · exact trivial

/-- A call that sets a card up does that once. -/
theorem not_line_setUp {id : ObjectId} {h h' : Handle} {s s' : State}
    (line : ReflTransGen Line (s, (callCard id "initial_effect" 1 (.exactly 0) false).andThen
      fun _ => answer (.handle h)) (s', setUp id h')) : False := by
  have nothing := hereditary_stagesNothing.line line
    (stagesNothing_andThen (stagesNothing_callCard _ _ _ _) fun _ => trivial)
  exact nothing.1 _ _ rfl

/-! ## A call from its begin to the set-up -/

theorem handleOf_register {s : State} {b : Bridge} (hb : s.env.bridge = some b) (o : ObjectRef)
    (cls : Option String) : ((s.register o cls).handleOf o).isSome := by
  cases known : b.registry.payload o with
  | none =>
    rw [s.register_of_unknown hb known]
    simp [State.handleOf, Registry.handleOf, Registry.insertWith, Keyed.lookup_put_self]
  | some n =>
    obtain ⟨h, hh, -⟩ := Option.bind_eq_some_iff.mp known
    have kept : (s.handleOf o).isSome := by simp [State.handleOf, hb, hh]
    rw [s.register_of_known hb known, State.refresh]
    split <;> exact kept

theorem bindObject_card {id : ObjectId} {cls : Option String} {k : Handle → Code} :
    bindObject (.card id) cls k = read fun s =>
      match s.env.bridge with
      | none => fail .environmentClosed
      | some _ =>
        write (.register (.card id) cls) <|
          read fun s => k ((s.handleOf (.card id)).getD .null) :=
  if_neg nofun

theorem hereditary_spares : Hereditary Spares where
  read h := h
  write h := h.2
  run h := h
  trace h := h
  scope h := h

/-- Code that leaves the queue alone does not set up a card. -/
theorem not_setUp_of_spares {c : Code} {next : Reply → Code} {id : ObjectId} {h : Handle}
    (spares : c.Spares) (reads : ∀ r, ∃ k, next r = read k) (eq : setUp id h = c.andThen next) :
    False := by
  unfold setUp at eq
  cases c with
  | finish r =>
    obtain ⟨k, hk⟩ := reads r
    exact nomatch eq.trans hk
  | write u c =>
    obtain ⟨rfl, -⟩ := Code.write.inj eq
    exact spares.1 rfl
  | read | run | trace | scope => exact nomatch eq

/-- Where a card is bound, it is registered, and then the call goes on with its handle. -/
theorem line_bindObject {id : ObjectId} {cls : Option String} {k : Handle → Code} {u : Update}
    {c : Code} {s s' : State}
    (line : ReflTransGen Line (s, bindObject (.card id) cls k) (s', .write u c))
    (other : u ≠ .register (.card id) cls) :
    ∃ s₁, (s₁.handleOf (.card id)).isSome ∧
      ReflTransGen Line (s₁, k ((s₁.handleOf (.card id)).getD .null)) (s', .write u c) := by
  rw [bindObject_card] at line
  have bind := line_read line
  split at bind
  · cases line_finish bind
  case h_2 b hb =>
    obtain eq | registered := line_write bind
    · cases eq
      exact absurd rfl other
    · exact ⟨_, handleOf_register hb _ _, line_read registered⟩

/-- A call that comes to set its card up has begun while that was not registered. -/
theorem line_registerCard {info : CardInfo} {h : Handle} {s s' : State}
    (line : ReflTransGen Line (s, registerCard info) (s', setUp info.id h)) :
    s.handleOf (.card info.id) = none ∧ (s'.handleOf (.card info.id)).isSome := by
  have begun := line_read line
  split at begun
  · cases line_finish begun
  case h_2 b hb =>
    have begins : s.handleOf (.card info.id) = b.registry.handleOf (.card info.id) := by
      simp [State.handleOf, hb]
    have stages {cls : Option String} : Update.stage .call false (.object (.card info.id)) ≠
        .register (.card info.id) cls := nofun
    dsimp only at begun
    split at begun
    case isTrue zero =>
      obtain ⟨s₁, -, bound⟩ := line_bindObject begun stages
      rw [if_neg (by simp [zero])] at bound
      cases line_finish bound
    case isFalse =>
      obtain ⟨c', loading, eq⟩ | ⟨r, s₁, -, loaded⟩ := line_andThen begun
      · have spares : c'.Spares := hereditary_spares.line loading (spares_loadCard _)
        exact (not_setUp_of_spares spares (fun r => ⟨_, bindObject_card⟩) eq).elim
      · obtain ⟨s₂, registered, bound⟩ := line_bindObject loaded stages
        split at bound
        case isTrue new =>
          obtain eq | again := line_write bound
          · obtain ⟨rfl, -⟩ := Prod.mk.inj eq
            refine ⟨?_, registered⟩
            simp only [Bool.and_eq_true, Bool.not_eq_eq_eq_not, Bool.not_true] at new
            rw [begins]
            exact Option.not_isSome_iff_eq_none.mp (by simpa [Registry.contains] using new.1.1)
          · exact (not_line_setUp again).elim
        case isFalse => cases line_finish bound

/-- A call that begins while its card is not registered comes to set it up, if the script is to do
that and loading it comes to an end. -/
theorem steps_setUp {host : CardBridge.Host} {K : List Frame} {info : CardInfo} {s s₁ : State}
    {b b₁ : Bridge} {r : Reply} (hb : s.env.bridge = some b)
    (new : s.handleOf (.card info.id) = none) (wanted : info.setUp = true)
    (other : info.scriptCode b.config.aliasWindow ≠ 0)
    (loads : Gives host K s (loadCard (info.scriptCode b.config.aliasWindow)) r s₁)
    (hb₁ : s₁.env.bridge = some b₁) :
    ∃ h s', Steps host K ⟨s, .host (registerCard info), K⟩
      ⟨s', .host (setUp info.id h), K⟩ := by
  have fresh : b.registry.contains (.card info.id) = false := by
    simpa [State.handleOf, hb, Registry.contains] using new
  let code := info.scriptCode b.config.aliasWindow
  let s₂ := s₁.register (.card info.id) (some (scriptClass code))
  refine ⟨(s₂.handleOf (.card info.id)).getD .null, s₂, .step rfl List.suffix_rfl ?_⟩
  simp only [hb]
  rw [if_neg other]
  refine loads.steps_andThen.trans ?_
  rw [bindObject_card]
  refine .step rfl List.suffix_rfl ?_
  simp only [hb₁]
  refine .step rfl List.suffix_rfl (.step rfl List.suffix_rfl ?_)
  dsimp only
  rw [if_pos (by simp [fresh, wanted, other])]
  exact .done _

end Code

namespace Machine

open Code

/-- Whether a card is registered. -/
def Registered (id : ObjectId) (m : Machine) : Bool :=
  (m.state.handleOf (.card id)).isSome

/-- The registration of a card that is at work at the moment `i` comes to set the card up after `n`
steps of its own and of what it waits for. -/
def SetsUp (hosts : Nat → Host) (moment : Nat → Machine) (info : CardInfo) (i n : Nat) : Prop :=
  ∃ next h s', (moment i).activity = .host ((registerCard info).andThen next) ∧
    StepsFrom hosts (moment i).stack i n
      ⟨(moment i).state, .host (registerCard info), (moment i).stack⟩
      ⟨s', .host (setUp info.id h), (moment i).stack⟩

namespace SetsUp

variable {hosts : Nat → Host} {moment : Nat → Machine} {last : Nat} {info : CardInfo} {i n n' : Nat}

theorem not_registered (h : SetsUp hosts moment info i n) :
    (moment i).Registered info.id = false := by
  obtain ⟨next, h, s', -, steps⟩ := h
  obtain ⟨us, run⟩ := steps.run
  have new := (line_registerCard (line_of_run run)).1
  simp [Registered, new]

/-- A call sets its card up once. -/
theorem unique_of_le (h : SetsUp hosts moment info i n) (h' : SetsUp hosts moment info i n')
    (le : n ≤ n') : n' = n := by
  obtain ⟨_, h, s, -, steps⟩ := h
  obtain ⟨_, h', s', -, steps'⟩ := h'
  obtain ⟨d, rfl⟩ := Nat.exists_eq_add_of_le le
  cases d with
  | zero => rfl
  | succ d =>
    cases steps.rest steps' with
    | step first _ rest =>
      cases first
      obtain ⟨us, run⟩ := rest.run
      exact (not_line_setUp (line_of_run run)).elim

theorem unique (h : SetsUp hosts moment info i n) (h' : SetsUp hosts moment info i n') :
    n' = n := by
  rcases Nat.le_total n n' with le | le
  · exact h.unique_of_le h' le
  · exact (h'.unique_of_le h le).symm

/-- The steps of the call are those of the life. -/
theorem steps (h : SetsUp hosts moment info i n) : ∃ next k s',
    (moment i).activity = .host ((registerCard info).andThen next) ∧
    (s'.handleOf (.card info.id)).isSome = true ∧
    StepsFrom hosts (moment i).stack i n (moment i)
      ⟨s', .host ((setUp info.id k).andThen next), (moment i).stack⟩ := by
  obtain ⟨next, k, s', begins, steps⟩ := h
  obtain ⟨us, run⟩ := steps.run
  obtain ⟨m, in_life, followed⟩ := Followed.steps steps (.code : Followed next _ _ _)
  obtain rfl := followed.eq_of_code
  rw [← begins] at in_life
  exact ⟨next, k, s', begins, (line_registerCard (line_of_run run)).2, in_life⟩

end SetsUp

/-- **Set-ups in one registration.** As long as a card stays registered, it is set up only by calls
that began before it was registered, and by each of them at most once. So it is set up once, unless
one of two such calls was made while the other one loaded the script. -/
theorem set_up_within_registration {hosts : Nat → Host} {moment : Nat → Machine} {last : Nat}
    (life : Life hosts moment last) {id : ObjectId} {p q : Nat} (in_life : q ≤ last)
    (registered : ∀ k, p ≤ k → k ≤ q → (moment k).Registered id = true) {info : CardInfo}
    (card : info.id = id) {i n : Nat} (sets_up : SetsUp hosts moment info i n)
    (to_q : i + n ≤ q) :
    i < p ∧ (moment i).Registered id = false ∧
    (∀ n', SetsUp hosts moment info i n' → n' = n) ∧
    ∃ next k, (moment i).activity = .host ((registerCard info).andThen next) ∧
      (moment (i + n)).activity = .host ((setUp id k).andThen next) ∧
      (moment (i + n)).stack = (moment i).stack := by
  subst card
  have new := sets_up.not_registered
  obtain ⟨next, k, s', begins, -, steps⟩ := sets_up.steps
  have there := life.moment_eq steps (Nat.le_trans to_q in_life)
  refine ⟨Nat.lt_of_not_le fun late => ?_, new, fun n' => sets_up.unique, next, k, begins, ?_, ?_⟩
  · have still := registered i late (by omega)
    exact absurd still (by simp [new])
  · rw [there]
  · rw [there]

/-! ### A card that registers itself -/

/-- A card with the code `7`. -/
def someCard : CardInfo :=
  ⟨⟨1⟩, 7, 0, true⟩

/-- A host with a function that registers the card, and one that is written down when it is
called. -/
def registering : CardBridge.Host :=
  native fun n _ => if n = 0 then registerCard someCard else .write (.called "note" []) done

/-- The begin of the registration of a card whose script has the card registered as well. -/
def selfRegistration : Machine :=
  let source := "function self_table.initial_effect(c) note() end register()"
  let blueprint := { Host.Blueprint.plain ⟨1⟩ with reader := .store [("c7.lua", bytes source)] }
  let env := blueprint.environment 0
  let memory := setGlobal (setGlobal env.memory "register" (.native (.host 0))) "note"
    (.native (.host 1))
  .start ⟨{ env with memory }, .empty⟩ (registerCard someCard)

/-- What comes after it. -/
def selfRegistering (k : Nat) : Machine :=
  after registering k selfRegistration

/-- Whether a script is about to call the function `i` of the host. -/
def callsHost (i : Nat) (m : Machine) : Bool :=
  match m.activity with
  | .script control stack base =>
    match Script.State.step ⟨m.state.env.memory, control, stack, base⟩ with
    | .native (.host j) _ _ => i = j
    | _ => false
  | .host _ => false

theorem step_of_callsHost {host : CardBridge.Host} {i : Nat} {m m' : Machine}
    (calls : callsHost i m = true) (step : m.step host = .next m') :
    m'.stack ≠ [] ∧ ∃ args, m'.activity = .host (host (.host i) args) := by
  obtain ⟨s, activity, K⟩ := m
  unfold callsHost at calls
  dsimp only at calls
  split at calls
  case h_1 control stack base =>
    split at calls
    case h_1 j args t outcome =>
      obtain rfl := of_decide_eq_true calls
      simp only [Machine.step, stepScript, outcome] at step
      cases step
      exact ⟨List.cons_ne_nil _ _, args, rfl⟩
    case h_2 => cases calls
  case h_2 => cases calls

/-- Whether a moment is one at rest. -/
def rests (m : Machine) : Bool :=
  match m.activity, m.stack with
  | .host (.finish _), [] => true
  | _, _ => false

theorem not_step_of_rests {host : CardBridge.Host} {m : Machine} (h : rests m = true)
    (m' : Machine) : m.step host ≠ .next m' := by
  obtain ⟨s, activity, K⟩ := m
  unfold rests at h
  dsimp only at h
  split at h
  · exact nofun
  · cases h

/-- How often the function of the host that is written down has been called. -/
def notes (m : Machine) : Nat :=
  m.state.shared.journal.countP fun
    | .native name _ => name = "note"
    | _ => false

/-- What is there to see at the moments of that : the card is registered from the moment `28` on,
and at the moment `24` its script has called for it. -/
def selfRegistrationLook (k : Nat) (m : Machine) : Bool :=
  (m.Registered someCard.id == decide (28 ≤ k)) && m.state.env.bridge.isSome &&
    (k != 23 || callsHost 0 m) && (k != 24 || isClassLoaded m.state 7) &&
    (k != 28 || notes m == 0) && (k != 92 || rests m && notes m == 2)

theorem selfRegistration_along :
    along selfRegistrationLook registering 92 0 selfRegistration = true := by
  decide +kernel

theorem selfRegistering_look {k : Nat} (hk : k ≤ 92) :
    (selfRegistering k).Registered someCard.id = decide (28 ≤ k) ∧
    (selfRegistering k).state.env.bridge.isSome = true ∧
    (k = 23 → callsHost 0 (selfRegistering k) = true) ∧
    (k = 24 → isClassLoaded (selfRegistering k).state 7 = true) ∧
    (k = 28 → notes (selfRegistering k) = 0) ∧
    (k = 92 → rests (selfRegistering k) = true ∧ notes (selfRegistering k) = 2) := by
  have look := (along_spec selfRegistration_along).1 k hk
  simpa [selfRegistrationLook, and_assoc, selfRegistering, Decidable.imp_iff_not_or] using look

/-- A call that begins while the card is not registered sets it up, where its script is loaded. -/
theorem setsUp_of_loads {host : CardBridge.Host} {moment : Nat → Machine} {i : Nat} {r : Reply}
    {s : State} (begins : (moment i).activity = .host (registerCard someCard))
    (new : (moment i).Registered someCard.id = false)
    (opened : (moment i).state.env.bridge.isSome = true)
    (loads : Gives host (moment i).stack (moment i).state (loadCard 7) r s)
    (opened' : s.env.bridge.isSome = true) :
    ∃ n, SetsUp (fun _ => host) moment someCard i n := by
  obtain ⟨b, hb⟩ := Option.isSome_iff_exists.mp opened
  obtain ⟨b', hb'⟩ := Option.isSome_iff_exists.mp opened'
  have code : someCard.scriptCode b.config.aliasWindow = 7 := if_neg fun h => h.1 rfl
  have unknown : (moment i).state.handleOf (.card someCard.id) = none :=
    Option.not_isSome_iff_eq_none.mp (Bool.eq_false_iff.mp new)
  obtain ⟨h, s', steps⟩ := steps_setUp hb unknown rfl (by rw [code]; decide) (code ▸ loads) hb'
  obtain ⟨n, counted⟩ := StepsFrom.of_steps steps i
  exact ⟨n, .finish, h, s', by rw [begins, andThen_finish], counted⟩

/-- There, both the call and the one that the script makes set the card up. -/
theorem selfRegistering_setsUp :
    (∃ n, SetsUp (fun _ => registering) selfRegistering someCard 0 n) ∧
    (∃ n, SetsUp (fun _ => registering) selfRegistering someCard 24 n) ∧
    (selfRegistering 24).stack ≠ [] := by
  obtain ⟨new, opened, -⟩ := selfRegistering_look (k := 0) (by decide)
  obtain ⟨new', opened', -, there, -⟩ := selfRegistering_look (k := 24) (by decide)
  obtain ⟨-, -, calls, -⟩ := selfRegistering_look (k := 23) (by decide)
  have call := (along_spec selfRegistration_along).2 23 (by decide)
  obtain ⟨nested, args, begins'⟩ := step_of_callsHost (calls rfl) call
  obtain ⟨r, s, loads, opened₁⟩ := exists_gives
    (by decide +kernel : endsAs (fun _ s => s.env.bridge.isSome)
      (Machine.run registering 1000 (.start selfRegistration.state (loadCard 7))) = true)
  exact ⟨setsUp_of_loads rfl new opened loads opened₁,
    setsUp_of_loads begins' new' opened' (gives_loadCard_of_loaded (there rfl)) opened', nested⟩

theorem selfRegistering_life : Life (fun _ => registering) selfRegistering 92 :=
  life_of_along selfRegistration_along

/-- A set-up is made while the card is registered, so in the part of the life that is looked at. -/
theorem selfRegistering_within {i n : Nat} (hi : i ≤ 92)
    (sets_up : SetsUp (fun _ => registering) selfRegistering someCard i n) :
    28 ≤ i + n ∧ i + n ≤ 92 ∧ (selfRegistering (i + n)).stack = (selfRegistering i).stack := by
  obtain ⟨-, -, -, -, -, at_rest⟩ := selfRegistering_look (k := 92) (by decide)
  obtain ⟨_, _, s, -, registered, steps⟩ := sets_up.steps
  have in_life := selfRegistering_life.le_last (not_step_of_rests (at_rest rfl).1) hi steps
  have there := selfRegistering_life.moment_eq steps in_life
  have seen : (selfRegistering (i + n)).Registered someCard.id = true := by
    rw [there]
    exact registered
  rw [(selfRegistering_look in_life).1] at seen
  exact ⟨of_decide_eq_true seen, in_life, by rw [there]⟩

theorem set_up_within_registration_nested : ∃ n,
    SetsUp (fun _ => registering) selfRegistering someCard 24 n ∧
    ∀ n', SetsUp (fun _ => registering) selfRegistering someCard 24 n' → n' = n := by
  obtain ⟨-, ⟨n, sets_up⟩, -⟩ := selfRegistering_setsUp
  obtain ⟨-, to_q, -⟩ := selfRegistering_within (by decide) sets_up
  obtain ⟨-, -, once, -⟩ := set_up_within_registration selfRegistering_life (Nat.le_refl 92)
    (fun k late hk => (selfRegistering_look hk).1.trans (decide_eq_true late)) rfl sets_up to_q
  exact ⟨n, sets_up, once⟩

/-- A card is set up twice in one registration, if its script has it registered : both the call and
the one that the script makes set it up, and the function `initial_effect` runs twice. -/
theorem not_set_up_once : ∃ (hosts : Nat → CardBridge.Host) (moment : Nat → Machine)
    (last p q : Nat) (info : CardInfo) (i n i' n' : Nat), Life hosts moment last ∧ q ≤ last ∧
    (∀ k, p ≤ k → k ≤ q → (moment k).Registered info.id = true) ∧
    SetsUp hosts moment info i n ∧ p ≤ i + n ∧ i + n ≤ q ∧
    SetsUp hosts moment info i' n' ∧ p ≤ i' + n' ∧ i' + n' ≤ q ∧
    i + n ≠ i' + n' ∧ notes (moment p) = 0 ∧ notes (moment q) = 2 := by
  obtain ⟨⟨n, sets_up⟩, ⟨n', sets_up'⟩, nested⟩ := selfRegistering_setsUp
  obtain ⟨from_p, to_q, stack⟩ := selfRegistering_within (by decide) sets_up
  obtain ⟨from_p', to_q', stack'⟩ := selfRegistering_within (by decide) sets_up'
  obtain ⟨-, -, -, -, none, -⟩ := selfRegistering_look (k := 28) (by decide)
  obtain ⟨-, -, -, -, -, twice⟩ := selfRegistering_look (k := 92) (by decide)
  refine ⟨_, selfRegistering, 92, 28, 92, someCard, 0, n, 24, n', selfRegistering_life,
    Nat.le_refl 92, fun k late hk => (selfRegistering_look hk).1.trans (decide_eq_true late),
    sets_up, from_p, to_q, sets_up', from_p', to_q', fun same => nested ?_, none rfl,
    (twice rfl).2⟩
  rw [← stack', ← same, stack]
  rfl

end Machine

end CardBridge
