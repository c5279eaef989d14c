import CardBridge.Proofs.GuardedScripts
import CardBridge.Proofs.HostRuns
import CardBridge.Proofs.StagedCalls
import Mathlib.Data.List.Induction

/-!
# Arguments kept apart

There is one queue of arguments for calls, and an operation may begin while something is in it. Its
scripts may call functions of the host, and these may stage arguments for calls of their own, in
whose scripts there may be more of this. Host code cannot set the queue aside meanwhile. It can add
to it, and when it makes a call, whatever the queue holds is counted, and taken or thrown away.

A `Machine.Ledger` tells the changes which some code makes itself from those of other code that its
scripts lead to. If all functions of the host are errands, then other code can do one thing only to
what is staged, which is to empty the queue, and no invocation takes what was not staged for it
(`staged_kept_apart`). What was there at the begin of an operation is there at its end, unless the
queue has been emptied meanwhile. That condition is needed : one call that is made inside takes the
rest away (`not_staged_after_query`).

The proof keeps a `Book` for each code at work, with what it has found in the queue and what it has
staged before and behind that. Only the innermost code moves, and `Code.Tidy` says how ; for the
others its changes are those of other code.
-/

namespace CardBridge

open Script (Value)

/-! ## Ledgers -/

/-- A change in a run of host code, which is its own or that of other code which it has led to. -/
inductive Entry
  | own (u : Update)
  | other (u : Update)

namespace Entry

/-- The change. -/
def update : Entry → Update
  | own u | other u => u

/-- What a change makes of the queue for calls, if each code has one for itself. -/
def alone (args : ArgumentQueue) : Entry → ArgumentQueue
  | own u => u.onQueue .call args
  | other _ => args

/-- What a change makes of the queue for calls, if other code can only empty it. -/
def left (args : ArgumentQueue) : Entry → ArgumentQueue
  | own u => u.onQueue .call args
  | other (.clear .call) => []
  | other _ => args

theorem left_other_of_ne {u : Update} (h : u ≠ .clear .call) (args : ArgumentQueue) :
    left args (.other u) = args := by
  cases u with
  | clear q =>
    cases q with
    | call => exact absurd rfl h
    | resume => rfl
  | _ => rfl

/-- Others may empty the queue while it holds nothing of one's own. -/
theorem left_eq_alone {log : List Entry}
    (h : ∀ before, before ++ [.other (.clear .call)] <+: log → before.foldl alone [] = []) :
    log.foldl left [] = log.foldl alone [] := by
  induction log using List.reverseRecOn with
  | nil => rfl
  | append_singleton log e ih =>
    rw [List.foldl_append, List.foldl_append,
      ih fun before le => h before (le.trans (List.prefix_append _ _))]
    cases e with
    | own u => rfl
    | other u =>
      by_cases empties : u = .clear .call
      · subst empties
        exact (h log (List.prefix_refl _)).symm
      · exact left_other_of_ne empties _

end Entry

/-- What is left of arguments that were in the queue for calls before some changes. -/
structure Remains (args : ArgumentQueue) (us : List Update) (rest : ArgumentQueue) : Prop where
  emptied : .clear .call ∈ us → rest = []
  kept : .clear .call ∉ us → rest = args

theorem Remains.snoc {args rest : ArgumentQueue} {us : List Update} (h : Remains args us rest)
    (u : Update) : Remains args (us ++ [u]) (Entry.left rest (.other u)) := by
  by_cases empties : u = .clear .call
  · subst empties
    exact ⟨fun _ => rfl, fun other => absurd (by simp) other⟩
  · rw [Entry.left_other_of_ne empties]
    refine ⟨fun mem => ?_, fun other => h.kept fun mem => other (List.mem_append_left _ mem)⟩
    obtain mem | mem := List.mem_append.mp mem
    · exact h.emptied mem
    · exact absurd (List.mem_singleton.mp mem).symm empties

namespace Machine

/-- Steps that leave the part `K` of the stack alone, with the changes in them. Those are the code's
own that are made with no script above `K`. Each step is under one of the hosts `H`, so what a
function of the host does may depend on what the host remembers. -/
inductive Ledger (H : Host → Prop) (K : List Frame) (m₀ : Machine) : List Entry → Machine → Prop
  | begins : Ledger H K m₀ [] m₀
  | own {log : List Entry} {host : Host} {m m' : Machine} (h : Ledger H K m₀ log m)
    (here : NoScript K m) (lent : H host) (step : m.step host = .next m') (hK : K <:+ m'.stack) :
    Ledger H K m₀ (log ++ m.writes.map .own) m'
  | other {log : List Entry} {host : Host} {m m' : Machine} (h : Ledger H K m₀ log m)
    (away : ¬ NoScript K m) (lent : H host) (step : m.step host = .next m')
    (hK : K <:+ m'.stack) : Ledger H K m₀ (log ++ m.writes.map .other) m'

section

variable {H : Host → Prop} {host : Host} {K : List Frame} {m₀ m m' : Machine} {log : List Entry}

/-- A step that leaves `K` alone goes on with a ledger. -/
theorem Ledger.next (h : Ledger H K m₀ log m) (lent : H host) (step : m.step host = .next m')
    (hK : K <:+ m'.stack) : ∃ log', Ledger H K m₀ log' m' ∧
      log'.map Entry.update = log.map Entry.update ++ m.writes := by
  by_cases here : NoScript K m
  · exact ⟨_, h.own here lent step hK, by simp [Function.comp_def, Entry.update]⟩
  · exact ⟨_, h.other here lent step hK, by simp [Function.comp_def, Entry.update]⟩

/-- Steps that come to an end go on with a ledger. -/
theorem ledger_of_ended (lent : H host) {r : Reply} {s : State} :
    ∀ (fuel : Nat) (m : Machine), m.run host fuel = .ended r s →
      ∀ log, Ledger H [] m₀ log m → ∃ log', Ledger H [] m₀ log' ⟨s, .host (.finish r), []⟩ ∧
        log'.map Entry.update = log.map Entry.update ++ written host fuel m := by
  refine ended_induction (P := fun us m => ∀ log, Ledger H [] m₀ log m →
    ∃ log', Ledger H [] m₀ log' ⟨s, .host (.finish r), []⟩ ∧
      log'.map Entry.update = log.map Entry.update ++ us) ?_ ?_
  · exact fun log h => ⟨log, h, (List.append_nil _).symm⟩
  · intro us m m' step rest log h
    obtain ⟨log', h', same⟩ := h.next lent step List.nil_suffix
    obtain ⟨log'', ends, all⟩ := rest log' h'
    exact ⟨log'', ends, by rw [all, same, List.append_assoc]⟩

end

/-- An invocation is about to take the arguments that are staged for calls. -/
def Takes (m : Machine) : Prop :=
  ∃ sc body refused k, m.activity = .host (.scope sc body refused k) ∧ Code.Takes sc body

end Machine

/-! ## Books -/

/-- What some code has to do with the queue for calls : what was in it at the begin and still is,
what was staged before that and after it, and whether other code has taken this away. -/
structure Book where
  found : ArgumentQueue
  front : ArgumentQueue
  back : ArgumentQueue
  lost : Bool

namespace Book

/-- The arguments that were staged. -/
def own (b : Book) : ArgumentQueue :=
  b.front ++ b.back

/-- The arguments in the queue. -/
def all (b : Book) : ArgumentQueue :=
  if b.lost then [] else b.front ++ b.found ++ b.back

/-- A change by the code itself. -/
def write (b : Book) : Update → Book
  | .stage .call true a => { b with front := a :: b.front }
  | .stage .call false a => { b with back := b.back ++ [a] }
  | .clear .call => ⟨[], [], [], false⟩
  | _ => b

/-- A change by other code. -/
def disturb (b : Book) : Update → Book
  | .clear .call => { b with found := [], lost := !b.own.isEmpty }
  | _ => b

/-- A phase is right about a book. -/
structure Fits (b : Book) (p : Phase) : Prop where
  staged : b.own.length = p.staged
  intact : p.intact = true → b.lost = false
  lost : b.lost = true → b.own ≠ []

variable {b : Book} {p : Phase} {u : Update}

theorem write_own (b : Book) (u : Update) : (b.write u).own = u.onQueue .call b.own := by
  cases u with
  | stage q front a =>
    cases q <;> cases front <;>
      simp [write, own, Update.onQueue, State.push, ArgumentQueue.pushFront, ArgumentQueue.pushBack]
  | clear q => cases q <;> simp [write, own, Update.onQueue]
  | _ => rfl

theorem write_all (h : ∀ front a, u = .stage .call front a → b.lost = false) :
    (b.write u).all = u.onQueue .call b.all := by
  cases u with
  | stage q front a =>
    cases q with
    | call =>
      have there := h front a rfl
      cases front <;>
        simp [write, all, there, Update.onQueue, State.push, ArgumentQueue.pushFront,
          ArgumentQueue.pushBack]
    | resume => simp [write, Update.onQueue]
  | clear q => cases q <;> simp [write, all, Update.onQueue]
  | _ => rfl

theorem write_found (b : Book) (u : Update) :
    (b.write u).found = Entry.left b.found (.other u) := by
  cases u with
  | stage q front a => cases q <;> cases front <;> rfl
  | clear q => cases q <;> rfl
  | _ => rfl

theorem disturb_own (b : Book) (u : Update) : (b.disturb u).own = b.own := by
  cases u with
  | clear q => cases q <;> rfl
  | _ => rfl

theorem disturb_found (b : Book) (u : Update) :
    (b.disturb u).found = Entry.left b.found (.other u) := by
  cases u with
  | clear q => cases q <;> rfl
  | _ => rfl

theorem disturb_all (b : Book) (u : Update) : (b.disturb u).all = Entry.left b.all (.other u) := by
  cases u with
  | clear q =>
    cases q with
    | call =>
      obtain ⟨found, front, back, lost⟩ := b
      cases front <;> cases back <;> rfl
    | resume => rfl
  | _ => rfl

/-- Without own arguments, none are lost. -/
theorem Fits.settled (h : b.Fits p) (none : p.staged = 0) : b.own = [] ∧ b.lost = false := by
  have nothing : b.own = [] := List.length_eq_zero_iff.mp (h.staged.trans none)
  exact ⟨nothing, Bool.eq_false_iff.mpr fun lost => h.lost lost nothing⟩

/-- Without own arguments, what was found is in the queue. -/
theorem Fits.all_of_settled (h : b.Fits p) (none : p.staged = 0) : b.all = b.found := by
  obtain ⟨nothing, there⟩ := h.settled none
  obtain ⟨front, back⟩ := List.append_eq_nil_iff.mp nothing
  simp [all, there, front, back]

/-- If as many arguments are in the queue as were staged, then it is those. -/
theorem all_eq_own (h : b.all.length = b.own.length) : b.all = b.own := by
  unfold all own at *
  split at h
  case isTrue lost =>
    -- An empty queue has as many only if nothing was staged at all.
    have nothing := List.length_eq_zero_iff.mp h.symm
    rw [if_pos lost, nothing]
  case isFalse there =>
    have found : b.found = [] := by
      rw [← List.length_eq_zero_iff]
      simp only [List.length_append] at h
      omega
    rw [if_neg there, found, List.append_nil]

theorem Fits.write (h : b.Fits p)
    (there : ∀ front a, u = .stage .call front a → p.staged = 0 ∨ p.intact = true) :
    (b.write u).Fits (p.after u) ∧ (b.write u).all = u.onQueue .call b.all := by
  have kept (front : Bool) (a : Argument) (eq : u = .stage .call front a) : b.lost = false := by
    obtain none | intact := there front a eq
    · exact (h.settled none).2
    · exact h.intact intact
  refine ⟨?_, write_all kept⟩
  cases u with
  | stage q front a =>
    cases q with
    | call =>
      have not_lost := kept front a rfl
      have own := write_own b (.stage .call front a)
      refine ⟨?_, fun _ => ?_, fun lost => ?_⟩
      · rw [own]
        cases front <;>
          simp [Update.onQueue, State.push, ArgumentQueue.pushFront, ArgumentQueue.pushBack,
            Phase.after, h.staged]
      · cases front <;> exact not_lost
      · cases front <;> cases not_lost.symm.trans lost
    | resume => exact h
  | clear q =>
    cases q with
    | call =>
      refine ⟨rfl, fun _ => rfl, fun lost => ?_⟩
      cases lost
    | resume => exact h
  | _ => exact h

theorem Fits.disturb (h : b.Fits p) (waits : p.intact = false) (u : Update) :
    (b.disturb u).Fits p := by
  refine ⟨(congrArg _ (disturb_own b u)).trans h.staged, fun intact => ?_, ?_⟩
  · cases waits.symm.trans intact
  · rw [disturb_own]
    cases u with
    | clear q =>
      cases q with
      | call => simp [Book.disturb]
      | resume => exact h.lost
    | _ => exact h.lost

end Book

/-- What is known while a script runs. -/
def Phase.Waits (p : Phase) : Prop :=
  p.intact = false ∧ p.counted = false

/-- The books of the codes at work, innermost first, of which the phases are right. What the first
one has in its book is in the queue, and what each one found is in the book of the next one. The
last one began with `args` in the queue, and has `log` in its ledger. -/
inductive Books (args : ArgumentQueue) (log : List Entry) : ArgumentQueue → List Phase → Prop
  | last {q : ArgumentQueue} {p : Phase} (b : Book) (fits : b.Fits p) (all : b.all = q)
    (alone : log.foldl Entry.alone [] = b.own) (left : log.foldl Entry.left args = b.all)
    (found : Remains args (log.map Entry.update) b.found) : Books args log q [p]
  | next {q : ArgumentQueue} {p : Phase} {ps : List Phase} (b : Book) (fits : b.Fits p)
    (all : b.all = q) (rest : Books args log b.found ps) : Books args log q (p :: ps)

namespace Books

variable {args q : ArgumentQueue} {log : List Entry} {p p' : Phase} {ps : List Phase} {u : Update}

theorem ne_nil (h : Books args log q ps) : ps ≠ [] := by
  cases h <;> simp

theorem begun (args : ArgumentQueue) : Books args [] args [.begun] :=
  .last ⟨args, [], [], false⟩ ⟨rfl, fun _ => rfl, nofun⟩ (by simp [Book.all]) rfl
    (by simp [Book.all]) ⟨nofun, fun _ => rfl⟩

/-- The first code knows less, or not more of its own arguments. -/
theorem weaken (h : Books args log q (p :: ps)) (staged : p'.staged = p.staged)
    (intact : p'.intact = true → p.intact = true) : Books args log q (p' :: ps) := by
  have weaker {b : Book} (fits : b.Fits p) : b.Fits p' :=
    ⟨fits.staged.trans staged.symm, fun h => fits.intact (intact h), fits.lost⟩
  cases h with
  | last b fits all alone left found => exact .last b (weaker fits) all alone left found
  | next b fits all rest => exact .next b (weaker fits) all rest

/-- A function of the host begins. -/
theorem push (h : Books args log q ps) : Books args log q (.begun :: ps) :=
  .next ⟨q, [], [], false⟩ ⟨rfl, fun _ => rfl, nofun⟩ (by simp [Book.all]) h

/-- A function of the host ends that has nothing staged. -/
theorem pop (h : Books args log q (p :: ps)) (some : ps ≠ []) (none : p.staged = 0) :
    Books args log q ps := by
  cases h with
  | last => exact absurd rfl some
  | next b fits all rest =>
    rwa [← all, fits.all_of_settled none]

/-- Other code makes a change. It is passed on from one book to the next : what it does to the queue
of one code, it does to what that code found, which is the queue of the next. -/
theorem disturb (h : Books args log q ps) (waits : ∀ p ∈ ps, p.Waits) (u : Update) :
    Books args (log ++ [.other u]) (Entry.left q (.other u)) ps := by
  induction h with
  | @last q p b fits all alone left found =>
    subst all
    have waiting := (waits p List.mem_cons_self).1
    refine .last (b.disturb u) (fits.disturb waiting u) (b.disturb_all u) ?_ ?_ ?_
    · rw [List.foldl_append, alone]
      exact (b.disturb_own u).symm
    · rw [List.foldl_append, left]
      exact (b.disturb_all u).symm
    · rw [b.disturb_found, List.map_append]
      exact found.snoc u
  | @next q p ps b fits all rest ih =>
    subst all
    have waiting := (waits p List.mem_cons_self).1
    refine .next (b.disturb u) (fits.disturb waiting u) (b.disturb_all u) ?_
    rw [b.disturb_found]
    exact ih fun p mem => waits p (List.mem_cons_of_mem _ mem)

/-- The only code at work makes a change. -/
theorem write_last (h : Books args log q [p])
    (there : ∀ front a, u = .stage .call front a → p.staged = 0 ∨ p.intact = true) :
    Books args (log ++ [.own u]) (u.onQueue .call q) [p.after u] := by
  cases h with
  | last b fits all alone left found =>
    subst all
    obtain ⟨fits', all'⟩ := fits.write there
    refine .last (b.write u) fits' all' ?_ ?_ ?_
    · rw [List.foldl_append, alone]
      exact (b.write_own u).symm
    · rw [List.foldl_append, left]
      exact all'.symm
    · rw [b.write_found, List.map_append]
      exact found.snoc u
  | next b fits all rest => exact absurd rfl rest.ne_nil

/-- A function of the host makes a change. -/
theorem write_next (h : Books args log q (p :: ps)) (some : ps ≠ []) (waits : ∀ p ∈ ps, p.Waits)
    (there : ∀ front a, u = .stage .call front a → p.staged = 0 ∨ p.intact = true) :
    Books args (log ++ [.other u]) (u.onQueue .call q) (p.after u :: ps) := by
  cases h with
  | last => exact absurd rfl some
  | next b fits all rest =>
    subst all
    obtain ⟨fits', all'⟩ := fits.write there
    refine .next (b.write u) fits' all' ?_
    rw [b.write_found]
    exact rest.disturb waits u

end Books

/-! ## Steps -/

namespace Machine

open Code

/-- What is on the stack above `K`, of the codes that wait for a script in the phases `ps` and of
what the code on top of all has to come to. -/
inductive Stacked (K : List Frame) : List Frame → List Phase → (Phase → Reply → Prop) → Prop
  | base : Stacked K K [] Settled
  | scope {S : List Frame} {ps : List Phase} {E : Phase → Reply → Prop} {o : Open}
    {k : Reply → Code} (h : Stacked K S ps E) :
    Stacked K (.scope o k :: S) ps fun p r => (k r).Tidy p E
  | native {S : List Frame} {p : Phase} {ps : List Phase} {E : Phase → Reply → Prop}
    {k : Script.Completion → Code} {stack : List Script.Frame} {base : Script.Base}
    (h : Stacked K S ps E) (waits : p.Waits) (hk : ∀ c, (k c).Tidy p E) :
    Stacked K (.native stack base :: .script k :: S) (p :: ps) Settled

/-- What a machine does above `K` : host code is at work in the phase `p` or waits in it for the
script that runs, and others wait in the phases `ps`. -/
inductive Doing (K : List Frame) : Machine → Phase → List Phase → Prop
  | host {s : State} {c : Code} {S : List Frame} {p : Phase} {ps : List Phase}
    {E : Phase → Reply → Prop} (h : Stacked K S ps E) (hc : c.Tidy p E) :
    Doing K ⟨s, .host c, S⟩ p ps
  | script {s : State} {control : Script.Control} {stack : List Script.Frame} {base : Script.Base}
    {k : Script.Completion → Code} {S : List Frame} {p : Phase} {ps : List Phase}
    {E : Phase → Reply → Prop} (h : Stacked K S ps E) (waits : p.Waits)
    (hk : ∀ c, (k c).Tidy p E) : Doing K ⟨s, .script control stack base, .script k :: S⟩ p ps

variable {host : Host} {K S : List Frame} {m m' : Machine} {p : Phase} {ps : List Phase}
  {E : Phase → Reply → Prop}

theorem Stacked.waits (h : Stacked K S ps E) : ∀ p ∈ ps, p.Waits := by
  induction h with
  | base => simp
  | scope h ih => exact ih
  | native h waits hk ih => exact List.forall_mem_cons.mpr ⟨waits, ih⟩

/-- No code waits for a script if only scopes are on the stack. -/
theorem Stacked.above (h : Stacked K S ps E) : ∃ B, S = B ++ K ∧ (OnlyScopes B ↔ ps = []) := by
  induction h with
  | base => exact ⟨[], rfl, fun _ => rfl, fun _ F hF => nomatch hF⟩
  | @scope _ _ _ o k h ih =>
    obtain ⟨B, rfl, only⟩ := ih
    refine ⟨.scope o k :: B, rfl, ?_⟩
    rw [← only]
    refine ⟨fun all F hF => all F (List.mem_cons_of_mem _ hF), fun all F hF => ?_⟩
    obtain rfl | hF := List.mem_cons.mp hF
    · exact ⟨o, k, rfl⟩
    · exact all F hF
  | native h waits hk ih =>
    obtain ⟨B, rfl, -⟩ := ih
    refine ⟨_ :: _ :: B, rfl, fun all => ?_, nofun⟩
    obtain ⟨o, k, eq⟩ := all _ List.mem_cons_self
    cases eq

/-- Where only `K` is on the stack, what is on top of it has to be settled. -/
theorem Stacked.settled (h : Stacked K K ps E) : E = Settled := by
  cases h with
  | base => rfl
  | scope h =>
    obtain ⟨B, eq, -⟩ := h.above
    exact absurd ⟨B, eq.symm⟩ not_cons_suffix
  | native => rfl

theorem Doing.noScript_iff {s : State} {c : Code} (h : Doing K ⟨s, .host c, S⟩ p ps) :
    NoScript K ⟨s, .host c, S⟩ ↔ ps = [] := by
  cases h with
  | host h hc =>
    obtain ⟨B, rfl, only⟩ := h.above
    rw [← only]
    refine ⟨?_, fun only => ⟨c, B, only, rfl, rfl⟩⟩
    rintro ⟨-, B', only', -, eq⟩
    rwa [List.append_cancel_right eq]

/-! ### Queues -/

/-- What a move makes of a queue is what the change in it does. -/
theorem Move.staged (h : Move m m') {q : Queue} (hb : m.state.env.bridge.isSome = true) :
    m'.state.env.bridge.isSome = true ∧
      m'.state.staged q = m.writes.foldl (Update.onQueue q) (m.state.staged q) := by
  obtain ⟨b, hb⟩ := Option.isSome_iff_exists.mp hb
  obtain ⟨b', hb', eq⟩ := h.effect.queue (q := q) hb
  simp [State.staged, hb, hb', eq]

/-- All codes at work are tidy and their books are right. -/
def Orderly (K : List Frame) (args : ArgumentQueue) (log : List Entry) (m : Machine) : Prop :=
  m.state.env.bridge.isSome = true ∧ ∃ p ps, Doing K m p ps ∧
    (p.counted = true → (m.state.staged .call).length = p.staged) ∧
    Books args log (m.state.staged .call) (p :: ps)

variable {args : ArgumentQueue} {log : List Entry}

theorem orderly_begins {s : State} {c : Code} (hb : s.env.bridge.isSome = true)
    (h : c.Errand 0) : Orderly K (s.staged .call) [] ⟨s, .host c, K⟩ :=
  ⟨hb, .begun, [], .host .base (h.tidy rfl (.inl rfl)), nofun, .begun _⟩

/-- A move in which no change is made. -/
theorem Orderly.silent (h : Move m m') (hb : m.state.env.bridge.isSome = true)
    (silent : m.writes = []) {p' : Phase} {ps' : List Phase} (doing : Doing K m' p' ps')
    (counted : p'.counted = true → (m.state.staged .call).length = p'.staged)
    (books : Books args log (m.state.staged .call) (p' :: ps')) : Orderly K args log m' := by
  obtain ⟨hb', same⟩ := h.staged (q := .call) hb
  rw [silent] at same
  refine ⟨hb', p', ps', doing, ?_, ?_⟩
  · rwa [same]
  · rwa [same]

/-- Host code makes a move without a change. -/
theorem Orderly.code_move {s : State} {c : Code} (h : Orderly K args log ⟨s, .host c, S⟩)
    (move : Move ⟨s, .host c, S⟩ m') (hK : K <:+ m'.stack)
    (silent : writes ⟨s, .host c, S⟩ = []) : Orderly K args log m' := by
  obtain ⟨hb, p, ps, doing, counted, books⟩ := h
  cases doing with
  | host stacked hc =>
    cases move with
    | leave =>
      cases stacked with
      | base => exact absurd hK not_cons_suffix
      | scope stacked => exact .silent .leave hb rfl (.host stacked hc) counted books
    | back =>
      cases stacked with
      | base => exact absurd hK not_cons_suffix
      | native stacked waits hk =>
        refine .silent .back hb rfl (.script stacked waits hk) (fun eq => ?_)
          (books.pop (by simp) hc)
        cases waits.2.symm.trans eq
    | read =>
      refine .silent .read hb rfl (.host stacked (hc s)) (fun eq => ?_) (books.weaken rfl id)
      simpa [Phase.seen] using eq
    | write => cases silent
    | run =>
      -- Nothing is known to be intact any more, so whatever others do now is borne.
      refine .silent .run hb rfl (.script stacked ⟨rfl, rfl⟩ hc) (fun intact => ?_)
        (books.weaken rfl fun intact => ?_) <;> cases intact
    | trace => exact .silent .trace hb rfl (.host stacked (hc _)) counted books
    | enter enters =>
      exact .silent (.enter enters) hb rfl (.host (.scope stacked) hc.2.2) counted books
    | refuse refuses =>
      exact .silent (.refuse refuses) hb rfl (.host stacked (hc.2.1 _ _ refuses)) counted books

/-- A script makes a move, in which a function of the host may begin. -/
theorem Orderly.script_step (errands : ∀ n args, (host n args).Errand 0) {s : State}
    {control : Script.Control} {stack : List Script.Frame} {base : Script.Base}
    (h : Orderly K args log ⟨s, .script control stack base, S⟩)
    (step : step host ⟨s, .script control stack base, S⟩ = .next m') : Orderly K args log m' := by
  obtain ⟨hb, p, ps, doing, counted, books⟩ := h
  have move := move_of_step step
  cases doing with
  | script stacked waits hk =>
    unfold Machine.step stepScript at step
    dsimp only at step
    split at step
    case h_1 t ht =>
      cases step
      exact .silent move hb rfl (.script stacked waits hk) counted books
    case h_2 n args' t ht =>
      cases step
      have tidy := (errands n args').tidy (p := .begun) rfl (.inl rfl)
      exact .silent move hb rfl (.host (.native stacked waits hk) tidy) nofun books.push
    case h_3 c memory ht =>
      cases step
      exact .silent move hb rfl (.host stacked (hk c)) counted books
    case h_4 => cases step

/-- Host code makes a change, which is its own if no other code waits. -/
theorem Orderly.write {s : State} {u : Update} {c : Code}
    (h : Orderly K args log ⟨s, .host (.write u c), S⟩) :
    (NoScript K ⟨s, .host (.write u c), S⟩ →
      Orderly K args (log ++ [.own u]) ⟨u.apply s, .host c, S⟩) ∧
    (¬ NoScript K ⟨s, .host (.write u c), S⟩ →
      Orderly K args (log ++ [.other u]) ⟨u.apply s, .host c, S⟩) := by
  obtain ⟨hb, p, ps, doing, counted, books⟩ := h
  have here := doing.noScript_iff
  obtain ⟨hb', made⟩ := Move.write (u := u) (c := c) (K := S) |>.staged (q := .call) hb
  replace made : (u.apply s).staged .call = u.onQueue .call (s.staged .call) := made
  have counted' (eq : (p.after u).counted = true) :
      ((u.apply s).staged .call).length = (p.after u).staged := by
    have other := Phase.not_touches_of_counted eq
    rw [made, Update.onQueue_of_not_touches other]
    rw [Phase.after_of_not_touches other] at eq ⊢
    exact counted eq
  cases doing with
  | host stacked hc =>
    have doing' : Doing K ⟨u.apply s, .host c, S⟩ (p.after u) ps := .host stacked hc.2
    refine ⟨fun first => ?_, fun away => ?_⟩
    · obtain rfl := here.mp first
      exact ⟨hb', _, _, doing', counted', made ▸ books.write_last hc.1⟩
    · have some : ps ≠ [] := fun none => away (here.mpr none)
      exact ⟨hb', _, _, doing', counted', made ▸ books.write_next some stacked.waits hc.1⟩

theorem Orderly.step (errands : ∀ n args, (host n args).Errand 0) (h : Orderly K args log m)
    (step : m.step host = .next m') (hK : K <:+ m'.stack) :
    (NoScript K m → Orderly K args (log ++ m.writes.map .own) m') ∧
    (¬ NoScript K m → Orderly K args (log ++ m.writes.map .other) m') := by
  obtain ⟨s, activity, S⟩ := m
  cases activity with
  | script control stack base =>
    have later := h.script_step errands step
    simp only [writes, List.map_nil, List.append_nil]
    exact ⟨fun _ => later, fun _ => later⟩
  | host c =>
    by_cases silent : writes ⟨s, .host c, S⟩ = []
    · have later := h.code_move (move_of_step step) hK silent
      simp only [silent, List.map_nil, List.append_nil]
      exact ⟨fun _ => later, fun _ => later⟩
    · cases c with
      | write u c =>
        cases step
        exact h.write
      | _ => exact absurd rfl silent

/-- Under hosts whose functions are errands, all codes stay tidy and their books right. -/
theorem Ledger.orderly {H : Host → Prop}
    (errands : ∀ host, H host → ∀ n args, (host n args).Errand 0) {s : State} {c : Code}
    (hb : s.env.bridge.isSome = true) (hc : c.Errand 0)
    (h : Ledger H K ⟨s, .host c, K⟩ log m) : Orderly K (s.staged .call) log m := by
  induction h with
  | begins => exact orderly_begins hb hc
  | own h here lent step hK ih => exact (ih.step (errands _ lent) step hK).1 here
  | other h away lent step hK ih => exact (ih.step (errands _ lent) step hK).2 away

end Machine

/-! ## What is staged -/

open Machine

/-- A host that lends one function, which stages an argument and makes a call that declares one. -/
def errander : Host :=
  Code.native fun _ _ => Code.stageAll [.int 5] (Operation.callValue (.builtin .type) 1 .all).code

theorem errand_errander :
    ∀ host, host = errander → ∀ n args, (host n args : Code).Errand 0 := by
  rintro _ rfl n args
  refine Code.errand_native (fun _ _ => ?_) n args
  exact Code.errand_stageAll (o := .callValue (.builtin .type) 1 .all) rfl

end CardBridge
