import CardBridge.Proofs.Lives
import CardBridge.Proofs.Paths

/-!
# Steps of operations

A step of an operation is a scope of host code that knows the coroutine it runs on. An operation
may be given up while it is at a step, and another one may begin under its name inside that step,
on a new coroutine. `Stepped` says what keeps the table right then : an operation is running
exactly while a step on its own coroutine is open, and the steps of one name that are open are on
newer coroutines the further inside they are. It is kept by every effect (`Stepped.effect`).

So the end of a step finds its own operation running, or one that is newer and not running, which
it leaves alone, or none.
-/

namespace CardBridge

open Script (Memory Value)

/-- The steps of operations among some open scopes, innermost first, with the coroutines that they
run on. -/
def steps (os : List Open) : List (CoroutineId × Nat) :=
  os.filterMap fun
    | .step id thread => some (id, thread)
    | _ => none

/-- A table of operations fits the steps that are open and the number of coroutines. -/
structure Stepped (t : CoroutineTable Nat) (ss : List (CoroutineId × Nat)) (threads : Nat) :
    Prop where
  phase {id : CoroutineId} {e : CoroutineEntry Nat} : t.lookup id = some e →
    e.phase = .running ∨ e.phase = .yielded
  running {id : CoroutineId} {e : CoroutineEntry Nat} : t.lookup id = some e →
    (e.phase = .running ↔ (id, e.payload) ∈ ss)
  newest {id : CoroutineId} {e : CoroutineEntry Nat} {n : Nat} : t.lookup id = some e →
    (id, n) ∈ ss → n ≤ e.payload
  nested : ss.Pairwise fun p p' => p.1 = p'.1 → p'.2 < p.2
  kept {id : CoroutineId} {e : CoroutineEntry Nat} : t.lookup id = some e → e.payload < threads
  opened {id : CoroutineId} {n : Nat} : (id, n) ∈ ss → n < threads

namespace Stepped

variable {t : CoroutineTable Nat} {ss : List (CoroutineId × Nat)} {threads threads' : Nat}
  {id : CoroutineId}

theorem fresh (threads : Nat) : Stepped [] [] threads where
  phase h := nomatch h
  running h := nomatch h
  newest h := nomatch h
  nested := .nil
  kept h := nomatch h
  opened h := nomatch h

theorem mono (h : Stepped t ss threads) (le : threads ≤ threads') : Stepped t ss threads' :=
  { h with
    kept := fun he => Nat.lt_of_lt_of_le (h.kept he) le
    opened := fun ho => Nat.lt_of_lt_of_le (h.opened ho) le }

theorem mem_cons_iff {id' : CoroutineId} {n n' : Nat} (ne : id' ≠ id) :
    (id', n') ∈ (id, n) :: ss ↔ (id', n') ∈ ss := by
  refine ⟨fun h => (List.mem_cons.mp h).resolve_left fun eq => ?_, List.mem_cons_of_mem _⟩
  exact ne (congrArg Prod.fst eq)

/-- A step begins on a coroutine that is newer than those of the open steps of its name. -/
theorem begins (h : Stepped t ss threads) {n : Nat} (newer : ∀ n', (id, n') ∈ ss → n' < n)
    (lt : n < threads) :
    Stepped (Keyed.put id ⟨.running, n⟩ t) ((id, n) :: ss) threads := by
  refine ⟨fun he => ?_, fun he => ?_, fun he hs => ?_, ?_, fun he => ?_, fun hs => ?_⟩
  · obtain ⟨rfl, rfl⟩ | ⟨-, he⟩ := Keyed.lookup_put_cases he
    · exact .inl rfl
    · exact h.phase he
  · obtain ⟨rfl, rfl⟩ | ⟨ne, he⟩ := Keyed.lookup_put_cases he
    · exact iff_of_true rfl List.mem_cons_self
    · exact (h.running he).trans (mem_cons_iff ne).symm
  · obtain ⟨rfl, rfl⟩ | ⟨ne, he⟩ := Keyed.lookup_put_cases he
    · obtain eq | hs := List.mem_cons.mp hs
      · cases eq
        exact Nat.le_refl _
      · exact Nat.le_of_lt (newer _ hs)
    · exact h.newest he ((mem_cons_iff ne).mp hs)
  · refine List.pairwise_cons.mpr ⟨?_, h.nested⟩
    rintro ⟨id', n'⟩ mem rfl
    exact newer n' mem
  · obtain ⟨rfl, rfl⟩ | ⟨-, he⟩ := Keyed.lookup_put_cases he
    · exact lt
    · exact h.kept he
  · obtain eq | hs := List.mem_cons.mp hs
    · cases eq
      exact lt
    · exact h.opened hs

theorem erase (h : Stepped t ss threads) (id : CoroutineId) :
    Stepped (Keyed.erase id t) ss threads := by
  have kept : ∀ {id' e}, (Keyed.erase id t).lookup id' = some e → t.lookup id' = some e :=
    fun he => (Keyed.lookup_erase_cases he).2
  exact ⟨fun he => h.phase (kept he), fun he => h.running (kept he),
    fun he hs => h.newest (kept he) hs, h.nested, fun he => h.kept (kept he), h.opened⟩

theorem abandon (h : Stepped t ss threads) (id : CoroutineId) :
    Stepped (CoroutineTable.abandon t id).2 ss threads := by
  unfold CoroutineTable.abandon
  split
  · exact h
  · exact h.erase id

/-- A step that is not of the operation kept under its name can be left out. -/
theorem tail {n : Nat} (h : Stepped t ((id, n) :: ss) threads)
    (other : ∀ e, t.lookup id = some e → e.payload ≠ n) : Stepped t ss threads := by
  refine ⟨h.phase, fun {id' e} he => ?_, fun he hs => h.newest he (List.mem_cons_of_mem _ hs),
    (List.pairwise_cons.mp h.nested).2, h.kept, fun hs => h.opened (List.mem_cons_of_mem _ hs)⟩
  refine (h.running he).trans ⟨fun hs => ?_, List.mem_cons_of_mem _⟩
  obtain eq | hs := List.mem_cons.mp hs
  · cases eq
    exact absurd rfl (other e he)
  · exact hs

/-- The open steps of a name around one of them are on older coroutines. -/
theorem outer {n n' : Nat} (h : Stepped t ((id, n) :: ss) threads) (mem : (id, n') ∈ ss) :
    n' < n :=
  (List.pairwise_cons.mp h.nested).1 _ mem rfl

/-- An operation on another coroutine than that of the innermost step of its name is newer, and it
is not at a step. -/
theorem newer {n : Nat} (h : Stepped t ((id, n) :: ss) threads) {e : CoroutineEntry Nat}
    (he : t.lookup id = some e) (other : e.payload ≠ n) : n < e.payload ∧ e.phase = .yielded := by
  have lt : n < e.payload :=
    Nat.lt_of_le_of_ne (h.newest he List.mem_cons_self) other.symm
  refine ⟨lt, (h.phase he).resolve_left fun running => ?_⟩
  obtain eq | mem := List.mem_cons.mp ((h.running he).mp running)
  · exact other (congrArg Prod.snd eq)
  · exact Nat.lt_asymm lt (h.outer mem)

/-- A step ends and leaves its operation suspended. -/
theorem suspends {e : CoroutineEntry Nat} (h : Stepped t ((id, e.payload) :: ss) threads)
    (he : t.lookup id = some e) :
    Stepped (Keyed.put id { e with phase := .yielded } t) ss threads := by
  refine ⟨fun he' => ?_, fun he' => ?_, fun he' hs => ?_, (List.pairwise_cons.mp h.nested).2,
    fun he' => ?_, fun hs => h.opened (List.mem_cons_of_mem _ hs)⟩
  · obtain ⟨rfl, rfl⟩ | ⟨-, he'⟩ := Keyed.lookup_put_cases he'
    · exact .inr rfl
    · exact h.phase he'
  · obtain ⟨rfl, rfl⟩ | ⟨ne, he'⟩ := Keyed.lookup_put_cases he'
    · exact iff_of_false (fun eq => nomatch eq) fun hs => Nat.lt_irrefl _ (h.outer hs)
    · exact (h.running he').trans (mem_cons_iff ne)
  · obtain ⟨rfl, rfl⟩ | ⟨ne, he'⟩ := Keyed.lookup_put_cases he'
    · exact Nat.le_of_lt (h.outer hs)
    · exact h.newest he' (List.mem_cons_of_mem _ hs)
  · obtain ⟨rfl, rfl⟩ | ⟨-, he'⟩ := Keyed.lookup_put_cases he'
    · exact (h.kept he : e.payload < threads)
    · exact h.kept he'

end Stepped

/-! ## The end of a step -/

namespace CoroutineTable

variable {t : CoroutineTable Nat} {id : CoroutineId} {e : CoroutineEntry Nat}

/-- What the end of a step with a reply makes of a table. -/
def endStep (t : CoroutineTable Nat) (id : CoroutineId) (r : Reply) : CoroutineTable Nat :=
  (t.finishStep id (State.phaseAfter r)).toOption.getD t

/-- The end of a step leaves an operation alone that is not at one. -/
theorem endStep_yielded (he : t.lookup id = some e) (yielded : e.phase = .yielded) (r : Reply) :
    t.endStep id r = t := by
  unfold endStep finishStep
  simp only [he, yielded]
  cases r <;> rfl

theorem endStep_none (he : t.lookup id = none) (r : Reply) : t.endStep id r = t := by
  unfold endStep finishStep
  rw [he]
  rfl

/-- The end of a step suspends an operation that is at one, or takes it away. -/
theorem endStep_running (he : t.lookup id = some e) (running : e.phase = .running) (r : Reply) :
    t.endStep id r = if State.phaseAfter r = .yielded then
      Keyed.put id { e with phase := .yielded } t else Keyed.erase id t := by
  unfold endStep finishStep
  simp only [he, running]
  cases r <;> rfl

/-- The end of a step does not reach other names. -/
theorem lookup_endStep {id' : CoroutineId} (ne : id' ≠ id) (r : Reply) :
    (t.endStep id r).lookup id' = t.lookup id' := by
  unfold endStep finishStep
  split
  · rfl
  · split
    · rfl
    · split
      · exact Keyed.lookup_erase_of_ne ne t
      · exact Keyed.lookup_put_of_ne ne _ t

/-- The end of a step puts no operation on another coroutine. -/
theorem payload_endStep {id' : CoroutineId} {r : Reply} (h : (t.endStep id' r).lookup id = some e) :
    ∃ e', t.lookup id = some e' ∧ e'.payload = e.payload := by
  unfold endStep finishStep at h
  split at h
  · exact ⟨e, h, rfl⟩
  case h_2 e' he' =>
    split at h
    · exact ⟨e, h, rfl⟩
    · split at h
      · exact ⟨e, (Keyed.lookup_erase_cases h).2, rfl⟩
      · obtain ⟨rfl, rfl⟩ | ⟨-, h⟩ := Keyed.lookup_put_cases h
        · exact ⟨e', he', rfl⟩
        · exact ⟨e, h, rfl⟩

end CoroutineTable

/-- A step ends. -/
theorem Stepped.ends {t : CoroutineTable Nat} {ss : List (CoroutineId × Nat)} {threads n : Nat}
    {id : CoroutineId} (h : Stepped t ((id, n) :: ss) threads) (r : Reply) :
    Stepped (t.endStep id r) ss threads := by
  cases he : t.lookup id with
  | none =>
    rw [CoroutineTable.endStep_none he]
    exact h.tail fun e he' => by rw [he] at he'; cases he'
  | some e =>
    by_cases own : e.payload = n
    · subst own
      have running := (h.running he).mpr List.mem_cons_self
      rw [CoroutineTable.endStep_running he running]
      split
      · exact h.suspends he
      · refine (h.erase id).tail fun e' he' => ?_
        rw [Keyed.lookup_erase_self] at he'
        cases he'
    · rw [CoroutineTable.endStep_yielded he (h.newer he own).2]
      refine h.tail fun e' he' => ?_
      cases he.symm.trans he'
      exact own

/-! ## Steps in a life -/

/-- What one step can do to the table of operations : from which table, with which steps open and
how many coroutines, by which changes of host code, to what of these then. -/
inductive TableEffect (t : CoroutineTable Nat) (threads : Nat) (us : List Update) :
    List (CoroutineId × Nat) → CoroutineTable Nat → List (CoroutineId × Nat) → Nat → Prop
  | quiet {ss : List (CoroutineId × Nat)} {threads' : Nat} (h : ∀ id, .abandon id ∉ us) :
    TableEffect t threads us ss t ss threads'
  | abandon {ss : List (CoroutineId × Nat)} {threads' : Nat} {id : CoroutineId}
    (h : us = [.abandon id]) : TableEffect t threads us ss (t.abandon id).2 ss threads'
  | start {ss : List (CoroutineId × Nat)} {threads' : Nat} {id : CoroutineId}
    (h : t.lookup id = none) (more : threads < threads') (silent : us = []) :
    TableEffect t threads us ss (Keyed.put id ⟨.running, threads⟩ t) ((id, threads) :: ss) threads'
  | proceed {ss : List (CoroutineId × Nat)} {threads' : Nat} {id : CoroutineId}
    {e : CoroutineEntry Nat} (h : t.lookup id = some e)
    (ready : e.phase.canBecome .running = true) (silent : us = []) :
    TableEffect t threads us ss (Keyed.put id ⟨.running, e.payload⟩ t) ((id, e.payload) :: ss)
      threads'
  | ends {ss : List (CoroutineId × Nat)} {threads' : Nat} {id : CoroutineId} {n : Nat} (r : Reply)
    (silent : us = []) : TableEffect t threads us ((id, n) :: ss) (t.endStep id r) ss threads'

namespace TableEffect

variable {t t' : CoroutineTable Nat} {threads threads' : Nat} {us : List Update}
  {ss ss' : List (CoroutineId × Nat)} {id : CoroutineId} {n : Nat}

theorem stepped (e : TableEffect t threads us ss t' ss' threads') (le : threads ≤ threads')
    (h : Stepped t ss threads) : Stepped t' ss' threads' := by
  have more := h.mono le
  cases e with
  | quiet => exact more
  | abandon => exact more.abandon _
  | start unused lt => exact more.begins (fun n hs => h.opened hs) lt
  | proceed he ready =>
    refine more.begins (fun n hs => Nat.lt_of_le_of_ne (h.newest he hs) ?_) (more.kept he)
    rintro rfl
    rw [(h.running he).mpr hs] at ready
    cases ready
  | ends r => exact more.ends r

/-- Inside a step, and unless the operation is given up, it stays at that step. -/
theorem running (e : TableEffect t threads us ss t' ss' threads') (h : Stepped t ss threads)
    (he : t.lookup id = some ⟨.running, n⟩) (inside : (id, n) ∈ ss') (kept : .abandon id ∉ us) :
    t'.lookup id = some ⟨.running, n⟩ := by
  cases e with
  | quiet => exact he
  | @abandon _ _ id' eq =>
    have ne : id ≠ id' := by
      rintro rfl
      exact kept (eq ▸ List.mem_cons_self)
    unfold CoroutineTable.abandon
    split
    · exact he
    · exact (Keyed.lookup_erase_of_ne ne _).trans he
  | start unused =>
    refine (Keyed.lookup_put_of_ne ?_ _ _).trans he
    rintro rfl
    cases unused.symm.trans he
  | proceed he' ready =>
    refine (Keyed.lookup_put_of_ne ?_ _ _).trans he
    rintro rfl
    cases he.symm.trans he'
    cases ready
  | ends r =>
    refine (CoroutineTable.lookup_endStep ?_ r).trans he
    rintro rfl
    exact Nat.not_lt.mpr (h.newest he List.mem_cons_self) (h.outer inside)

/-- An operation that is not kept is not kept again, since a new one is on a new coroutine. -/
theorem gone (e : TableEffect t threads us ss t' ss' threads') (there : n < threads)
    (h : ∀ e, t.lookup id = some e → e.payload ≠ n) :
    ∀ e, t'.lookup id = some e → e.payload ≠ n := by
  cases e with
  | quiet => exact h
  | abandon =>
    unfold CoroutineTable.abandon
    split
    · exact h
    · exact fun e he => h e (Keyed.lookup_erase_cases he).2
  | start unused =>
    intro e he
    obtain ⟨rfl, rfl⟩ | ⟨-, he⟩ := Keyed.lookup_put_cases he
    · exact Nat.ne_of_gt there
    · exact h e he
  | proceed he' =>
    intro e he
    obtain ⟨rfl, rfl⟩ | ⟨-, he⟩ := Keyed.lookup_put_cases he
    · exact (h _ he' : _ ≠ n)
    · exact h e he
  | ends r =>
    intro e he
    obtain ⟨e', he', same⟩ := CoroutineTable.payload_endStep he
    exact same ▸ h e' he'

theorem given_up (e : TableEffect t threads us ss t' ss' threads') (h : .abandon id ∈ us) :
    t'.lookup id = none := by
  cases e with
  | quiet kept => exact absurd h (kept id)
  | abandon eq =>
    rw [eq, List.mem_singleton] at h
    cases h
    unfold CoroutineTable.abandon
    split
    · assumption
    · exact Keyed.lookup_erase_self _ _
  | start _ _ silent | proceed _ _ silent | ends _ silent =>
    rw [silent] at h
    cases h

end TableEffect

/-- Every step does one of that to the table of operations, and takes no coroutine away. -/
theorem Effect.table {s s' : State} {os os' : List Open} {us : List Update}
    (h : Effect s os us s' os') {b : Bridge} (hb : s.env.bridge = some b) :
    s.env.memory.threads.size ≤ s'.env.memory.threads.size ∧
      ∃ b', s'.env.bridge = some b' ∧ TableEffect b.coroutines s.env.memory.threads.size us
        (steps os) b'.coroutines (steps os') s'.env.memory.threads.size := by
  refine ⟨h.memory_edits.threads_size_le, ?_⟩
  cases h with
  | quiet | script => exact ⟨b, hb, .quiet fun _ gone => nomatch gone⟩
  | write u =>
    obtain ⟨registry, messages, hb'⟩ := u.apply_bridge hb
    refine ⟨_, hb', ?_⟩
    cases u with
    | abandon id => exact .abandon rfl
    | stage | clear | register | unregister | emit | report | hold | copySlot | dropSlot
    | makeClass | makeTable | addChunk | called | ended => exact .quiet (by simp)
  | @enter _ scope o _ enters =>
    obtain ⟨-, depth, noAction, -, hb'⟩ := Scope.enter_bridge enters hb
    refine ⟨_, hb', ?_⟩
    cases scope with
    | start id f =>
      obtain ⟨b', hb₁, unused, rfl, rfl⟩ := Scope.enter_start enters
      cases hb.symm.trans hb₁
      exact .start unused (by simp [Memory.addThread]) rfl
    | proceed id =>
      obtain ⟨b', e, hb₁, he, ready, rfl, rfl⟩ := Scope.enter_proceed enters
      cases hb.symm.trans hb₁
      exact .proceed he ready rfl
    | guard =>
      obtain ⟨rfl, -⟩ := Scope.enter_guard enters
      exact .quiet (by simp)
    | query =>
      obtain ⟨rfl, -⟩ := Scope.enter_query enters
      exact .quiet (by simp)
    | loading code =>
      obtain ⟨rfl, -⟩ := Scope.enter_loading enters
      exact .quiet (by simp)
    | holding cs =>
      obtain ⟨rfl, -⟩ := Scope.enter_holding enters
      exact .quiet (by simp)
  | leave o r =>
    obtain ⟨-, noAction, hb'⟩ := o.leave_bridge r hb
    refine ⟨_, hb', ?_⟩
    cases o with
    | step id n => exact .ends r rfl
    | guard | query | loading | holding => exact .quiet (by simp)

/-- The operations of an environment fit the open scopes. -/
def Environment.Stepped (env : Environment) (os : List Open) : Prop :=
  ∃ b, env.bridge = some b ∧ CardBridge.Stepped b.coroutines (steps os) env.memory.threads.size

/-- Whatever happens, the operations fit the open scopes. -/
theorem Environment.Stepped.effect {s s' : State} {os os' : List Open} {us : List Update}
    (h : s.env.Stepped os) (e : Effect s os us s' os') : s'.env.Stepped os' := by
  obtain ⟨b, hb, h⟩ := h
  obtain ⟨le, b', hb', step⟩ := e.table hb
  exact ⟨b', hb', step.stepped le h⟩

/-- An environment is at a step of an operation on a coroutine. -/
def Environment.AtStep (env : Environment) (id : CoroutineId) (n : Nat) : Prop :=
  ∃ b, env.bridge = some b ∧ b.coroutines.lookup id = some ⟨.running, n⟩

theorem Environment.AtStep.effect {s s' : State} {os os' : List Open} {us : List Update}
    {id : CoroutineId} {n : Nat} (h : s.env.AtStep id n) (stepped : s.env.Stepped os)
    (e : Effect s os us s' os') (inside : (id, n) ∈ steps os') (kept : .abandon id ∉ us) :
    s'.env.AtStep id n := by
  obtain ⟨b, hb, he⟩ := h
  obtain ⟨b₁, hb₁, fits⟩ := stepped
  cases hb.symm.trans hb₁
  obtain ⟨-, b', hb', step⟩ := e.table hb
  exact ⟨b', hb', step.running fits he inside kept⟩

/-! ## The result of a step -/

/-- A failure that is not an error of a script. -/
def Failure.IsRefusal (f : Failure) : Prop :=
  ∀ text, f ≠ .script text

theorem State.resolve_refusal {s : State} {c : Callable} {f : Failure}
    (h : s.resolve c = .error f) : f.IsRefusal := by
  intro text eq
  subst eq
  unfold resolve at h
  repeat' split at h
  all_goals cases h

theorem State.argumentValue_refusal {s : State} {a : Argument} {f : Failure}
    (h : s.argumentValue a = .error f) : f.IsRefusal := by
  cases a with
  | object o =>
    intro text eq
    subst eq
    simp only [argumentValue, objectValue] at h
    split at h <;> cases h
  | function c => exact resolve_refusal h
  | nil | int | bool | text | value => cases h

theorem exists_of_mapM_error {α β ε : Type} {g : α → Except ε β} :
    ∀ {as : List α} {e : ε}, as.mapM g = .error e → ∃ a ∈ as, g a = .error e
  | [], e, h => by cases h
  | a :: as, e, h => by
    rw [List.mapM_cons] at h
    cases ha : g a with
    | error e' =>
      rw [ha] at h
      cases h
      exact ⟨a, List.mem_cons_self, ha⟩
    | ok b =>
      rw [ha] at h
      cases has : as.mapM g with
      | error e' =>
        rw [has] at h
        cases h
        obtain ⟨a', mem, h'⟩ := exists_of_mapM_error has
        exact ⟨a', List.mem_cons_of_mem _ mem, h'⟩
      | ok bs =>
        rw [has] at h
        cases h

theorem State.stagedValues_refusal {s : State} {q : Queue} {f : Failure}
    (h : s.stagedValues q = .error f) : f.IsRefusal := by
  unfold stagedValues at h
  split at h
  · cases h
    exact fun _ eq => nomatch eq
  · obtain ⟨a, -, ha⟩ := exists_of_mapM_error h
    exact argumentValue_refusal ha

theorem CoroutineTable.begin_refusal {t : CoroutineTable Nat} {id : CoroutineId} {f : Failure}
    (h : t.begin id = .error f) : f.IsRefusal := by
  intro text eq
  subst eq
  unfold begin at h
  split at h
  · cases h
  · split at h <;> cases h

theorem State.beginStep_refusal {s : State} {id : CoroutineId} {f : Failure}
    (h : s.beginStep id = .error f) : f.IsRefusal := by
  unfold beginStep at h
  split at h
  · cases h
    exact fun _ eq => nomatch eq
  case h_2 b hb =>
    cases hc : b.coroutines.begin id with
    | error f' =>
      rw [hc] at h
      cases h
      exact CoroutineTable.begin_refusal hc
    | ok r =>
      rw [hc] at h
      cases h

theorem State.startStep_refusal {s : State} {id : CoroutineId} {v : Value} {f : Failure}
    (h : s.startStep id v = .error f) : f.IsRefusal := by
  unfold startStep at h
  split at h
  · cases h
    exact fun _ => Failure.noConfusion
  case h_2 b hb =>
    dsimp only at h
    cases hl : b.coroutines.lookup id with
    | some e =>
      rw [CoroutineTable.create, hl] at h
      cases h
      exact fun _ => Failure.noConfusion
    | none =>
      rw [CoroutineTable.create, hl] at h
      exact beginStep_refusal h

theorem State.enterGuard_refusal {s : State} {f : Failure} (h : s.enterGuard = .error f) :
    f.IsRefusal := by
  intro text eq
  subst eq
  unfold enterGuard at h
  split at h
  · cases h
  · split at h <;> cases h

theorem error_of_map {α β ε : Type} {g : α → β} {x : Except ε α} {e : ε}
    (h : x.map g = .error e) : x = .error e := by
  cases x with
  | error e' =>
    cases h
    rfl
  | ok a => cases h

/-- What refuses a scope is no error of a script. -/
theorem Scope.enter_refusal {s : State} {scope : Scope} {f : Failure}
    (h : scope.enter s = .error f) : f.IsRefusal := by
  cases scope with
  | guard => exact State.enterGuard_refusal (error_of_map h)
  | start id v => exact State.startStep_refusal (error_of_map h)
  | proceed id => exact State.beginStep_refusal (error_of_map h)
  | query | loading | holding => cases h

/-- How a step of an operation can end : its result, and the phase of the operation after it. -/
inductive StepEnd (id : CoroutineId) (s : State) : CoroutineResult → Prop
  | yielded (vs : List Value) (h : s.phase id = some .yielded) : StepEnd id s (.gave .yield vs)
  | finished (vs : List Value) (h : s.phase id = none) : StepEnd id s (.gave .finish vs)
  | raised (text : String) (h : s.phase id = none) : StepEnd id s (.failed (.script text))
  | refused {f : Failure} (h : f.IsRefusal) : StepEnd id s (.failed f)

theorem StepEnd.congr {id : CoroutineId} {s s' : State} {res : CoroutineResult}
    (h : StepEnd id s res) (same : s'.phase id = s.phase id) : StepEnd id s' res := by
  cases h with
  | yielded vs h => exact .yielded vs (same.trans h)
  | finished vs h => exact .finished vs (same.trans h)
  | raised text h => exact .raised text (same.trans h)
  | refused h => exact .refused h

theorem StepEnd.of_yield {id : CoroutineId} {s : State} {res : CoroutineResult}
    (h : StepEnd id s res) (eq : res.status = .yield) : s.phase id = some .yielded := by
  cases h with
  | yielded vs h => exact h
  | finished | raised | refused => cases eq

theorem StepEnd.of_finish {id : CoroutineId} {s : State} {res : CoroutineResult}
    (h : StepEnd id s res) (eq : res.status = .finish) : s.phase id = none := by
  cases h with
  | finished vs h => exact h
  | yielded | raised | refused => cases eq

theorem StepEnd.of_script {id : CoroutineId} {s : State} {res : CoroutineResult} {text : String}
    (h : StepEnd id s res) (eq : res.error = some (.script text)) : s.phase id = none := by
  cases h with
  | raised text h => exact h
  | refused refusal => exact absurd (Option.some.inj eq) (refusal text)
  | yielded | finished => cases eq

/-- A scope that is a step of an operation. -/
def Scope.IsStep (scope : Scope) (id : CoroutineId) : Prop :=
  scope = .proceed id ∨ ∃ f, scope = .start id f

/-- A step begins with its operation running on the coroutine that it knows. -/
theorem Scope.IsStep.enter {scope : Scope} {id : CoroutineId} (h : scope.IsStep id) {s s' : State}
    {o : Open} (enters : scope.enter s = .ok (o, s')) :
    ∃ n, o = .step id n ∧ s'.env.AtStep id n := by
  obtain rfl | ⟨f, rfl⟩ := h
  · obtain ⟨b, e, hb, -, -, rfl, rfl⟩ := Scope.enter_proceed enters
    exact ⟨_, rfl, _, by simp [hb]; rfl, Keyed.lookup_put_self _ _ _⟩
  · obtain ⟨b, hb, -, rfl, rfl⟩ := Scope.enter_start enters
    exact ⟨_, rfl, _, by simp [hb]; rfl, Keyed.lookup_put_self _ _ _⟩

/-- The end of a step suspends its operation, or takes it away. -/
theorem Environment.AtStep.phase_leave {s : State} {id : CoroutineId} {n : Nat}
    (h : s.env.AtStep id n) (r : Reply) : ((Open.step id n).leave s r).phase id =
      if State.phaseAfter r = .yielded then some .yielded else none := by
  obtain ⟨b, hb, he⟩ := h
  obtain ⟨-, noAction, hb'⟩ := (Open.step id n).leave_bridge r hb
  rw [State.phase, hb', Option.bind_some]
  have ended := CoroutineTable.endStep_running he rfl r
  rw [CoroutineTable.endStep] at ended
  rw [Open.leaveCoroutines, ended]
  split
  · simp [CoroutineTable.phase]
  · simp [CoroutineTable.phase]

theorem State.phase_report (s : State) (site : String) (f : Failure) (id : CoroutineId) :
    (s.report site f).phase id = s.phase id := by
  obtain ⟨messages, e⟩ := s.report_env site f
  cases hb : s.env.bridge <;> simp [phase, e, hb]

theorem State.phase_leaveGuard (s : State) (id : CoroutineId) :
    s.leaveGuard.phase id = s.phase id := by
  cases hb : s.env.bridge <;> simp [phase, hb]

namespace Code

open Machine

variable {K : List Frame} {s s' : State} {us : List Update} {r : Reply} {q : Queue}
  {id : CoroutineId}

/-- What the coroutine of a step can come to. -/
theorem path_resumeStaged (h : Path (resumeStaged q id) us r) :
    (∃ vs, r = .answer (.values vs)) ∨ (∃ vs, r = .suspended vs) ∨ (∃ text, r = .raised text) ∨
      ∃ f, r = .failed f ∧ f.IsRefusal := by
  obtain ⟨us', -, ⟨vs, h⟩ | ⟨s, f, hf, rfl⟩⟩ := path_withStaged h
  · cases h with
    | read s h =>
      dsimp only at h
      split at h
      · cases h with
        | run c h =>
          cases c with
          | returned vs =>
            obtain ⟨-, rfl⟩ := path_finish h
            exact .inl ⟨vs, rfl⟩
          | yielded vs =>
            obtain ⟨-, rfl⟩ := path_finish h
            exact .inr (.inl ⟨vs, rfl⟩)
          | raised v =>
            obtain ⟨text, h⟩ := path_wording _ _ h
            obtain ⟨-, rfl⟩ := path_finish h
            exact .inr (.inr (.inl ⟨text, rfl⟩))
      · obtain ⟨-, rfl⟩ := path_finish h
        exact .inr (.inr (.inr ⟨_, rfl, fun _ eq => nomatch eq⟩))
  · exact .inr (.inr (.inr ⟨f, rfl, State.stagedValues_refusal hf⟩))

/-- A step that fails answers so. -/
theorem returns_failStep {f : Failure} (refusal : f.IsRefusal)
    (h : Returns K s (failStep q f) us r s') :
    ∃ res, r = .answer (.step res) ∧ StepEnd id s' res := by
  obtain ⟨us₁, -, cleared⟩ := returns_write h
  obtain ⟨us₂, -, reported⟩ := returns_write cleared
  obtain ⟨-, rfl, -⟩ := returns_finish reported
  exact ⟨_, rfl, .refused refusal⟩

/-- A step that begins ends with its result. -/
theorem returns_step {scope : Scope} (step : scope.IsStep id) (stepped : s.env.Stepped (opens K))
    (kept : .abandon id ∉ us)
    (h : Returns K s (.scope scope (resumeStaged q id) fail stepResult) us r s') :
    (∃ f, r = .failed f ∧ f.IsRefusal) ∨ ∃ res, r = .answer (.step res) ∧ StepEnd id s' res := by
  obtain ⟨f, refused, h⟩ | ⟨o, s₁, us₁, r₁, s₂, us₂, enters, body, after, rfl⟩ := returns_scope h
  · obtain ⟨-, rfl, -⟩ := returns_finish h
    exact .inl ⟨f, rfl, Scope.enter_refusal refused⟩
  obtain ⟨n, rfl, begun⟩ := step.enter enters
  have inside : s₂.env.Stepped (opens (.scope (.step id n) stepResult :: K)) ∧
      s₂.env.AtStep id n := by
    refine Run.invariant (P := fun s os => s.env.Stepped os ∧ s.env.AtStep id n) body ?_
      ⟨stepped.effect (.enter scope enters), begun⟩
    rintro s os ws s' os' ⟨fits, at_step⟩ e above sub
    have open_still : (id, n) ∈ steps os' := (above.filterMap _).subset List.mem_cons_self
    exact ⟨fits.effect e, at_step.effect fits e open_still fun gone =>
      kept (List.mem_append_left _ (sub gone))⟩
  have phase := inside.2.phase_leave r₁
  obtain ⟨own, -, path⟩ := body.path
  obtain ⟨vs, rfl⟩ | ⟨vs, rfl⟩ | ⟨text, rfl⟩ | ⟨f, rfl, refusal⟩ := path_resumeStaged path
  · obtain ⟨-, rfl, rfl⟩ := returns_finish after
    exact .inr ⟨_, rfl, .finished vs phase⟩
  · obtain ⟨-, rfl, rfl⟩ := returns_finish after
    exact .inr ⟨_, rfl, .yielded vs phase⟩
  · obtain ⟨us₃, -, reported⟩ := returns_write after
    obtain ⟨-, rfl, rfl⟩ := returns_finish reported
    exact .inr ⟨_, rfl, .raised text ((State.phase_report _ _ _ _).trans phase)⟩
  · obtain ⟨-, rfl, -⟩ := returns_finish after
    exact .inl ⟨f, rfl, refusal⟩

/-- A step that is asked for ends with a result. -/
theorem returns_runStep {scope : Scope} (step : scope.IsStep id)
    (stepped : s.env.Stepped (opens K)) (kept : .abandon id ∉ us)
    (h : Returns K s (runStep q scope id) us r s') :
    ∃ res, r = .answer (.step res) ∧ StepEnd id s' res := by
  obtain ⟨f, refused, h⟩ | ⟨o, s₁, us₁, r₁, s₂, us₂, enters, inner, after, rfl⟩ := returns_scope h
  · exact returns_failStep (Scope.enter_refusal refused) h
  obtain ⟨rfl, -⟩ := Scope.enter_guard enters
  have ended := returns_step step (stepped.effect (.enter .guard enters))
    (fun gone => kept (List.mem_append_left _ gone)) inner
  obtain ⟨f, rfl, refusal⟩ | ⟨res, rfl, ended⟩ := ended
  · exact returns_failStep refusal after
  · obtain ⟨-, rfl, rfl⟩ := returns_finish after
    exact ⟨res, rfl, ended.congr (State.phase_leaveGuard _ _)⟩

theorem returns_callCoroutine {c : Callable} {declared step : Nat}
    (stepped : s.env.Stepped (opens K)) (kept : .abandon id ∉ us)
    (h : Returns K s (callCoroutine c declared id step) us r s') :
    ∃ res, r = .answer (.step res) ∧ StepEnd id s' res := by
  unfold callCoroutine at h
  split at h
  · replace h := returns_read h
    dsimp only at h
    split at h
    · split at h
      · exact returns_runStep (.inr ⟨_, rfl⟩) stepped kept h
      case h_2 f hf => exact returns_failStep (State.resolve_refusal hf) h
    · exact returns_failStep (by intro _ eq; cases eq) h
  · exact returns_runStep (.inl rfl) stepped kept h

end Code

/-! ## Operations that are given up -/

/-- The operation on a coroutine is not kept under its name any more, though the coroutine is
there. -/
def Environment.GaveUp (env : Environment) (id : CoroutineId) (n : Nat) : Prop :=
  n < env.memory.threads.size ∧
    ∃ b, env.bridge = some b ∧ ∀ e, b.coroutines.lookup id = some e → e.payload ≠ n

theorem Environment.GaveUp.effect {s s' : State} {os os' : List Open} {us : List Update}
    {id : CoroutineId} {n : Nat} (h : s.env.GaveUp id n) (e : Effect s os us s' os') :
    s'.env.GaveUp id n := by
  obtain ⟨there, b, hb, gone⟩ := h
  obtain ⟨le, b', hb', step⟩ := e.table hb
  exact ⟨Nat.lt_of_lt_of_le there le, b', hb', step.gone there gone⟩

open Machine

/-- In a run in which an operation is given up it is not kept under its name at the end. -/
theorem Machine.Run.gaveUp {K : List Frame} {m m' : Machine} {us : List Update}
    {id : CoroutineId} {n : Nat} (h : Run K m us m') (gone : .abandon id ∈ us)
    (there : n < m.state.env.memory.threads.size) (stepped : m.state.env.Stepped (opens m.stack)) :
    m'.state.env.GaveUp id n := by
  induction h with
  | done => cases gone
  | move h hK run ih =>
    obtain ⟨b, hb, fits⟩ := stepped
    obtain ⟨le, b', hb', step⟩ := h.effect.table hb
    obtain now | after := List.mem_append.mp gone
    · refine Run.invariant (P := fun s _ => s.env.GaveUp id n) run (fun h e _ _ => h.effect e) ?_
      refine ⟨Nat.lt_of_lt_of_le there le, b', hb', fun e he => ?_⟩
      cases he.symm.trans (step.given_up now)
    · exact ih after (Nat.lt_of_lt_of_le there le) ⟨b', hb', step.stepped le fits⟩

namespace State

variable {s : State} {b : Bridge} {id : CoroutineId}

/-- The coroutine that an operation runs on. -/
def coroutineOf (s : State) (id : CoroutineId) : Option Nat :=
  s.env.bridge.bind fun b => (b.coroutines.lookup id).map (·.payload)

theorem phase_eq_some_iff (hb : s.env.bridge = some b) {p : CoroutinePhase} :
    s.phase id = some p ↔ ∃ e, b.coroutines.lookup id = some e ∧ e.phase = p := by
  rw [phase, hb, Option.bind_some, CoroutineTable.phase, Option.map_eq_some_iff]

theorem coroutineOf_eq_some_iff (hb : s.env.bridge = some b) {n : Nat} :
    s.coroutineOf id = some n ↔ ∃ e, b.coroutines.lookup id = some e ∧ e.payload = n := by
  rw [coroutineOf, hb, Option.bind_some, Option.map_eq_some_iff]

end State

/-- A step of an operation that is given up meanwhile ends without any effect on what is kept under
its name then, and that is newer. -/
theorem Environment.GaveUp.leave {s : State} {os : List Open} {id : CoroutineId} {n : Nat}
    (h : s.env.GaveUp id n) (stepped : s.env.Stepped (.step id n :: os)) (r : Reply) :
    ((Open.step id n).leave s r).phase id = s.phase id ∧
      ((Open.step id n).leave s r).coroutineOf id = s.coroutineOf id ∧
      ((Open.step id n).leave s r).env.memory = s.env.memory ∧
      ∀ n', s.coroutineOf id = some n' → n < n' := by
  obtain ⟨-, b, hb, gone⟩ := h
  obtain ⟨b', hb', fits⟩ := stepped
  cases hb.symm.trans hb'
  obtain ⟨-, noAction, left⟩ := (Open.step id n).leave_bridge r hb
  have same : b.coroutines.endStep id r = b.coroutines := by
    cases he : b.coroutines.lookup id with
    | none => exact CoroutineTable.endStep_none he r
    | some e => exact CoroutineTable.endStep_yielded he (fits.newer he (gone e he)).2 r
  refine ⟨?_, ?_, rfl, fun n' hn => ?_⟩
  · rw [State.phase, State.phase, left, hb]
    exact congrArg (CoroutineTable.phase · id) same
  · rw [State.coroutineOf, State.coroutineOf, left, hb]
    exact congrArg (fun t : CoroutineTable Nat => (t.lookup id).map (·.payload)) same
  · obtain ⟨e, he, rfl⟩ := (State.coroutineOf_eq_some_iff hb).mp hn
    exact (fits.newer he (gone e he)).1

open Host

/-- **The table of operations is right.** At every moment in the life of an environment an
operation that is kept is running or suspended, it is running exactly while a step on its own
coroutine is open, and when nothing is being done it is suspended. A step that is asked for, and
whose operation is not given up meanwhile, ends with a result : if that is to yield, the operation
is suspended, and if it is to finish or an error of the script, it is not kept. If the operation is
given up inside a step, the end of that step leaves alone what is kept under its name then, which
is newer. -/
theorem coroutine_table_right (b : Blueprint) (m : Machine) (reached : b.Reaches m) :
    (∀ id p, m.state.phase id = some p →
      (p = .running ∨ p = .yielded) ∧
      (p = .running ↔ ∃ n, m.state.coroutineOf id = some n ∧ (id, n) ∈ steps (opens m.stack)) ∧
      (m.stack = [] → p = .yielded)) ∧
    (∀ c declared id step us r s,
      (Operation.callCoroutine c declared id step).code.Returns m.stack m.state us r s →
      .abandon id ∉ us →
        ∃ res, r = .answer (.step res) ∧ (res.status = .yield → s.phase id = some .yielded) ∧
          (res.status = .finish → s.phase id = none) ∧
          ∀ text, res.error = some (.script text) → s.phase id = none) ∧
    ∀ id n k K us s r m', m.stack = .scope (.step id n) k :: K →
      Run m.stack m us ⟨s, .host (.finish r), m.stack⟩ → .abandon id ∈ us →
      Move ⟨s, .host (.finish r), m.stack⟩ m' →
        m'.state.phase id = s.phase id ∧ m'.state.coroutineOf id = s.coroutineOf id ∧
        m'.state.env.memory = s.env.memory ∧ ∀ n', s.coroutineOf id = some n' → n < n' := by
  have stepped : m.state.env.Stepped (opens m.stack) :=
    reached.invariant (P := Environment.Stepped) (fun _ => ⟨_, rfl, .fresh _⟩)
      fun h e => h.effect e
  refine ⟨fun id p hp => ?_, fun c declared id step us r s returns kept => ?_, ?_⟩
  · obtain ⟨x, hx, fits⟩ := stepped
    obtain ⟨e, he, rfl⟩ := (State.phase_eq_some_iff hx).mp hp
    refine ⟨fits.phase he, ?_, fun rest => ?_⟩
    · rw [fits.running he]
      refine ⟨fun mem => ⟨_, (State.coroutineOf_eq_some_iff hx).mpr ⟨e, he, rfl⟩, mem⟩, ?_⟩
      rintro ⟨n, hn, mem⟩
      obtain ⟨e', he', rfl⟩ := (State.coroutineOf_eq_some_iff hx).mp hn
      cases he.symm.trans he'
      exact mem
    · refine (fits.phase he).resolve_left fun running => ?_
      rw [rest] at fits
      cases (fits.running he).mp running
  · obtain ⟨res, rfl, ended⟩ := Code.returns_callCoroutine stepped kept returns
    refine ⟨res, rfl, ?_⟩
    exact ⟨ended.of_yield, ended.of_finish, fun text => ended.of_script⟩
  · intro id n k K us s r m' top run gone h
    have there : n < m.state.env.memory.threads.size := by
      obtain ⟨x, hx, fits⟩ := stepped
      rw [top] at fits
      exact fits.opened List.mem_cons_self
    have later : s.env.Stepped (opens m.stack) :=
      Run.invariant (P := fun s os => s.env.Stepped os) run (fun h e _ _ => h.effect e) stepped
    have gaveUp := run.gaveUp gone there stepped
    rw [top] at h later
    cases h
    exact gaveUp.leave later r

theorem coroutine_table_right_plain :
    (∃ m us r s, (Blueprint.plain ⟨1⟩).Reaches m ∧
      (Operation.callCoroutine ⟨0⟩ 0 ⟨1⟩ 0).code.Returns [] m.state us r s ∧
      r = .answer (.step (.gave .yield [])) ∧ s.phase ⟨1⟩ = some .yielded) ∧
    ∃ s k m, Move ⟨s, .host (.finish (.answer .done)), [.scope (.step ⟨1⟩ 0) k]⟩ m ∧
      m.state.phase ⟨1⟩ = some .yielded ∧ m.state.coroutineOf ⟨1⟩ = some 1 := by
  constructor
  · obtain ⟨r, s, r', s', stops, stops', silent, shown⟩ : ∃ r s r' s',
        run idle 30 (.start ⟨(Blueprint.plain ⟨1⟩).environment 0, ⟨#[⟨true, 0⟩], #[], [], [], []⟩⟩
          (Operation.hold "f" (.builtin .coroutineYield)).code) = .ended r s ∧
        run idle 40 (.start s (Operation.callCoroutine ⟨0⟩ 0 ⟨1⟩ 0).code) = .ended r' s' ∧
        written idle 40 (.start s (Operation.callCoroutine ⟨0⟩ 0 ⟨1⟩ 0).code) = [.clear .call] ∧
        r' = .answer (.step (.gave .yield [])) := ⟨_, _, _, _, rfl, rfl, rfl, rfl⟩
    have reached := Blueprint.reaches_of_ended stops
    have returns := run_of_ended _ _ stops'
    obtain ⟨-, results, -⟩ := coroutine_table_right _ _ reached
    obtain ⟨res, eq, yields, -⟩ := results ⟨0⟩ 0 ⟨1⟩ 0 _ _ _ returns (by rw [silent]; simp)
    rw [shown] at eq
    cases eq
    exact ⟨_, _, r', s', reached, returns, shown, yields rfl⟩
  · have new : (Blueprint.plain ⟨1⟩).Reaches
        (.start ⟨(Blueprint.plain ⟨1⟩).environment 0, .empty⟩
          (.scope (.start ⟨1⟩ .nil)
            (.write (.abandon ⟨1⟩)
              (.scope (.start ⟨1⟩ .nil) (.finish (.suspended [])) .fail fun _ => .done))
            .fail .finish)) := ⟨0, .empty, _, .refl⟩
    have inside := new.later (.single (.move (.enter rfl)))
    obtain ⟨-, -, leaves⟩ := coroutine_table_right _ _ inside
    have again := leaves ⟨1⟩ 0 _ _ _ _ _ _ rfl (.move .write List.suffix_rfl
      (.move (.enter rfl) (List.suffix_cons _ _) (.move .leave List.suffix_rfl (.done _))))
      List.mem_cons_self .leave
    exact ⟨_, _, _, .leave, again.1, again.2.1⟩

end CardBridge
