import CardBridge.Proofs.Surroundings
import Mathlib.Algebra.Ring.Nat
import Mathlib.Data.List.Nodup
import Mathlib.Data.List.Perm.Subperm

/-!
# Explicit and staged arguments

A filter or a query about a card is called with explicit arguments, and a condition or a query that
the host holds with the arguments that are staged. These are two ways through the code : the one
looks the card up and begins the level of invocation, the other counts the arguments, begins the
level and takes them. With nothing else staged they come to the same call in the same state
(`Code.gives_invokeStaged_iff`), so they have the same answer, and they end in states that differ
only in the site at which a failure is reported, and in whether it has emptied the queue
(`State.SameButSite`, `explicit_arguments_agree`).

A value is the first of the values, and a table of further arguments stands for its elements up to
the first index with no value (`Script.Table.sequence_eq`).
-/

namespace CardBridge

open Script (Value Table)

/-! ## Tables -/

namespace Script.Table

variable {t : Table}

/-- The values at `1`, …, `n`. -/
def elements (t : Table) (n : Nat) : List Value :=
  (List.range n).map fun i => t.get (.int (Int64.ofNat (i + 1)))

theorem toInt_ofNat_succ {i : Nat} (h : i + 1 < 2 ^ 63) :
    (Int64.ofNat (i + 1)).toInt = i + 1 := by
  rw [Int64.toInt_ofNat_of_lt h]
  rfl

/-- A key beyond the array that has a value is one of the fields. -/
theorem mem_fields {n : Int64} (h : t.get (.int n) ≠ .nil) (beyond : t.items.size < n.toInt) :
    Value.int n ∈ t.fields.map Prod.fst := by
  have away : t.place? (.int n) = none := by
    simp only [place?]
    rw [if_neg]
    omega
  simp only [get, Value.key, away] at h
  cases found : t.fields.lookup (.int n) with
  | none =>
    rw [found] at h
    exact absurd rfl h
  | some v =>
    obtain ⟨p, rest, eq, -⟩ := List.lookup_eq_some_iff.mp found
    rw [eq]
    simp

/-- A table has room for all values that are at `1`, …, `n`. -/
theorem le_room {n : Nat} (small : n < 2 ^ 63)
    (filled : ∀ i < n, t.get (.int (Int64.ofNat (i + 1))) ≠ .nil) :
    n ≤ t.items.size + t.fields.length := by
  let keys := (List.range (n - t.items.size)).map fun i =>
    Value.int (Int64.ofNat (t.items.size + i + 1))
  have distinct : keys.Nodup := by
    refine List.Nodup.map_on (fun i hi j hj eq => ?_) List.nodup_range
    rw [List.mem_range] at hi hj
    have same := congrArg Int64.toInt (Value.int.inj eq)
    rw [toInt_ofNat_succ (by omega), toInt_ofNat_succ (by omega)] at same
    omega
  have among : keys ⊆ t.fields.map Prod.fst := by
    intro key mem
    obtain ⟨i, hi, rfl⟩ := List.mem_map.mp mem
    rw [List.mem_range] at hi
    refine mem_fields (filled _ (by omega)) ?_
    rw [toInt_ofNat_succ (by omega)]
    omega
  have room := (distinct.subperm among).length_le
  simp only [keys, List.length_map, List.length_range] at room
  omega

/-- What a table is read as is what it has at `1`, `2`, … before the first index with no value. -/
theorem sequence_eq {last : Int64} (positive : 1 ≤ last) (ends : t.get (.int last) = .nil)
    (filled : ∀ i : Int64, 1 ≤ i → i < last → t.get (.int i) ≠ .nil) :
    t.sequence = t.elements (last.toInt.toNat - 1) := by
  have bound := last.toInt_lt
  have low : 1 ≤ last.toInt := Int64.le_iff_toInt_le.mp positive
  obtain ⟨n, hn⟩ : ∃ n : Nat, last.toInt = n + 1 := ⟨last.toInt.toNat - 1, by omega⟩
  have last_eq : last = Int64.ofNat (n + 1) := by
    rw [← Int64.toInt_inj, toInt_ofNat_succ (by omega), hn]
  have before (i : Nat) (hi : i < n) : t.get (.int (Int64.ofNat (i + 1))) ≠ .nil := by
    refine filled _ ?_ ?_
    · rw [Int64.le_iff_toInt_le, toInt_ofNat_succ (by omega), Int64.toInt_one]
      omega
    · rw [Int64.lt_iff_toInt_lt, toInt_ofNat_succ (by omega), hn]
      omega
  obtain ⟨more, room⟩ := Nat.exists_eq_add_of_le (le_room (by omega) before)
  have count : last.toInt.toNat - 1 = n := by omega
  rw [count, sequence, room, List.range_add, List.map_append, List.takeWhile_append_of_pos]
  · cases more with
    | zero => simp [elements]
    | succ more =>
      have stops : decide (t.get (.int (Int64.ofNat (n + 0 + 1))) ≠ .nil) = false :=
        decide_eq_false fun other => other (last_eq ▸ ends)
      rw [List.range_succ_eq_map, List.map_cons, List.map_cons, List.takeWhile_cons, stops]
      exact List.append_nil _
  · intro v mem
    obtain ⟨i, hi, rfl⟩ := List.mem_map.mp mem
    exact decide_eq_true (before i (List.mem_range.mp hi))

end Script.Table

/-! ## Ends of a query -/

/-- Two ends of a query that come from one state. If the call has failed, the same failure was
reported in both, but it may have been at different sites, and what was still staged may have been
discarded before. -/
inductive State.SameButSite : State → State → Prop
  | ended (s : State) : SameButSite s s
  | failed (s : State) (site site' : String) (f : Failure) :
    SameButSite (s.report site f).endQuery (s.report site' f).endQuery
  | cleared (s : State) (site site' : String) (f : Failure) :
    SameButSite (s.report site f).endQuery ((s.clear .call).report site' f).endQuery

/-! ## The call -/

/-- The arguments that are staged for a call about a card. -/
def cardArguments (card : ObjectId) (extra : List Value) : List Argument :=
  .object (.card card) :: extra.map .value

/-- How a reply looks if as many results are kept as are wanted. -/
def Reply.adjusted (ret : ReturnCount) : Reply → Reply
  | .answer (.values vs) => .answer (.values (ret.adjust vs))
  | r => r

namespace State

variable {s : State} {b : Bridge}

/-- A failure is reported, and nothing else. -/
def reported (site : String) (r : Reply) (s : State) : State :=
  match r with
  | .failed f => s.report site f
  | _ => s

/-- A failure empties the queue and is reported. -/
def settled (site : String) (r : Reply) (s : State) : State :=
  match r with
  | .failed f => (s.clear .call).report site f
  | _ => s

theorem sameButSite_reported (s : State) (site site' : String) (r : Reply) :
    (s.reported site r).endQuery.SameButSite (s.reported site' r).endQuery := by
  cases r with
  | failed f => exact .failed s site site' f
  | answer | suspended | raised => exact .ended _

theorem sameButSite_settled (s : State) (site site' : String) (r : Reply) :
    (s.reported site r).endQuery.SameButSite (s.settled site' r).endQuery := by
  cases r with
  | failed f => exact .cleared s site site' f
  | answer | suspended | raised => exact .ended _

theorem reported_adjusted (s : State) (site : String) (ret : ReturnCount) (r : Reply) :
    s.reported site (r.adjusted ret) = s.reported site r := by
  cases r with
  | answer a => cases a <;> rfl
  | suspended | failed | raised => rfl

/-- Arguments that are no functions are staged without owners. -/
theorem stageAll_cardArguments (hb : s.env.bridge = some b) (empty : s.staged .call = [])
    (card : ObjectId) (extra : List Value) :
    s.stageAll (cardArguments card extra) =
      s.updateBridge fun b => { b with params := cardArguments card extra } := by
  have stages (vs : List Value) : ∀ t : State, t.stageAll (vs.map .value) =
      t.updateBridge fun b => { b with params := b.params ++ vs.map .value } := by
    induction vs with
    | nil =>
      intro t
      obtain ⟨⟨_, _, _, bridge, _, _, _, _⟩, _⟩ := t
      cases bridge <;> simp [stageAll, updateBridge]
    | cons v vs ih =>
      intro t
      refine (ih (t.stage .call false (.value v))).trans ?_
      obtain ⟨⟨_, _, _, bridge, _, _, _, _⟩, _⟩ := t
      cases bridge <;>
        simp [stage, updateBridge, Bridge.queue, Bridge.setQueue, ArgumentQueue.pushBack,
          Shared.ownArgument]
  have none_staged : b.params = [] := by simpa [staged, hb, Bridge.queue] using empty
  refine (stages extra (s.stage .call false (.object (.card card)))).trans ?_
  simp [stage, updateBridge, hb, Bridge.queue, Bridge.setQueue, ArgumentQueue.pushBack,
    Shared.ownArgument, none_staged, cardArguments]

end State

namespace Code

open Machine

variable {host : Host} {K : List Frame} {s s' : State} {r : Reply} {b : Bridge}

/-- The call of a function with a card and further values, without the report on its failure. -/
def cardCall (card : ObjectId) (f : Value) (extra : List Value) (ret : ReturnCount) : Code :=
  if f.isFunction then
    read fun s =>
      match s.objectValue (.card card) with
      | .ok v => within .guard (callWith f (v :: extra) ret)
      | .error e => fail e
  else fail (notCallable f)

theorem gives_callOnCard_iff {site : String} {card : ObjectId} {f : Value} {extra : List Value}
    {ret : ReturnCount} :
    Gives host K s (callOnCard site card f extra ret) r s' ↔
      ∃ s₁, Gives host K s (cardCall card f extra ret) r s₁ ∧ s' = s₁.reported site r := by
  have parts : callOnCard site card f extra ret = (cardCall card f extra ret).andThen fun
      | .failed e => write (.report site e) (fail e)
      | r => finish r := rfl
  rw [parts, gives_andThen_iff]
  constructor
  · rintro ⟨r₁, s₁, call, rest⟩
    cases r₁ with
    | failed e =>
      obtain ⟨rfl, rfl⟩ := gives_finish_iff.mp (gives_write_iff.mp rest)
      exact ⟨s₁, call, rfl⟩
    | answer | suspended | raised =>
      obtain ⟨rfl, rfl⟩ := gives_finish_iff.mp rest
      exact ⟨_, call, rfl⟩
  · rintro ⟨s₁, call, rfl⟩
    refine ⟨r, s₁, call, ?_⟩
    cases r with
    | failed e => exact gives_write_iff.mpr .finish
    | answer | suspended | raised => exact .finish

theorem gives_settle_iff {site : String} {call : Code} :
    Gives host K s (settle site call) r s' ↔
      ∃ s₁, Gives host K s call r s₁ ∧ s' = s₁.settled site r := by
  rw [settle, gives_andThen_iff]
  constructor
  · rintro ⟨r₁, s₁, call, rest⟩
    cases r₁ with
    | failed e =>
      obtain ⟨rfl, rfl⟩ := gives_finish_iff.mp (gives_write_iff.mp (gives_write_iff.mp rest))
      exact ⟨s₁, call, rfl⟩
    | answer | suspended | raised =>
      obtain ⟨rfl, rfl⟩ := gives_finish_iff.mp rest
      exact ⟨_, call, rfl⟩
  · rintro ⟨s₁, call, rfl⟩
    refine ⟨r, s₁, call, ?_⟩
    cases r with
    | failed e => exact gives_write_iff.mpr (gives_write_iff.mpr .finish)
    | answer | suspended | raised => exact .finish

/-- The value that scripts get for a card. -/
def cardValue (b : Bridge) (card : ObjectId) : Value :=
  .object ((b.registry.payload (.card card)).getD 0)

theorem mapM_value (s : State) (vs : List Value) :
    (vs.map Argument.value).mapM s.argumentValue = .ok vs := by
  induction vs with
  | nil => rfl
  | cons v vs ih =>
    rw [List.map_cons, List.mapM_cons, ih]
    rfl

theorem stagedValues_cardArguments {card : ObjectId} {extra : List Value}
    (hb : s.env.bridge = some b) (staged : b.params = cardArguments card extra) :
    s.stagedValues .call = .ok (cardValue b card :: extra) := by
  have object : s.argumentValue (.object (.card card)) = .ok (cardValue b card) := by
    rw [State.argumentValue, State.objectValue, hb]
    rfl
  simp only [State.stagedValues, hb, Bridge.queue, staged, cardArguments]
  rw [List.mapM_cons, object, mapM_value]
  rfl

theorem enter_guard_eq (hb : s.env.bridge = some b) : Scope.guard.enter s =
    match b.depth.enter? with
    | none => .error (.depthExceeded b.depth.max)
    | some depth => .ok (.guard, s.updateBridge fun b => { b with depth }) := by
  simp only [Scope.enter, State.enterGuard, hb]
  cases b.depth.enter? <;> rfl

theorem clear_nothing (hb : s.env.bridge = some b) (empty : b.params = []) : s.clear .call = s := by
  obtain ⟨⟨_, _, _, bridge, _, _, _, _⟩, _⟩ := s
  obtain rfl : bridge = some b := hb
  have same : { b with params := [] } = b := by rw [← empty]
  simp [State.clear, State.updateBridge, State.staged, Bridge.queue, Bridge.setQueue, empty,
    Shared.disownAll, same]

/-- A card and values are taken out of the queue with no owners to let go. -/
theorem clear_cardArguments (hb : s.env.bridge = some b) (empty : b.params = [])
    (card : ObjectId) (extra : List Value) :
    (s.updateBridge fun b => { b with params := cardArguments card extra }).clear .call = s := by
  have values (vs : List Value) (shared : Shared) :
      shared.disownAll (vs.map .value) = shared := by
    induction vs with
    | nil => rfl
    | cons v vs ih => exact ih
  have none_owned (shared : Shared) : shared.disownAll (cardArguments card extra) = shared :=
    values extra shared
  obtain ⟨⟨_, _, _, bridge, _, _, _, _⟩, _⟩ := s
  obtain rfl : bridge = some b := hb
  have same : { b with params := [] } = b := by rw [← empty]
  simp [State.clear, State.updateBridge, State.staged, Bridge.queue, Bridge.setQueue, none_owned,
    same]

/-- With a card and values staged, and nothing else, the call of a function with the staged
arguments is the call with the card and the values. -/
theorem gives_invokeStaged_iff (hb : s.env.bridge = some b) (empty : b.params = [])
    {site : String} {card : ObjectId} {f : Value} {extra : List Value} {ret : ReturnCount} :
    Gives host K (s.updateBridge fun b => { b with params := cardArguments card extra })
        (settle site (invokeStaged f (1 + extra.length) ret)) r s' ↔
      ∃ s₁, Gives host K s (within .guard (callWith f (cardValue b card :: extra) ret)) r s₁ ∧
        s' = s₁.settled site r := by
  set t := s.updateBridge fun b => { b with params := cardArguments card extra } with t_eq
  have ht : t.env.bridge = some { b with params := cardArguments card extra } := by
    simp [t_eq, hb]
  have count : (t.staged .call).length = 1 + extra.length := by
    simp [State.staged, ht, Bridge.queue, cardArguments, Nat.add_comm]
  have cleared : t.clear .call = s.clear .call :=
    (clear_cardArguments hb empty card extra).trans (clear_nothing hb empty).symm
  rw [gives_settle_iff]
  simp only [invokeStaged, withCount, gives_read_iff]
  rw [if_pos count]
  simp only [gives_within_iff, enter_guard_eq ht, enter_guard_eq hb]
  cases b.depth.enter? with
  | none =>
    -- At the bound nothing is taken, and the failure empties the queue.
    dsimp only
    constructor
    · rintro ⟨_, ⟨rfl, rfl⟩, rfl⟩
      exact ⟨s, ⟨rfl, rfl⟩, by simp only [State.settled, cleared]⟩
    · rintro ⟨_, ⟨rfl, rfl⟩, rfl⟩
      exact ⟨t, ⟨rfl, rfl⟩, by simp only [State.settled, cleared]⟩
  | some depth =>
    set t₁ := t.updateBridge fun b => { b with depth } with t₁_eq
    have h₁ : t₁.env.bridge = some { b with params := cardArguments card extra, depth } := by
      simp [t₁_eq, ht]
    have he : (s.updateBridge fun b => { b with depth }).env.bridge = some { b with depth } := by
      simp [hb]
    have taken : t₁.clear .call = s.updateBridge fun b => { b with depth } := by
      rw [← clear_cardArguments he empty card extra]
      simp [t₁_eq, t_eq, State.updateBridge, Function.comp_def]
    have same (s₂ : State) :
        Gives host K t₁ (withStaged .call fun args => callWith f args ret) r s₂ ↔
          Gives host K (s.updateBridge fun b => { b with depth })
            (callWith f (cardValue b card :: extra) ret) r s₂ := by
      rw [withStaged, gives_read_iff, gives_write_iff, stagedValues_cardArguments h₁ rfl]
      exact iff_of_eq (congrArg (fun s => Gives host K s _ r s₂) taken)
    simp only [← t₁_eq, same]

/-! ## Queries -/

/-- A query about a card comes to the call with the card. -/
theorem gives_query_callOnCard_iff (hb : s.env.bridge = some b) {site : String} {card : ObjectId}
    {f : Value} (hf : f.isFunction = true) {extra : List Value} {ret : ReturnCount}
    {reading : List Value → Answer} {otherwise : Answer} :
    Gives host K s (query (callOnCard site card f extra ret) reading otherwise) r s' ↔
      ∃ r₁ s₁, Gives host K s.beginQuery
          (within .guard (callWith f (cardValue b card :: extra) ret)) r₁ s₁ ∧
        r = .answer (readAs reading otherwise r₁) ∧ s' = (s₁.reported site r₁).endQuery := by
  have object : s.beginQuery.objectValue (.card card) = .ok (cardValue b card) := by
    simp [State.objectValue, State.beginQuery, hb, cardValue]
  simp only [gives_query_iff, gives_callOnCard_iff, cardCall, if_pos hf, gives_read_iff, object]
  constructor
  · rintro ⟨r₁, _, ⟨s₁, call, rfl⟩, rfl, rfl⟩
    exact ⟨r₁, s₁, call, rfl, rfl⟩
  · rintro ⟨r₁, s₁, call, rfl, rfl⟩
    exact ⟨r₁, _, ⟨s₁, call, rfl⟩, rfl, rfl⟩

/-- A query with the card and the values staged comes to the same call. -/
theorem gives_query_callFunction_iff (hb : s.env.bridge = some b) (empty : s.staged .call = [])
    {c : Callable} {f : Value} (hc : s.resolve c = .ok f) {card : ObjectId} {extra : List Value}
    {ret : ReturnCount} {reading : List Value → Answer} {otherwise : Answer} :
    Gives host K s (stageAll (cardArguments card extra)
        (query (callFunction c (1 + extra.length) ret) reading otherwise)) r s' ↔
      ∃ r₁ s₁, Gives host K s.beginQuery
          (within .guard (callWith f (cardValue b card :: extra) ret)) r₁ s₁ ∧
        r = .answer (readAs reading otherwise r₁) ∧
        s' = (s₁.settled "call_function" r₁).endQuery := by
  have none_staged : b.params = [] := by simpa [State.staged, hb, Bridge.queue] using empty
  have begun : s.beginQuery.env.bridge = some { b with noAction := b.noAction + 1 } := by
    simp [State.beginQuery, hb]
  set t := s.beginQuery.updateBridge fun b => { b with params := cardArguments card extra }
    with t_eq
  have staged : (s.stageAll (cardArguments card extra)).beginQuery = t := by
    rw [State.stageAll_cardArguments hb empty, t_eq]
    simp [State.beginQuery, State.updateBridge, Function.comp_def]
  have resolved : t.resolve c = .ok f := hc
  have calls (r₁ : Reply) (s₁ : State) :
      Gives host K t (callFunction c (1 + extra.length) ret) r₁ s₁ ↔
        Gives host K t (settle "call_function" (invokeStaged f (1 + extra.length) ret)) r₁ s₁ := by
    simp only [callFunction, gives_settle_iff, gives_read_iff, resolved]
  simp only [gives_stageAll_iff, gives_query_iff, staged, calls]
  rw [t_eq]
  simp only [gives_invokeStaged_iff begun none_staged]
  constructor
  · rintro ⟨r₁, _, ⟨s₁, call, rfl⟩, rfl, rfl⟩
    exact ⟨r₁, s₁, call, rfl, rfl⟩
  · rintro ⟨r₁, s₁, call, rfl, rfl⟩
    exact ⟨r₁, _, ⟨s₁, call, rfl⟩, rfl, rfl⟩

/-! ## Agreement -/

/-- Two pieces of code that begin in one state give the same replies, in states that differ only in
the site of a report. -/
def Agree (host : Host) (K : List Frame) (s : State) (c c' : Code) : Prop :=
  ∀ r, (∀ s', Gives host K s c r s' → ∃ s'', Gives host K s c' r s'' ∧ s'.SameButSite s'') ∧
    ∀ s'', Gives host K s c' r s'' → ∃ s', Gives host K s c r s' ∧ s'.SameButSite s''

/-- Code that comes to the same and ends it in other ways agrees if these differ only in the site of
a report. -/
theorem agree_of_iff {α : Type} {c c' : Code} {P : Reply → α → Prop} {e e' : α → State}
    (h : ∀ r s', Gives host K s c r s' ↔ ∃ a, P r a ∧ s' = e a)
    (h' : ∀ r s', Gives host K s c' r s' ↔ ∃ a, P r a ∧ s' = e' a)
    (same : ∀ a, (e a).SameButSite (e' a)) : Agree host K s c c' := by
  refine fun r => ⟨fun s' gives => ?_, fun s'' gives => ?_⟩
  · obtain ⟨a, ha, rfl⟩ := (h r s').mp gives
    exact ⟨_, (h' r _).mpr ⟨a, ha, rfl⟩, same a⟩
  · obtain ⟨a, ha, rfl⟩ := (h' r s'').mp gives
    exact ⟨_, (h r _).mpr ⟨a, ha, rfl⟩, same a⟩

variable {card : ObjectId} {f : Value} {extra : List Value} {ret : ReturnCount}
  {reading : List Value → Answer} {otherwise : Answer}

/-- A query with explicit arguments agrees with the one for which they are staged. -/
theorem agree_staged (hb : s.env.bridge = some b) (empty : s.staged .call = []) {c : Callable}
    (hc : s.resolve c = .ok f) (hf : f.isFunction = true) (site : String) :
    Agree host K s (query (callOnCard site card f extra ret) reading otherwise)
      (stageAll (cardArguments card extra)
        (query (callFunction c (1 + extra.length) ret) reading otherwise)) := by
  have explicit (r : Reply) (s' : State) :
      Gives host K s (query (callOnCard site card f extra ret) reading otherwise) r s' ↔
        ∃ a : Reply × State, (Gives host K s.beginQuery
            (within .guard (callWith f (cardValue b card :: extra) ret)) a.1 a.2 ∧
          r = .answer (readAs reading otherwise a.1)) ∧
          s' = (a.2.reported site a.1).endQuery := by
    rw [gives_query_callOnCard_iff hb hf]
    simp only [Prod.exists, and_assoc]
  have taken (r : Reply) (s' : State) :
      Gives host K s (stageAll (cardArguments card extra)
          (query (callFunction c (1 + extra.length) ret) reading otherwise)) r s' ↔
        ∃ a : Reply × State, (Gives host K s.beginQuery
            (within .guard (callWith f (cardValue b card :: extra) ret)) a.1 a.2 ∧
          r = .answer (readAs reading otherwise a.1)) ∧
          s' = (a.2.settled "call_function" a.1).endQuery := by
    rw [gives_query_callFunction_iff hb empty hc]
    simp only [Prod.exists, and_assoc]
  exact agree_of_iff explicit taken fun a => State.sameButSite_settled a.2 site _ a.1

/-- The site of a query is only for reports. -/
theorem agree_site (site site' : String) :
    Agree host K s (query (callOnCard site card f extra ret) reading otherwise)
      (query (callOnCard site' card f extra ret) reading otherwise) := by
  have comes (site : String) (r : Reply) (s' : State) :
      Gives host K s (query (callOnCard site card f extra ret) reading otherwise) r s' ↔
        ∃ a : Reply × State, (Gives host K s.beginQuery (cardCall card f extra ret) a.1 a.2 ∧
          r = .answer (readAs reading otherwise a.1)) ∧
          s' = (a.2.reported site a.1).endQuery := by
    simp only [gives_query_iff, gives_callOnCard_iff, Prod.exists]
    constructor
    · rintro ⟨r₁, _, ⟨s₁, call, rfl⟩, rfl, rfl⟩
      exact ⟨r₁, s₁, ⟨call, rfl⟩, rfl⟩
    · rintro ⟨r₁, s₁, ⟨call, rfl⟩, rfl⟩
      exact ⟨r₁, _, ⟨s₁, call, rfl⟩, rfl, rfl⟩
  exact agree_of_iff (comes site) (comes site') fun a =>
    State.sameButSite_reported a.2 site site' a.1

/-- A filter is asked with a table as it is with the elements of the table. -/
theorem agree_table {t : Nat} {last : Int64} (positive : 1 ≤ last)
    (ends : (s.env.memory.table t).get (.int last) = .nil)
    (filled : ∀ i : Int64, 1 ≤ i → i < last → (s.env.memory.table t).get (.int i) ≠ .nil) :
    Agree host K s (checkMatchingTable card f t)
      (checkMatching card f ((s.env.memory.table t).elements (last.toInt.toNat - 1))) := by
  unfold checkMatchingTable checkMatching
  by_cases nothing : f = .nil
  · rw [if_pos nothing, if_pos nothing]
    exact fun r => ⟨fun s' h => ⟨s', h, .ended _⟩, fun s' h => ⟨s', h, .ended _⟩⟩
  · rw [if_neg nothing, if_neg nothing, ← Table.sequence_eq positive ends filled]
    have listed (r : Reply) (s' : State) :
        Gives host K s (query (read fun s => callOnCard "check_matching_table" card f
            (s.env.memory.table t).sequence (.exactly 1)) asTruth (.truth false)) r s' ↔
          Gives host K s (query (callOnCard "check_matching_table" card f
            (s.env.memory.table t).sequence (.exactly 1)) asTruth (.truth false)) r s' := by
      simp only [gives_query_iff, gives_read_iff]
      rfl
    intro r
    simp only [listed]
    exact agree_site _ _ r

/-! ## One value and all values -/

/-- The call of a function keeps of all results as many as are wanted. -/
theorem callWith_eq (f : Value) (args : List Value) (ret : ReturnCount) :
    callWith f args ret = (callWith f args .all).andThen fun r => finish (r.adjusted ret) := by
  unfold callWith
  rw [attempt_andThen]
  rfl

theorem gives_cardCall_iff : Gives host K s (cardCall card f extra ret) r s' ↔
    ∃ r₁, Gives host K s (cardCall card f extra .all) r₁ s' ∧ r = r₁.adjusted ret := by
  have refused (e : Failure) : Gives host K s (fail e) r s' ↔
      ∃ r₁, Gives host K s (fail e) r₁ s' ∧ r = r₁.adjusted ret := by
    simp only [fail, gives_finish_iff]
    constructor
    · rintro ⟨rfl, rfl⟩
      exact ⟨_, ⟨rfl, rfl⟩, rfl⟩
    · rintro ⟨_, ⟨rfl, rfl⟩, rfl⟩
      exact ⟨rfl, rfl⟩
  unfold cardCall
  by_cases hf : f.isFunction = true
  · simp only [if_pos hf, gives_read_iff]
    cases s.objectValue (.card card) with
    | error e => exact refused e
    | ok v =>
      dsimp only
      simp only [gives_within_iff]
      cases enters : Scope.guard.enter s with
      | error e => simpa only [fail, gives_finish_iff] using refused e
      | ok entered =>
        obtain ⟨o, s₁⟩ := entered
        obtain ⟨rfl, -⟩ := Scope.enter_guard enters
        dsimp only
        rw [callWith_eq]
        simp only [gives_andThen_iff, gives_finish_iff]
        constructor
        · rintro ⟨_, ⟨r₁, s₂, call, rfl, rfl⟩, rfl⟩
          exact ⟨r₁, ⟨_, call, rfl⟩, rfl⟩
        · rintro ⟨r₁, ⟨s₂, call, rfl⟩, rfl⟩
          exact ⟨s₂, ⟨r₁, s₂, call, rfl, rfl⟩, rfl⟩
  · simp only [if_neg hf]
    exact refused _

/-- The first of all results is the one that is kept if one is wanted. -/
theorem readAs_first (r : Reply) : ∃ ns, readAs asIntegers (.integers []) r = .integers ns ∧
    readAs asInteger (.integer 0) (r.adjusted (.exactly 1)) = .integer (ns.head?.getD 0) := by
  cases r with
  | answer a =>
    cases a with
    | values vs => cases vs <;> exact ⟨_, rfl, rfl⟩
    | done | truth | integer | integers | count | handle | step | shown => exact ⟨[], rfl, rfl⟩
  | suspended | failed | raised => exact ⟨[], rfl, rfl⟩

/-- The value that a function has for a card is the first of the values that it has, or zero. -/
theorem gives_operationValue_iff : Gives host K s (operationValue card f extra) r s' ↔
    ∃ ns, Gives host K s (operationValues card f extra) (.answer (.integers ns)) s' ∧
      r = .answer (.integer (ns.head?.getD 0)) := by
  unfold operationValue operationValues
  by_cases nothing : f = .nil
  · simp only [if_pos nothing, answer, gives_finish_iff]
    constructor
    · rintro ⟨rfl, rfl⟩
      exact ⟨[], ⟨rfl, rfl⟩, rfl⟩
    · rintro ⟨ns, ⟨⟨⟩, rfl⟩, rfl⟩
      exact ⟨rfl, rfl⟩
  · rw [if_neg nothing, if_neg nothing]
    simp only [gives_query_iff, gives_callOnCard_iff]
    constructor
    · rintro ⟨_, _, ⟨s₁, call, rfl⟩, rfl, rfl⟩
      obtain ⟨r₁, whole, rfl⟩ := gives_cardCall_iff.mp call
      obtain ⟨ns, all, one⟩ := readAs_first r₁
      rw [State.reported_adjusted]
      exact ⟨ns, ⟨r₁, _, ⟨s₁, whole, rfl⟩, by rw [all], rfl⟩, by rw [one]⟩
    · rintro ⟨ns, ⟨r₁, _, ⟨s₁, call, rfl⟩, eq, rfl⟩, rfl⟩
      obtain ⟨ns', all, one⟩ := readAs_first r₁
      rw [all] at eq
      obtain rfl : ns = ns' := Answer.integers.inj (Reply.answer.inj eq)
      refine ⟨_, _, ⟨s₁, gives_cardCall_iff.mpr ⟨r₁, call, rfl⟩, rfl⟩, by rw [one], ?_⟩
      rw [State.reported_adjusted]

end Code

/-! ## Operations -/

open Code Machine Host

/-- **Explicit and staged arguments.** With no argument staged for calls, a filter or a query about
a card agrees with the condition or the query of the same function for which the card and the
further values are staged. A value is the first of the values, or zero if there are none, and a
table of further values agrees with the list of its elements before the first index with no
value. -/
theorem explicit_arguments_agree {host : CardBridge.Host} {K : List Frame} {s : State} {b : Bridge}
    (hb : s.env.bridge = some b) (empty : s.staged .call = []) :
    (∀ (card : ObjectId) (c : Callable) (f : Value) (extra : List Value),
      s.resolve c = .ok f → f.isFunction = true →
        let staged (o : Operation) := stageAll (cardArguments card extra) o.code
        Agree host K s (Operation.checkMatching card f extra).code
          (staged (.checkCondition (some c) (1 + extra.length))) ∧
        Agree host K s (Operation.operationValue card f extra).code
          (staged (.functionValue (some c) (1 + extra.length))) ∧
        Agree host K s (Operation.operationValues card f extra).code
          (staged (.functionValues (some c) (1 + extra.length)))) ∧
    (∀ (card : ObjectId) (f : Value) (extra : List Value) r s',
      Gives host K s (Operation.operationValue card f extra).code r s' ↔
        ∃ ns, Gives host K s (Operation.operationValues card f extra).code
            (.answer (.integers ns)) s' ∧
          r = .answer (.integer (ns.head?.getD 0))) ∧
    ∀ (card : ObjectId) (f : Value) (t : Nat) (last : Int64), 1 ≤ last →
      (s.env.memory.table t).get (.int last) = .nil →
      (∀ i : Int64, 1 ≤ i → i < last → (s.env.memory.table t).get (.int i) ≠ .nil) →
        Agree host K s (Operation.checkMatchingTable card f t).code
          (Operation.checkMatching card f
            ((s.env.memory.table t).elements (last.toInt.toNat - 1))).code := by
  refine ⟨fun card c f extra hc hf => ?_, fun card f extra r s' => gives_operationValue_iff,
    fun card f t last positive ends filled => agree_table positive ends filled⟩
  have something : f ≠ .nil := by
    rintro rfl
    cases hf
  simp only [Operation.code, checkMatching, operationValue, operationValues, if_neg something]
  exact ⟨agree_staged hb empty hc hf _, agree_staged hb empty hc hf _,
    agree_staged hb empty hc hf _⟩

/-- An environment whose host holds a function. -/
def holdingOne (f : Value) : State :=
  ⟨(Blueprint.plain ⟨1⟩).environment 0, { Shared.empty with
    accounts := #[⟨true, 1⟩]
    held := #[⟨f, 0, 1⟩] }⟩

theorem explicit_arguments_agree_native :
    let host : CardBridge.Host := fun _ args => .values [.bool (args.length = 2)]
    let f : Value := .native (.host 0)
    ∃ s' s'', Gives host [] (holdingOne f)
        (Operation.checkMatching ⟨7⟩ f [.int 3]).code (.answer (.truth true)) s' ∧
      Gives host [] (holdingOne f)
        (stageAll (cardArguments ⟨7⟩ [.int 3]) (Operation.checkCondition (some ⟨0⟩) 2).code)
        (.answer (.truth true)) s'' ∧ s'.SameButSite s'' := by
  intro host f
  obtain ⟨s', stops⟩ : ∃ s', run host 30 (.start (holdingOne f)
      (Operation.checkMatching ⟨7⟩ f [.int 3]).code) = .ended (.answer (.truth true)) s' :=
    ⟨_, rfl⟩
  have gives : Gives host [] (holdingOne f) (Operation.checkMatching ⟨7⟩ f [.int 3]).code
      (.answer (.truth true)) s' := steps_of_ended 30 _ stops
  have agree := @explicit_arguments_agree host [] (holdingOne f) _ rfl rfl
  obtain ⟨matching, -⟩ := agree.1 ⟨7⟩ ⟨0⟩ f [.int 3] rfl rfl
  obtain ⟨s'', staged, same⟩ := (matching _).1 s' gives
  exact ⟨s', s'', gives, staged, same⟩

end CardBridge
