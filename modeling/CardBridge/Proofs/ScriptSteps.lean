import CardBridge.Proofs.MemoryEdits
import CardBridge.Script.Step

/-!
# What a step of a script leads to

A step of a script changes the memory by edits only, and it leaves the bottom of the stack alone :
frames are put on the stack and taken away at its top, and a coroutine that is suspended is cut off
at its start. Where no coroutine that the host resumes is at the bottom (`Grounded`), there will be
none. `State.step_leads` says both of every step.

So a fact about the memory that each edit keeps is kept by scripts whatever they do
(`State.step_edits`), and what the host calls may return or fail, but it is not suspended.
-/

namespace CardBridge.Script

/-! ## Stacks -/

/-- No coroutine that the host resumes is at the bottom of a stack. -/
def Grounded (K : List Frame) : Prop :=
  ∀ t, K.getLast? ≠ some (.boundary t .host)

/-- A frame that is not the start of a coroutine that the host resumes. -/
def Frame.Inner : Frame → Prop
  | .boundary _ .host => False
  | _ => True

/-- What can be next above a stack at the bottom of which no coroutine of the host is. -/
def Control.Fits (K : List Frame) : Control → Prop
  | .resume _ _ .host => False
  | .suspended _ => K ≠ []
  | _ => True

theorem grounded_nil : Grounded [] :=
  fun _ last => by cases last

theorem Grounded.of_suffix {K L : List Frame} (h : Grounded K) (hL : L <:+ K) : Grounded L := by
  obtain ⟨above, rfl⟩ := hL
  intro t last
  refine h t ?_
  rw [List.getLast?_append, last]
  rfl

theorem Grounded.append {K : List Frame} {F : Frame} (h : Grounded K) (hF : F.Inner)
    (above : List Frame) : Grounded (above ++ F :: K) := by
  intro t last
  rw [List.getLast?_append, List.getLast?_cons, Option.some_or] at last
  cases hK : K.getLast? with
  | none =>
    rw [hK] at last
    obtain rfl : F = .boundary t .host := Option.some.inj last
    exact hF
  | some G =>
    rw [hK] at last
    exact h t (hK.trans last)

theorem Grounded.push {K : List Frame} {F : Frame} (h : Grounded K) (hF : F.Inner) :
    Grounded (F :: K) :=
  h.append hF []

theorem splitThread_suffix {K above below : List Frame} {t : Nat} {r : Resumer}
    (h : splitThread K = some (above, t, r, below)) : .boundary t r :: below <:+ K := by
  induction K generalizing above with
  | nil => cases h
  | cons F K ih =>
    cases F with
    | boundary t' r' =>
      cases h
      exact List.suffix_rfl
    | _ =>
      obtain ⟨⟨above', t', r', below'⟩, split, eq⟩ := Option.map_eq_some_iff.mp h
      cases eq
      exact (ih split).trans (List.suffix_cons _ _)

theorem State.unwound?_suffix {K rest : List Frame} {a : Activation}
    (h : unwound? K = some (a, rest)) : rest <:+ K := by
  induction K with
  | nil => cases h
  | cons F K ih =>
    cases F with
    | activation a' =>
      cases h
      exact List.suffix_cons _ _
    | toClose => cases h
    | _ => exact (ih h).trans (List.suffix_cons _ _)

/-! ## Outcomes -/

/-- The memory that a step leaves has come out of `m` by edits. -/
def Outcome.Edits (m : Memory) : Outcome → Prop
  | .next s | .native _ _ s => m.Edits s.memory
  | .settled _ m' => m.Edits m'
  | .stuck => True

/-- A state in the course of a step : its memory has come out of `m` by edits, and where it is so of
`inner` no coroutine that the host resumes is at the bottom of its stack. -/
structure State.Follows (m : Memory) (inner : Prop) (s : State) : Prop where
  edits : m.Edits s.memory
  grounded : inner → Grounded s.stack

/-- What a step comes to in the course of which there is such a state. -/
def Outcome.Leads (m : Memory) (inner : Prop) : Outcome → Prop
  | .next s => s.Follows m inner ∧ (inner → s.control.Fits s.stack)
  | .native _ _ s => s.Follows m inner
  | .settled c m' => m.Edits m' ∧ (inner → ∀ vs, c ≠ .yielded vs)
  | .stuck => True

theorem Outcome.Leads.edits {m : Memory} {inner : Prop} {o : Outcome} (h : o.Leads m inner) :
    o.Edits m := by
  cases o with
  | next s => exact h.1.edits
  | native n args s => exact State.Follows.edits h
  | settled c m' => exact h.1
  | stuck => trivial

namespace State

variable {m : Memory} {inner : Prop} {s : State}

theorem Follows.edit (h : s.Follows m inner) {m' : Memory} (e : s.memory.Edit m') :
    { s with memory := m' }.Follows m inner :=
  ⟨h.edits.edit e, h.grounded⟩

theorem Follows.bind (h : s.Follows m inner) (env : Env) (vs : List Value) :
    { s with memory := (s.memory.bind env vs).2 }.Follows m inner :=
  h.edit (.addCells _ vs)

theorem Follows.rawSet (h : s.Follows m inner) (t : Nat) (key v : Value) :
    { s with memory := s.memory.rawSet t key v }.Follows m inner :=
  h.edit (.updateTable _ t _)

theorem Follows.below (h : s.Follows m inner) {K : List Frame} (hK : K <:+ s.stack) :
    { s with stack := K }.Follows m inner :=
  ⟨h.edits, fun hi => (h.grounded hi).of_suffix hK⟩

theorem Follows.enter (h : s.Follows m inner) {F : Frame} (hF : F.Inner) :
    { s with stack := F :: s.stack }.Follows m inner :=
  ⟨h.edits, fun hi => (h.grounded hi).push hF⟩

theorem Follows.go (h : s.Follows m inner) {c : Control} (hc : c.Fits s.stack) :
    (s.go c).Leads m inner :=
  ⟨⟨h.edits, h.grounded⟩, fun _ => hc⟩

theorem Follows.push (h : s.Follows m inner) {F : Frame} {c : Control} (hF : F.Inner)
    (hc : c.Fits (F :: s.stack)) : (s.push F c).Leads m inner :=
  ⟨⟨h.edits, (h.enter hF).grounded⟩, fun _ => hc⟩

/-! ## Operations -/

theorem index_leads (h : s.Follows m inner) (object key : Value) (site : Site) (chain : Nat) :
    (s.index object key site chain).Leads m inner := by
  unfold index
  dsimp only
  repeat' split
  all_goals first | exact h.go trivial | exact h.push trivial trivial

theorem storeRaw_leads (h : s.Follows m inner) (t : Nat) (key v : Value) (site : Site) :
    (s.storeRaw t key v site).Leads m inner := by
  unfold storeRaw
  split
  · exact h.go trivial
  · exact h.go trivial
  · exact (h.rawSet t key v).go trivial

theorem store_leads (h : s.Follows m inner) (object key v : Value) (site : Site) (chain : Nat) :
    (s.store object key v site chain).Leads m inner := by
  unfold store
  dsimp only
  repeat' split
  all_goals first
    | exact h.go trivial
    | exact h.push trivial trivial
    | exact storeRaw_leads h _ _ _ _

theorem arithmetic_leads (h : s.Follows m inner) (op : Arith) (a b : Value)
    (left right : Option Described) (site : Site) :
    (s.arithmetic op a b left right site).Leads m inner := by
  unfold arithmetic
  dsimp only
  repeat' split
  all_goals first | exact h.go trivial | exact h.push trivial trivial

theorem concat_leads (h : s.Follows m inner) (a b : Value) (left right : Option Described)
    (site : Site) : (s.concat a b left right site).Leads m inner := by
  unfold concat
  repeat' split
  all_goals first | exact h.go trivial | exact h.push trivial trivial

theorem order_leads (h : s.Follows m inner) (known : Option Bool) (e : Event) (a b : Value)
    (site : Site) : (s.order known e a b site).Leads m inner := by
  unfold order
  dsimp only
  repeat' split
  all_goals first | exact h.go trivial | exact h.push trivial trivial

theorem equality_leads (h : s.Follows m inner) (negated : Bool) (a b : Value) (site : Site) :
    (s.equality negated a b site).Leads m inner := by
  unfold equality
  dsimp only
  repeat' split
  all_goals first | exact h.go trivial | exact h.push trivial trivial

theorem length_leads (h : s.Follows m inner) (v : Value) (site : Site) :
    (s.length v site).Leads m inner := by
  unfold length
  repeat' split
  all_goals first | exact h.go trivial | exact h.push trivial trivial

theorem binary_leads (h : s.Follows m inner) (op : BinOp) (a b : Value)
    (left right : Option Described) (site : Site) :
    (s.binary op a b left right site).Leads m inner := by
  cases op with
  | arith op => exact arithmetic_leads h op a b left right site
  | concat => exact concat_leads h a b left right site
  | eq | ne => exact equality_leads h _ a b site
  | lt | le | gt | ge => exact order_leads h _ _ _ _ site

theorem unary_leads (h : s.Follows m inner) (op : UnOp) (v : Value) (site : Site) :
    (s.unary op v site).Leads m inner := by
  cases op with
  | neg | bnot => exact arithmetic_leads h _ v v site.name site.name site
  | not => exact h.go trivial
  | len => exact length_leads h v site

/-! ## The library -/

theorem refuseArgument_leads (h : s.Follows m inner) (b : Builtin) (number : Nat)
    (message : Bytes) : (s.refuseArgument b number message).Leads m inner := by
  unfold refuseArgument
  dsimp only
  repeat' split
  all_goals exact h.go trivial

theorem Follows.pinned (h : s.Follows m inner) : s.pinned.Follows m inner := by
  unfold State.pinned
  split
  case h_1 a rest top =>
    have rest_suffix : rest <:+ s.stack := top ▸ List.suffix_cons _ _
    exact (h.below rest_suffix).enter trivial
  case h_2 => exact h

theorem yield_leads (h : s.Follows m inner) (vs : List Value) : (s.yield vs).Leads m inner := by
  unfold yield
  split
  case h_1 above t resumer below _ split =>
    have suffix := splitThread_suffix split
    have suspended := (h.below ((List.suffix_cons _ _).trans suffix)).edit
      (.setThread _ t (.suspended above))
    cases resumer with
    | resume | wrapper => exact suspended.go trivial
    | host =>
      -- The frame that the coroutine leaves is not at the bottom, so there is one left.
      refine ⟨⟨suspended.edits, suspended.grounded⟩, fun hi none => ?_⟩
      obtain rfl : below = [] := none
      exact (h.grounded hi).of_suffix suffix t rfl
  case h_2 => exact h.go trivial

theorem failResumer_leads (h : s.Follows m inner) (resumer : Resumer) (v : Value) :
    (s.failResumer resumer v).Leads m inner := by
  unfold failResumer
  split <;> exact h.go trivial

theorem resume_leads (h : s.Follows m inner) (t : Nat) (args : List Value) {resumer : Resumer}
    (hr : inner → resumer ≠ .host) : (s.resume t args resumer).Leads m inner := by
  have boundary (hi : inner) : (Frame.boundary t resumer).Inner := by
    cases resumer with
    | resume | wrapper => trivial
    | host => exact hr hi rfl
  have active := h.edit (.setThread _ t .active)
  unfold resume
  dsimp only
  split
  · exact ⟨⟨active.edits, fun hi => (h.grounded hi).push (boundary hi)⟩, fun _ => trivial⟩
  · exact ⟨⟨active.edits, fun hi => (h.grounded hi).append (boundary hi) _⟩, fun _ => trivial⟩
  · exact failResumer_leads h resumer _
  · exact failResumer_leads h resumer _

theorem nextElement_leads (h : s.Follows m inner) (table : Value) (next : Int64) (left : Nat)
    (done : List Value) : (s.nextElement table next left done).Leads m inner := by
  unfold nextElement
  split
  · exact h.go trivial
  · exact h.push trivial trivial

theorem unpack_leads (h : s.Follows m inner) (table : Value) (start stop : Int64) :
    (s.unpack table start stop).Leads m inner := by
  unfold unpack
  dsimp only
  split
  · exact h.go trivial
  · split
    · exact h.go trivial
    · exact nextElement_leads h _ _ _ _

theorem throwAt_leads (h : s.Follows m inner) (v : Value) (level : Int64) :
    (s.throwAt v level).Leads m inner := by
  unfold throwAt
  repeat' split
  all_goals exact h.go trivial

theorem stringArithmetic_leads (h : s.Follows m inner) (op : Arith) (a b : Value) :
    (s.stringArithmetic op a b).Leads m inner := by
  unfold stringArithmetic
  dsimp only
  repeat' split
  all_goals first | exact h.go trivial | exact h.pinned.push trivial trivial

end State

/-- A call of a function of the library that is not refused comes to what a step may come to. -/
def AttemptLeads (m : Memory) (inner : Prop) (a : Except Refusal Outcome) : Prop :=
  ∀ o, a = .ok o → o.Leads m inner

variable {m : Memory} {inner : Prop}

theorem attemptLeads_ok {o : Outcome} (h : o.Leads m inner) : AttemptLeads m inner (.ok o) := by
  intro o' ho
  cases ho
  exact h

theorem attemptLeads_error (r : Refusal) : AttemptLeads m inner (.error r) := by
  intro o ho
  cases ho

theorem attemptLeads_bind {α : Type} {a : Except Refusal α} {f : α → Except Refusal Outcome}
    (h : ∀ x, AttemptLeads m inner (f x)) : AttemptLeads m inner (a >>= f) := by
  cases a with
  | error r => exact attemptLeads_error r
  | ok x => exact h x

theorem State.Follows.mark {s : State} (h : s.Follows m inner) (t : Nat) :
    { s with memory := s.memory.mark t }.Follows m inner := by
  unfold Memory.mark
  split
  · exact h
  · exact h.edit (.collect _ _ _)

theorem State.setMetatable_leads {s : State} (h : s.Follows m inner) (args : List Value) :
    AttemptLeads m inner (s.setMetatable args) := by
  unfold setMetatable
  refine attemptLeads_bind fun t => ?_
  dsimp only
  split
  case h_3 =>
    unfold wrongType
    exact attemptLeads_error _
  all_goals
    split
    · exact attemptLeads_ok (((h.edit (.updateTable _ t _)).mark t).go trivial)
    · exact attemptLeads_error _

theorem State.collectGarbage_leads {s : State} (h : s.Follows m inner) (args : List Value) :
    AttemptLeads m inner (s.collectGarbage args) := by
  have told (request : Bytes) : AttemptLeads m inner
      (if request = bytes "collect" then .ok (s.go (.give [.int 0]))
      else if request = bytes "stop" then
        .ok ({ s with memory := { s.memory with collects := false } }.go (.give [.int 0]))
      else if request = bytes "restart" then
        .ok ({ s with memory := { s.memory with collects := true } }.go (.give [.int 0]))
      else .error (.argument 1 (bytes "invalid option '" ++ request ++ bytes "'"))) := by
    repeat' split
    · exact attemptLeads_ok (h.go trivial)
    · exact attemptLeads_ok ((h.edit (.collect _ _ _)).go trivial)
    · exact attemptLeads_ok ((h.edit (.collect _ _ _)).go trivial)
    · exact attemptLeads_error _
  unfold collectGarbage
  dsimp only
  split
  all_goals exact attemptLeads_bind told

theorem Builtin.attempt_leads {s : State} (h : s.Follows m inner) (b : Builtin)
    (args : List Value) : AttemptLeads m inner (b.attempt args s) := by
  have give : ∀ vs, AttemptLeads m inner (.ok (s.go (.give vs))) :=
    fun vs => attemptLeads_ok (h.go trivial)
  unfold attempt
  dsimp only
  cases b with
  | print => exact give _
  | error => exact attemptLeads_bind fun level => attemptLeads_ok (State.throwAt_leads h _ _)
  | assert =>
    dsimp only
    split
    · exact give _
    · exact attemptLeads_bind fun _ => attemptLeads_ok (State.throwAt_leads h _ _)
  | pcall => exact attemptLeads_bind fun f => attemptLeads_ok (h.push trivial trivial)
  | select =>
    dsimp only
    split
    · exact give _
    · refine attemptLeads_bind fun n => ?_
      generalize (if n.toInt < 0 then args.length + n.toInt else n.toInt) = start
      split
      · exact attemptLeads_error _
      · exact give _
  | type => exact attemptLeads_bind fun v => give _
  | tostring =>
    refine attemptLeads_bind fun v => ?_
    split
    · exact give _
    · exact attemptLeads_ok (h.pinned.push trivial trivial)
  | ipairs => exact attemptLeads_bind fun v => give _
  | ipairsStep =>
    exact attemptLeads_bind fun i => attemptLeads_ok (h.pinned.push trivial trivial)
  | rawget => exact attemptLeads_bind fun t => attemptLeads_bind fun key => give _
  | rawset =>
    refine attemptLeads_bind fun t => attemptLeads_bind fun key => attemptLeads_bind fun v => ?_
    split
    · exact attemptLeads_ok (h.go trivial)
    · exact attemptLeads_ok (h.go trivial)
    · exact attemptLeads_ok ((h.rawSet t _ v).go trivial)
  | rawequal => exact attemptLeads_bind fun a => attemptLeads_bind fun b => give _
  | rawlen =>
    dsimp only
    split
    · exact give _
    · exact give _
    · exact attemptLeads_error _
  | setmetatable => exact State.setMetatable_leads h args
  | getmetatable => exact attemptLeads_bind fun v => give _
  | coroutineCreate | coroutineWrap =>
    exact attemptLeads_bind fun f => attemptLeads_ok ((h.edit (.addThread _ f)).go trivial)
  | coroutineResume => exact attemptLeads_bind fun t => attemptLeads_ok (h.go trivial)
  | coroutineYield => exact attemptLeads_ok (State.yield_leads h args)
  | coroutineStatus => exact attemptLeads_bind fun t => give _
  | stringRep =>
    have repeated : ∀ text sep (n : Int64), AttemptLeads m inner
        (if n ≤ 0 then .ok (s.go (.give [.str []]))
        else if Int.pow 2 63 ≤ (text.length + sep.length) * n.toInt then
          .error (.plain (bytes "resulting string too large"))
        else .ok (s.go (.give [.str (Bytes.repeated text sep n.toInt.toNat)]))) := by
      intro text sep n
      split
      · exact give _
      · split
        · exact attemptLeads_error _
        · exact give _
    refine attemptLeads_bind fun text => attemptLeads_bind fun n => ?_
    split
    all_goals exact attemptLeads_bind fun sep => repeated text sep n
  | stringMatch =>
    refine attemptLeads_bind fun text => attemptLeads_bind fun p => ?_
    refine attemptLeads_bind fun start => ?_
    split
    · exact give _
    · split
      · exact give _
      · exact give _
      · exact attemptLeads_error _
  | tableUnpack =>
    refine attemptLeads_bind fun start => ?_
    split
    case h_3 =>
      exact attemptLeads_bind fun stop => attemptLeads_ok (State.unpack_leads h.pinned _ _ _)
    all_goals exact attemptLeads_ok (State.length_leads (h.pinned.enter (by trivial)) _ _)
  | collectgarbage => exact State.collectGarbage_leads h args
  | stringArith op => exact attemptLeads_ok (State.stringArithmetic_leads h op _ _)

theorem Builtin.run_leads {s : State} (h : s.Follows m inner) (b : Builtin) (args : List Value) :
    (b.run args s).Leads m inner := by
  unfold run
  split
  case h_1 o ho => exact attempt_leads h b args o ho
  case h_2 => exact State.refuseArgument_leads h b _ _
  case h_3 => exact h.go trivial

namespace State

variable {s : State}

/-! ## Calls and statements -/

theorem runBlock_leads (h : s.Follows m inner) (env : Env) (body : List Stat) :
    (s.runBlock env body).Leads m inner := by
  unfold runBlock
  split
  · exact h.go trivial
  · exact h.push trivial trivial

theorem runClosure_leads (h : s.Follows m inner) (id : Nat) (args : List Value) (a : Activation) :
    (s.runClosure id args a).Leads m inner := by
  unfold runClosure
  split
  · exact runBlock_leads ((h.edit (.addCells _ _)).enter (by trivial)) _ _
  · trivial

theorem call_leads (h : s.Follows m inner) (f : Value) (args : List Value) (site : Site) :
    (s.call f args site).Leads m inner := by
  unfold call
  dsimp only
  split
  · exact h.go trivial
  · split
    · exact h.go trivial
    · split
      · exact runClosure_leads h _ args _
      · exact Builtin.run_leads (h.enter (by trivial)) _ args
      · exact h.enter trivial
      · exact (h.enter (by trivial)).go trivial
      · split <;> exact h.go trivial

theorem callLast_leads (h : s.Follows m inner) (f : Value) (args : List Value) (site : Site) :
    (s.callLast f args site).Leads m inner := by
  unfold callLast
  dsimp only
  split
  case h_1 unwound => exact runClosure_leads (h.below (unwound?_suffix unwound)) _ _ _
  case h_2 =>
    repeat' split
    all_goals first | exact h.go trivial | exact h.push trivial trivial

theorem nextEntry_leads (h : s.Follows m inner) (table : Nat) (env : Env) (pending : List Value)
    (items : List Item) : (s.nextEntry table env pending items).Leads m inner := by
  unfold nextEntry
  split
  · exact (h.edit (.updateTable _ table _)).go trivial
  · exact h.push trivial trivial
  · exact h.push trivial trivial

theorem declareClosing_leads (h : s.Follows m inner) (env : Env) (x : Bytes) (v : Value)
    (line : Nat) : (s.declareClosing env x v line).Leads m inner := by
  unfold declareClosing
  dsimp only
  split
  · exact h.go trivial
  · split
    case h_1 all rest _ below top =>
      split
      · have below_suffix : below <:+ s.stack := top ▸ List.suffix_cons _ _
        exact (((h.below below_suffix).enter (by trivial)).enter (by trivial)).go trivial
      · exact h.go trivial
    case h_2 => trivial

theorem perform_leads (h : s.Follows m inner) (env : Env) (ready : Ready) (vs : List Value) :
    (s.perform env ready vs).Leads m inner := by
  cases ready with
  | index name line => exact index_leads h _ _ _ _
  | call name line => exact h.go trivial
  | tailCall name line => exact h.go trivial
  | binary op left right line => exact binary_leads h op _ _ left right _
  | unary op name line => exact unary_leads h op _ _
  | entry table pending rest line =>
    unfold perform
    dsimp only
    split
    · exact h.go trivial
    · exact h.go trivial
    · exact nextEntry_leads (h.rawSet table _ _) table env pending rest
  | ret => exact h.go trivial
  | locals count => exact (h.bind env _).go trivial
  | closing x before after line => exact declareClosing_leads (h.bind env _) _ x _ line
  | assign targets => exact h.push trivial trivial
  | count body line =>
    unfold perform
    dsimp only
    split
    · exact h.go trivial
    · exact h.go trivial
    · exact runBlock_leads ((h.bind env _).enter (by trivial)) _ body
  | each names body line =>
    unfold perform
    dsimp only
    split
    · exact h.push trivial trivial
    · exact (h.enter (by trivial)).push trivial trivial

theorem withOperands_leads (h : s.Follows m inner) (env : Env) (es : List Expr) (ready : Ready) :
    (s.withOperands env es ready).Leads m inner := by
  unfold withOperands
  split
  · exact perform_leads h env ready []
  · exact h.push trivial trivial

theorem eval_leads (h : s.Follows m inner) (env : Env) (e : Expr) :
    (s.eval env e).Leads m inner := by
  cases e with
  | literal | varargs | localVar | upvalue => exact h.go trivial
  | method | both | either | paren => exact h.push trivial trivial
  | global x line =>
    unfold eval
    exact index_leads h _ _ _ _
  | index | call | binary | unary =>
    unfold eval
    exact withOperands_leads h env _ _
  | function f => exact (h.edit (.addClosure _ _)).go trivial
  | table items line => exact nextEntry_leads (h.edit (.addTable _ _)) _ env [] items

theorem exec_leads (h : s.Follows m inner) (env : Env) (stat : Stat) :
    (s.exec env stat).Leads m inner := by
  unfold exec
  split
  case h_4 f => exact (((h.bind env _).edit (.addClosure _ _)).edit (.setCell _ _ _)).go trivial
  all_goals first
    | exact h.go trivial
    | exact h.push trivial trivial
    | exact withOperands_leads h env _ _
    | exact runBlock_leads h env _
    | exact runBlock_leads (h.enter (by trivial)) env _

/-! ## Results -/

theorem nextCount_leads (h : s.Follows m inner) (c : Counting) (body : List Stat) (env : Env) :
    (s.nextCount c body env).Leads m inner := by
  unfold nextCount
  split
  · exact h.go trivial
  · exact runBlock_leads ((h.bind env _).enter (by trivial)) _ body

theorem receive_leads (h : s.Follows m inner) (f : Frame) (vs : List Value) :
    (s.receive f vs).Leads m inner := by
  cases f with
  | operands done rest env ready =>
    cases rest with
    | nil => exact perform_leads h env ready _
    | cons e rest => exact h.push trivial trivial
  | branch isAnd right env =>
    unfold receive
    dsimp only
    split
    · exact h.push trivial trivial
    · exact h.go trivial
  | methodArgs object x args env line isTail =>
    cases args with
    | nil => exact perform_leads h env _ _
    | cons e rest => exact h.push trivial trivial
  | entries table env pending rest =>
    cases rest with
    | nil => exact nextEntry_leads h table env _ []
    | cons item rest => exact nextEntry_leads h table env _ _
  | choose yes no env => exact runBlock_leads h env _
  | whileTest condition body env =>
    unfold receive
    dsimp only
    split
    · exact runBlock_leads (h.enter (by trivial)) env body
    · exact h.go trivial
  | eachTest f state names body env line =>
    unfold receive
    dsimp only
    split
    · exact h.go trivial
    · exact runBlock_leads ((h.bind env _).enter (by trivial)) _ body
  | closed next =>
    unfold receive
    dsimp only
    repeat' split
    all_goals first | exact h.go trivial | trivial
  | rendered =>
    unfold receive
    dsimp only
    split <;> exact h.go trivial
  | elements table next left done => exact nextElement_leads h _ _ _ _
  | elementsTo table start =>
    unfold receive
    dsimp only
    split
    · exact unpack_leads h _ _ _
    · exact h.go trivial
  | boundary t resumer =>
    unfold receive
    dsimp only
    split <;> exact (h.edit (.setThread _ t .dead)).go trivial
  | untilTest =>
    unfold receive
    dsimp only
    split <;> exact h.go trivial
  | method => exact h.push trivial trivial
  | single | truth | discard | activation | returning | pcall | element => exact h.go trivial
  | block | whileBody | untilBody | countBody | eachBody | stores | toClose => trivial

theorem proceed_leads (h : s.Follows m inner) (f : Frame) : (s.proceed f).Leads m inner := by
  unfold proceed
  split
  all_goals first
    | exact h.go trivial
    | exact h.push trivial trivial
    | exact nextCount_leads h _ _ _
    | exact (h.edit (.setCell _ _ _)).push trivial trivial
    | exact runBlock_leads (h.enter (by trivial)) _ _
    | trivial

theorem extend_leads (h : s.Follows m inner) (f : Frame) (env : Env) :
    (s.extend f env).Leads m inner := by
  unfold extend
  split <;> exact proceed_leads h _

theorem unwind_leads (h : s.Follows m inner) (f : Frame) (exit : Exit) :
    (s.unwind f exit).Leads m inner := by
  unfold unwind
  repeat' split
  all_goals first | exact h.go trivial | exact h.push trivial trivial

theorem catchError_leads (h : s.Follows m inner) (f : Frame) (v : Value) :
    (s.catchError f v).Leads m inner := by
  unfold catchError
  split
  · exact h.go trivial
  · exact h.push trivial trivial
  · exact failResumer_leads (h.edit (.setThread _ _ .dead)) _ v
  · exact h.go trivial

/-- A step of a script makes edits only and leaves the bottom of the stack alone. -/
theorem step_leads (h : s.Follows m inner) (fits : inner → s.control.Fits s.stack) :
    s.step.Leads m inner := by
  have below {F : Frame} {K : List Frame} (top : s.stack = F :: K) :
      { s with stack := K }.Follows m inner :=
    h.below (top ▸ List.suffix_cons F K)
  unfold step
  split
  case h_1 => exact eval_leads h _ _
  case h_2 => exact exec_leads h _ _
  case h_3 => exact call_leads h _ _ _
  case h_4 => exact callLast_leads h _ _ _
  case h_5 => exact index_leads h _ _ _ _
  case h_6 => exact store_leads h _ _ _ _ _
  case h_7 asks =>
    rw [asks] at fits
    refine resume_leads h _ _ fun hi host => ?_
    subst host
    exact fits hi
  case h_8 top => exact receive_leads (below top) _ _
  case h_9 => exact ⟨h.edits, fun _ _ eq => by cases eq⟩
  case h_10 top => exact proceed_leads (below top) _
  case h_11 top => exact extend_leads (below top) _ _
  case h_12 top => exact unwind_leads (below top) _ _
  case h_13 top => exact catchError_leads (below top) _ _
  case h_14 => exact ⟨h.edits, fun _ _ eq => by cases eq⟩
  case h_15 suspended empty =>
    rw [suspended] at fits
    exact ⟨h.edits, fun hi => absurd empty (fits hi)⟩
  case h_16 => trivial
  case h_17 => trivial

/-- A step of a script makes edits only. -/
theorem step_edits (s : State) : s.step.Edits s.memory :=
  have leads : s.step.Leads s.memory False := step_leads ⟨.refl _, False.elim⟩ False.elim
  leads.edits

end State

end CardBridge.Script
