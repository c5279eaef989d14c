import CardBridge.Script.Library

/-!
# Running a script

`State.step` takes a running script one step further. It never loops: evaluation, calls, loops,
errors and coroutines all go through the stack, so a run is the repetition of a step, and every
moment of it is a `State`.
-/

namespace CardBridge.Script

/-- How many calls may be in progress in one coroutine. -/
def depthLimit : Nat := 190000

/-- How many calls that no script makes directly may be in progress. -/
def levelLimit : Nat := 200

namespace State

/-! ## Calls -/

/-- Run the statements of a block. -/
def runBlock (s : State) (env : Env) (body : List Stat) : Outcome :=
  match body with
  | [] => s.go .done
  | first :: rest => s.push (.block body rest env) (.exec env first)

/-- Run a closure above its activation. -/
def runClosure (s : State) (id : Nat) (args : List Value) (a : Activation) : Outcome :=
  match s.memory.closures[id]? with
  | some ⟨.mk params variadic body, vars, chunk⟩ =>
    let varargs := if variadic then args.drop params else []
    let (env, memory) := s.memory.bind ⟨vars, varargs, chunk⟩ (exactly params args)
    { s with memory, stack := Frame.activation a :: s.stack }.runBlock env body
  | none => .stuck

/-- Whether a call from a site is made by something other than a script. -/
def indirect (site : Site) : Bool :=
  match site.position, site.name with
  | none, _ => true
  | _, some ⟨.metamethod, _⟩ => true
  | _, _ => false

/-- The activation of a call made now. -/
def activationAt (s : State) (site : Site) : Activation :=
  let around := surroundings s.base s.stack
  { site
    depth := around.depth + 1
    levels := around.levels + if indirect site then 1 else 0
    yieldable := around.yieldable }

/-- Call a function. -/
def call (s : State) (f : Value) (args : List Value) (site : Site) : Outcome :=
  let a := s.activationAt site
  if levelLimit ≤ a.levels then s.fail site (bytes "C stack overflow")
  else if depthLimit ≤ a.depth then s.fail site (bytes "stack overflow")
  else
    let entered := { s with stack := Frame.activation a :: s.stack }
    match f with
    | .closure id => s.runClosure id args a
    | .builtin b => b.run args entered
    | .native n => .native n args entered
    | .wrapper t => entered.go (.resume t args .wrapper)
    | f =>
      match s.memory.metafield f .call with
      | .nil => s.fail site (s.memory.typeError "call" f site.name)
      | g => s.go (.call g (f :: args) site)

/-- The activation of the function whose statements run, and the stack below it; `none` if a
value is to be closed before it ends. -/
def unwound? : List Frame → Option (Activation × List Frame)
  | .activation a :: rest => some (a, rest)
  | .toClose .. :: _ => none
  | [] => none
  | _ :: rest => unwound? rest

/-- Call a function whose results are those of the calling function. A function of a script takes
the place of its caller. -/
def callLast (s : State) (f : Value) (args : List Value) (site : Site) : Outcome :=
  let plain := s.push .returning (.call f args site)
  match f, unwound? s.stack with
  | .closure id, some (a, rest) =>
    { s with stack := rest }.runClosure id args { a with site := { a.site with name := none } }
  | f, _ =>
    if f.isFunction then plain
    else
      match s.memory.metafield f .call with
      | .nil => plain
      | g => s.go (.tailCall g (f :: args) site)

/-! ## Operands -/

/-- Pair the targets of an assignment with the values they name; what is left are the values to
be assigned. -/
def places (s : State) (env : Env) : List Target → List Value → List Place × List Value
  | [], vs => ([], vs)
  | .variable i :: ts, vs =>
    let (ps, rest) := s.places env ts vs
    (.variable (env.vars[i]?.getD 0) :: ps, rest)
  | .global x line :: ts, vs =>
    let (ps, rest) := s.places env ts vs
    (.slot (.table globalTable) (.str x) none line :: ps, rest)
  | .index object _ line :: ts, o :: k :: vs =>
    let (ps, rest) := s.places env ts vs
    (.slot o k object.described line :: ps, rest)
  | .index .. :: _, vs => ([], vs)

/-- The expressions that the targets of an assignment need. -/
def targetExprs : List Target → List Expr
  | [] => []
  | .index object key _ :: ts => object :: key :: targetExprs ts
  | _ :: ts => targetExprs ts

/-- Set the entry of a table being made and go on with the others. -/
def nextEntry (s : State) (table : Nat) (env : Env) (pending : List Value) (items : List Item) :
    Outcome :=
  match items with
  | [] =>
    let fill := fun t : Table =>
      match t.items.size, t.fields with
      | 0, [] => { t with items := pending.toArray }
      | _, _ =>
        (pending.zipIdx.foldl
          (fun t p => t.set (.int (Int64.ofNat (p.2 + 1))) p.1) t)
    { s with memory := s.memory.updateTable table fill }.go (.give [.table table])
  | .positional e :: rest => s.push (.entries table env pending rest) (.eval env e)
  | .named key v line :: rest =>
    s.push (.operands [] [v] env (.entry table pending rest line)) (.eval env key)

/-- Declare a variable whose value is closed when its scope ends: the rest of the block runs above
a frame that closes it. -/
def declareClosing (s : State) (env : Env) (x : Bytes) (v : Value) (line : Nat) : Outcome :=
  let closable := !v.truthy || s.memory.metafield v .close ≠ .nil
  if !closable then
    s.fail (env.site line none)
      (bytes "variable '" ++ x ++ bytes "' got a non-closable value")
  else
    match s.stack with
    | .block all rest _ :: below =>
      if v.truthy then
        { s with stack := .block all rest env :: .toClose v env :: below }.go (.bind env)
      else s.go (.bind env)
    | _ => .stuck

/-- Do what the operands were evaluated for. -/
def perform (s : State) (env : Env) (ready : Ready) (vs : List Value) : Outcome :=
  let a := first vs
  let b := first (vs.drop 1)
  match ready with
  | .index name line => s.index a b (env.site line name) 0
  | .call name line => s.go (.call a (vs.drop 1) (env.site line name))
  | .tailCall name line => s.go (.tailCall a (vs.drop 1) (env.site line name))
  | .binary op left right line => s.binary op a b left right (env.site line none)
  | .unary op name line => s.unary op a (env.site line name)
  | .entry table pending rest line =>
    match a with
    | .nil => s.fail (env.site line none) (bytes "table index is nil")
    | .nan _ => s.fail (env.site line none) (bytes "table index is NaN")
    | key => { s with memory := s.memory.rawSet table key b }.nextEntry table env pending rest
  | .ret => s.go (.leave (.ret vs))
  | .locals count =>
    let (env, memory) := s.memory.bind env (exactly count vs)
    { s with memory }.go (.bind env)
  | .closing x before after line =>
    let vs := exactly (before + 1 + after) vs
    let (env, memory) := s.memory.bind env vs
    { s with memory }.declareClosing env x (first (vs.drop before)) line
  | .assign targets =>
    let (ps, rest) := s.places env targets vs
    let pairs := ps.zip (exactly ps.length rest)
    s.push (.stores pairs.reverse env) .done
  | .count body line =>
    let start := startCounting s.memory.typeText a b (first (vs.drop 2))
    match start with
    | .error message => s.fail (env.site line none) message
    | .ok none => s.go .done
    | .ok (some c) =>
      let (inner, memory) := s.memory.bind env [c.value]
      { s with memory, stack := Frame.countBody c body env :: s.stack }.runBlock inner body
  | .each names body line =>
    let loop (s : State) : Outcome :=
      let control := first (vs.drop 2)
      s.push (.eachTest a b names body env line)
        (.call a [b, control] (env.site line (some ⟨.forIterator, bytes "for iterator"⟩)))
    match first (vs.drop 3) with
    | .nil => loop s
    | v => loop { s with stack := Frame.toClose v env :: s.stack }

/-- Evaluate expressions and then do what they are for. -/
def withOperands (s : State) (env : Env) (es : List Expr) (ready : Ready) : Outcome :=
  match es with
  | [] => s.perform env ready []
  | e :: rest => s.push (.operands [] rest env ready) (.eval env e)

/-! ## Expressions and statements -/

/-- Make a closure. -/
def makeClosure (s : State) (env : Env) (f : FunctionBody) : Value × State :=
  let (id, memory) := s.memory.addClosure ⟨f, env.vars, env.chunk⟩
  (.closure id, { s with memory })

/-- The value of a variable. -/
def read (s : State) (env : Env) (i : Nat) : Value :=
  match env.vars[i]? with
  | some c => s.memory.cell c
  | none => .nil

/-- Begin to evaluate an expression. -/
def eval (s : State) (env : Env) (e : Expr) : Outcome :=
  match e with
  | .literal v => s.go (.give [v])
  | .varargs => s.go (.give env.varargs)
  | .localVar i _ | .upvalue i _ => s.go (.give [s.read env i])
  | .global x line => s.index (.table globalTable) (.str x) (env.site line none) 0
  | .index object key line => s.withOperands env [object, key] (.index object.described line)
  | .call f args line => s.withOperands env (f :: args) (.call f.described line)
  | .method object x args line =>
    s.push (.method x args env object.described line false) (.eval env object)
  | .function f =>
    let (v, s) := s.makeClosure env f
    s.go (.give [v])
  | .binary op a b line => s.withOperands env [a, b] (.binary op a.described b.described line)
  | .unary op a line => s.withOperands env [a] (.unary op a.described line)
  | .both a b => s.push (.branch true b env) (.eval env a)
  | .either a b => s.push (.branch false b env) (.eval env a)
  | .table items _ =>
    let (t, memory) := s.memory.addTable .empty
    { s with memory }.nextEntry t env [] items
  | .paren e => s.push .single (.eval env e)

/-- Begin to run a statement. -/
def exec (s : State) (env : Env) (stat : Stat) : Outcome :=
  match stat with
  | .call e => s.push .discard (.eval env e)
  | .locals count values => s.withOperands env values (.locals count)
  | .closing x before after values line =>
    s.withOperands env values (.closing x before after line)
  | .localFunction f =>
    let (env, memory) := s.memory.bind env [.nil]
    let (v, s) := { s with memory }.makeClosure env f
    { s with memory := s.memory.setCell (env.vars.head?.getD 0) v }.go (.bind env)
  | .assign targets values => s.withOperands env (targetExprs targets ++ values) (.assign targets)
  | .scope body => s.runBlock env body
  | .loop condition body => s.push (.whileTest condition body env) (.eval env condition)
  | .untilLoop body => { s with stack := Frame.untilBody body env :: s.stack }.runBlock env body
  | .until condition => s.push .untilTest (.eval env condition)
  | .choose condition yes no => s.push (.choose yes no env) (.eval env condition)
  | .count start limit step body line => s.withOperands env [start, limit, step] (.count body line)
  | .each names values body line => s.withOperands env values (.each names body line)
  | .ret [.call f args line] => s.withOperands env (f :: args) (.tailCall f.described line)
  | .ret [.method object x args line] =>
    s.push (.method x args env object.described line true) (.eval env object)
  | .ret values => s.withOperands env values .ret
  | .leave => s.go (.leave .leave)
  | .jump x => s.go (.leave (.jump x))
  | .label _ _ => s.go .done

/-! ## Results -/

/-- Go on with a loop over numbers, if it goes on. -/
def nextCount (s : State) (c : Counting) (body : List Stat) (env : Env) : Outcome :=
  match c.next with
  | none => s.go .done
  | some c =>
    let (inner, memory) := s.memory.bind env [c.value]
    { s with memory, stack := Frame.countBody c body env :: s.stack }.runBlock inner body

/-- Hand values to the frame at the top of the stack, `s` being the state below it. -/
def receive (s : State) (f : Frame) (vs : List Value) : Outcome :=
  let v := first vs
  match f with
  | .operands done [] env ready => s.perform env ready (done.reverse ++ vs)
  | .operands done (e :: rest) env ready =>
    s.push (.operands (v :: done) rest env ready) (.eval env e)
  | .branch isAnd right env =>
    if v.truthy = isAnd then s.push .single (.eval env right) else s.go (.give [v])
  | .single => s.go (.give [v])
  | .truth negated => s.go (.give [.bool (v.truthy != negated)])
  | .method x args env described line isTail =>
    s.push (.methodArgs v x args env line isTail)
      (.index v (.str x) (env.site line described) 0)
  | .methodArgs object x args env line isTail =>
    let name := some ⟨.method, x⟩
    let ready := if isTail then Ready.tailCall name line else Ready.call name line
    match args with
    | [] => s.perform env ready [v, object]
    | e :: rest => s.push (.operands [object, v] rest env ready) (.eval env e)
  | .entries table env pending [] => s.nextEntry table env (pending ++ vs) []
  | .entries table env pending rest => s.nextEntry table env (pending ++ [v]) rest
  | .discard => s.go .done
  | .choose yes no env => s.runBlock env (if v.truthy then yes else no)
  | .whileTest condition body env =>
    if v.truthy then
      { s with stack := Frame.whileBody condition body env :: s.stack }.runBlock env body
    else s.go .done
  | .untilTest => s.go (if v.truthy then .leave .leave else .done)
  | .eachTest f state names body env line =>
    match v with
    | .nil => s.go .done
    | v =>
      let (inner, memory) := s.memory.bind env (exactly names vs)
      { s with memory, stack := Frame.eachBody f state v names body env line :: s.stack }.runBlock
        inner body
  | .closed none => s.go .done
  | .closed (some (.inl exit)) => s.go (.leave exit)
  | .closed (some (.inr error)) => s.go (.throw error)
  | .activation _ => s.go (.give vs)
  | .returning => s.go (.leave (.ret vs))
  | .pcall => s.go (.give (.bool true :: vs))
  | .rendered =>
    match v.toText? with
    | some t => s.go (.give [.str t])
    | none => s.refuse (bytes "'__tostring' must return a string")
  | .element i => s.go (.give (if v = .nil then [.nil] else [.int i, v]))
  | .elements table next left done => s.nextElement table (next + 1) left (v :: done)
  | .elementsTo table start =>
    match v.toInteger? with
    | some stop => s.unpack table start stop
    | none => s.refuse (bytes "object length is not an integer")
  | .boundary t resumer =>
    let s := { s with memory := s.memory.setThread t .dead }
    match resumer with
    | .resume => s.go (.give (.bool true :: vs))
    | .wrapper | .host => s.go (.give vs)
  | _ => .stuck

/-- Tell the frame at the top of the stack that a statement is done, `s` being the state below
it. -/
def proceed (s : State) (f : Frame) : Outcome :=
  match f with
  | .block _ [] _ => s.go .done
  | .block all (next :: rest) env => s.push (.block all rest env) (.exec env next)
  | .whileBody condition body env => s.push (.whileTest condition body env) (.eval env condition)
  | .untilBody body env => { s with stack := Frame.untilBody body env :: s.stack }.runBlock env body
  | .countBody c body env => s.nextCount c body env
  | .eachBody f state control names body env line =>
    s.push (.eachTest f state names body env line)
      (.call f [state, control] (env.site line (some ⟨.forIterator, bytes "for iterator"⟩)))
  | .stores [] _ => s.go .done
  | .stores ((.variable c, v) :: rest) env =>
    { s with memory := s.memory.setCell c v }.push (.stores rest env) .done
  | .stores ((.slot object key name line, v) :: rest) env =>
    s.push (.stores rest env) (.store object key v (env.site line name) 0)
  | .toClose v _ =>
    s.push (.closed none) (.call (s.memory.metafield v .close) [v, .nil] .outside)
  | .activation _ => s.go (.give [])
  | _ => .stuck

/-- Tell the frame at the top of the stack that a statement is done and has brought variables
into scope. Only a block has use for them. -/
def extend (s : State) (f : Frame) (env : Env) : Outcome :=
  match f with
  | .block all rest _ => s.proceed (.block all rest env)
  | f => s.proceed f

/-- The statements after a label, with how many variables are in scope at it. -/
def afterLabel (x : Bytes) : List Stat → Option (Nat × List Stat)
  | [] => none
  | .label y scope :: rest => if y = x then some (scope, rest) else afterLabel x rest
  | _ :: rest => afterLabel x rest

/-- Leave the frame at the top of the stack, `s` being the state below it. -/
def unwind (s : State) (f : Frame) (exit : Exit) : Outcome :=
  match f, exit with
  | .activation _, .ret vs => s.go (.give vs)
  | .toClose v _, exit =>
    s.push (.closed (some (.inl exit))) (.call (s.memory.metafield v .close) [v, .nil] .outside)
  | .block all _ env, .jump x =>
    match afterLabel x all with
    | some (scope, rest) =>
      s.push (.block all rest { env with vars := env.vars.drop (env.vars.length - scope) }) .done
    | none => s.go (.leave exit)
  | .whileBody .., .leave | .untilBody .., .leave | .countBody .., .leave | .eachBody .., .leave =>
    s.go .done
  | _, exit => s.go (.leave exit)

/-- Take an error past the frame at the top of the stack, `s` being the state below it. -/
def catchError (s : State) (f : Frame) (v : Value) : Outcome :=
  match f with
  | .pcall => s.go (.give [.bool false, v])
  | .toClose w _ =>
    s.push (.closed (some (.inr v))) (.call (s.memory.metafield w .close) [w, v] .outside)
  | .boundary t resumer =>
    { s with memory := s.memory.setThread t .dead }.failResumer resumer v
  | _ => s.go (.throw v)

/-! ## The step -/

/-- One step. -/
def step (s : State) : Outcome :=
  match s.control, s.stack with
  | .eval env e, _ => s.eval env e
  | .exec env stat, _ => s.exec env stat
  | .call f args site, _ => s.call f args site
  | .tailCall f args site, _ => s.callLast f args site
  | .index object key site chain, _ => s.index object key site chain
  | .store object key v site chain, _ => s.store object key v site chain
  | .resume t args resumer, _ => s.resume t args resumer
  | .give vs, f :: rest => { s with stack := rest }.receive f vs
  | .give vs, [] => .settled (.returned vs) s.memory
  | .done, f :: rest => { s with stack := rest }.proceed f
  | .bind env, f :: rest => { s with stack := rest }.extend f env
  | .leave exit, f :: rest => { s with stack := rest }.unwind f exit
  | .throw v, f :: rest => { s with stack := rest }.catchError f v
  | .throw v, [] => .settled (.raised v) s.memory
  | .suspended vs, [] => .settled (.yielded vs) s.memory
  | .suspended _, _ :: _ => .stuck
  | _, [] => .stuck

end State

end CardBridge.Script
