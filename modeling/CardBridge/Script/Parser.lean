import CardBridge.Script.Syntax
import CardBridge.Script.Token

/-!
# Reading a chunk

`parse` reads the text of a chunk to a list of statements, resolving names as it goes. It is a
recursive descent without backtracking, so the first error it meets is the error of the chunk.
An error is reported for the line the reader stands on, which is the line after the token that
does not fit.

Operations get the line on which the reader stood when their operands were complete: an index is
only worked out once it is known what is done with it (`Expr.at`).
-/

namespace CardBridge.Script.Parser

/-- A variable in scope. `depth` counts the functions around the one it belongs to. -/
structure Variable where
  name : Bytes
  depth : Nat
  constant : Bool

/-- A jump whose label has not been met yet. `vars` counts the variables in scope at it. -/
structure Jump where
  name : Bytes
  line : Nat
  vars : Nat

/-- A block being read. -/
structure Block where
  isLoop : Bool
  /-- How many variables were in scope when it began. -/
  base : Nat
  /-- The labels met in it and their lines. -/
  labels : List (Bytes × Nat)
  /-- The jumps in it that are still open. -/
  jumps : List Jump

/-- A function being read, with its blocks, innermost first. -/
structure FunctionScope where
  variadic : Bool
  /-- The line it is defined on; `none` for the chunk itself. -/
  defined : Option Nat
  blocks : List Block

/-- What the parser knows. -/
structure State where
  chunk : Bytes
  token : Token
  rest : List (Except CompileError Token)
  /-- The line the reader stands on. -/
  line : Nat
  /-- The line it stood on before it read the current token. -/
  last : Nat
  /-- The variables in scope, of all functions, innermost first. -/
  vars : List Variable
  /-- The functions around, innermost first. -/
  functions : List FunctionScope
  /-- How deep expressions and statements nest. -/
  level : Nat

/-- A step of the parser. -/
abbrev Parse (α : Type) := StateT State (Except CompileError) α

/-- How deep expressions and statements may nest. -/
def nestingLimit : Nat := 200

/-- How many variables a function may have in scope. -/
def variableLimit : Nat := 200

/-! ## Errors -/

/-- Fail with a message about the line the reader stands on. -/
def failPlain {α : Type} (message : Bytes) : Parse α := do
  let s ← get
  throw (.malformed (Position.mark ⟨s.chunk, s.line⟩ ++ message))

/-- Fail with a message that also says what it is near to. -/
def fail {α : Type} (message : Bytes) : Parse α := do
  let s ← get
  failPlain (message ++ bytes " near " ++ s.token.shown)

/-- Fail because something else was expected. -/
def expected {α : Type} (what : Bytes) : Parse α :=
  fail (what ++ bytes " expected")

/-! ## Tokens -/

/-- Take the first of the tokens. -/
def nextToken : Parse Token := do
  let s ← get
  match s.rest with
  | [] => pure s.token
  | .ok t :: rest => set { s with rest }; pure t
  | .error e :: _ => throw e

/-- Go on to the next token. -/
def advance : Parse Unit := do
  let t ← nextToken
  modify fun s => { s with token := t, last := s.line, line := t.line }

/-- What the current token is. -/
def current : Parse TokenKind := do
  pure (← get).token.kind

/-- The line the reader stands on. -/
def currentLine : Parse Nat := do
  pure (← get).line

/-- Look at the token after the current one. The reader gets to its line. -/
def ahead : Parse TokenKind := do
  match (← get).rest with
  | [] => current
  | .ok t :: _ => modify fun s => { s with line := t.line }; pure t.kind
  | .error e :: _ => throw e

/-- How a message names a token that is not there. -/
def tokenText : TokenKind → Bytes
  | .keyword k => Token.quote (bytes k.text)
  | .symbol s => Token.quote (bytes s.text)
  | .char c => Token.showChar c
  | .name _ => bytes "<name>"
  | .str _ => bytes "<string>"
  | .int _ => bytes "<integer>"
  | .num _ => bytes "<number>"
  | .eof => Token.showEnd

/-- Go past a token if it is the current one, and tell whether it was. -/
def accept (k : TokenKind) : Parse Bool := do
  if (← current) = k then
    advance
    pure true
  else pure false

/-- Go past a token that has to be there. -/
def require (k : TokenKind) : Parse Unit := do
  if !(← accept k) then expected (tokenText k)

/-- Go past the token that closes what `opener` began on `line`. -/
def close (k opener : TokenKind) (line : Nat) : Parse Unit := do
  if !(← accept k) then
    if line = (← currentLine) then expected (tokenText k)
    else
      fail (tokenText k ++ bytes " expected (to close " ++ tokenText opener ++
        bytes (" at line " ++ toString line ++ ")"))

/-- Go past a name. -/
def name : Parse Bytes := do
  match ← current with
  | .name s => advance; pure s
  | _ => expected (bytes "<name>")

/-- Whether the current token ends a block. -/
def blockEnds (untilToo : Bool) : Parse Bool := do
  pure <| match ← current with
    | .eof | .keyword .kwElse | .keyword .kwElseif | .keyword .kwEnd => true
    | .keyword .kwUntil => untilToo
    | _ => false

/-- One level deeper, if that is allowed. -/
def enter : Parse Unit := do
  modify fun s => { s with level := s.level + 1 }
  if nestingLimit ≤ (← get).level then throw .tooDeep

/-- One level up. -/
def leave : Parse Unit :=
  modify fun s => { s with level := s.level - 1 }

/-! ## Scopes -/

/-- How many functions are around. -/
def functionDepth : Parse Nat := do
  pure (← get).functions.length

/-- Change the innermost block. -/
def updateBlock (f : Block → Block) : Parse Unit :=
  modify fun s =>
    match s.functions with
    | [] => s
    | g :: gs =>
      match g.blocks with
      | [] => s
      | b :: bs => { s with functions := { g with blocks := f b :: bs } :: gs }

/-- Begin a block. -/
def openBlock (isLoop : Bool) : Parse Unit :=
  modify fun s =>
    match s.functions with
    | [] => s
    | g :: gs =>
      { s with functions := { g with blocks := ⟨isLoop, s.vars.length, [], []⟩ :: g.blocks } :: gs }

/-- Fail because a jump has no label. -/
def failJump {α : Type} (j : Jump) : Parse α :=
  let line := toString j.line
  if j.name = bytes "break" then failPlain (bytes ("break outside a loop at line " ++ line))
  else failPlain (bytes "no visible label '" ++ j.name ++ bytes ("' for <goto> at line " ++ line))

/-- End a block: its variables go out of scope, and its open jumps are those of the block
around it. A function has to have none. -/
def closeBlock : Parse Unit := do
  let s ← get
  match s.functions with
  | ⟨variadic, defined, b :: outer :: bs⟩ :: gs =>
    let moved := b.jumps.map fun j => { j with vars := b.base }
    let outer := { outer with jumps := outer.jumps ++ moved }
    set { s with
      functions := ⟨variadic, defined, outer :: bs⟩ :: gs
      vars := s.vars.drop (s.vars.length - b.base) }
  | ⟨_, _, [b]⟩ :: gs =>
    match b.jumps with
    | j :: _ => failJump j
    | [] => set { s with functions := gs, vars := s.vars.drop (s.vars.length - b.base) }
  | _ => pure ()

/-- Begin a function. -/
def openFunction (defined : Option Nat) (variadic : Bool) : Parse Unit := do
  modify fun s => { s with functions := ⟨variadic, defined, []⟩ :: s.functions }
  openBlock false

/-- Bring a variable into scope. -/
def declare (x : Bytes) (constant : Bool) : Parse Unit := do
  let depth ← functionDepth
  modify fun s => { s with vars := ⟨x, depth, constant⟩ :: s.vars }

/-- Check that a function can have `extra` more variables. -/
def checkRoom (extra : Nat) : Parse Unit := do
  let depth ← functionDepth
  let s ← get
  let own := (s.vars.takeWhile fun v => v.depth = depth).length
  if variableLimit < own + extra then
    let place :=
      match s.functions.head?.bind (·.defined) with
      | some line => "function at line " ++ toString line
      | none => "main function"
    fail
      (bytes ("too many local variables (limit is " ++ toString variableLimit ++ ") in " ++ place))

/-- What a name refers to. -/
def resolve (x : Bytes) : Parse Expr := do
  let s ← get
  match s.vars.findIdx? fun v => v.name = x with
  | some i =>
    let own := (s.vars[i]?.map fun v => decide (v.depth = s.functions.length)).getD false
    pure (if own then .localVar i x else .upvalue i x)
  | none => pure (.global x s.line)

/-- Fail on an assignment to a variable that is constant. -/
def checkWritable (e : Expr) : Parse Unit := do
  let check (i : Nat) (x : Bytes) : Parse Unit := do
    if (((← get).vars[i]?).map (·.constant)).getD false then
      failPlain (bytes "attempt to assign to const variable '" ++ x ++ bytes "'")
  match e with
  | .localVar i x | .upvalue i x => check i x
  | _ => pure ()

/-- The label of a name that is visible in the current function. -/
def visibleLabel (x : Bytes) : Parse (Option Nat) := do
  match (← get).functions with
  | [] => pure none
  | g :: _ => pure (g.blocks.findSome? fun b => b.labels.lookup x)

/-- Whether the current function has a loop around the current place. -/
def insideLoop : Parse Bool := do
  match (← get).functions with
  | [] => pure false
  | g :: _ => pure (g.blocks.any (·.isLoop))

/-- Note a jump whose label is still to come. -/
def openJump (x : Bytes) (line : Nat) : Parse Unit := do
  let vars := (← get).vars.length
  updateBlock fun b => { b with jumps := b.jumps ++ [⟨x, line, vars⟩] }

/-- Set a label with `scope` variables in scope. The open jumps of the block to it are settled;
none of them may lead into the scope of a variable. -/
def setLabel (x : Bytes) (line scope : Nat) : Parse Unit := do
  let s ← get
  let jumps := ((s.functions.head?.bind (·.blocks.head?)).map (·.jumps)).getD []
  match jumps.find? fun j => j.name = x ∧ j.vars < scope with
  | some j =>
    let entered := (s.vars[s.vars.length - 1 - j.vars]?.map (·.name)).getD []
    failPlain (bytes "<goto " ++ x ++ bytes ("> at line " ++ toString j.line) ++
      bytes " jumps into the scope of local '" ++ entered ++ bytes "'")
  | none =>
    updateBlock fun b =>
      { b with
        labels := (x, line) :: b.labels
        jumps := b.jumps.filter fun j => j.name ≠ x }

/-! ## Operators -/

/-- How strongly an operator binds its operands on either side. -/
structure Binding where
  left : Nat
  right : Nat

/-- Operators of two operands as the parser sees them. -/
inductive Joiner
  | op (o : BinOp)
  | both
  | either

/-- The operator a token is. -/
def operator? : TokenKind → Option (Joiner × Binding)
  | .char '+' => some (.op (.arith .add), ⟨10, 10⟩)
  | .char '-' => some (.op (.arith .sub), ⟨10, 10⟩)
  | .char '*' => some (.op (.arith .mul), ⟨11, 11⟩)
  | .char '%' => some (.op (.arith .mod), ⟨11, 11⟩)
  | .char '^' => some (.op (.arith .pow), ⟨14, 13⟩)
  | .char '/' => some (.op (.arith .div), ⟨11, 11⟩)
  | .symbol .idiv => some (.op (.arith .idiv), ⟨11, 11⟩)
  | .char '&' => some (.op (.arith .band), ⟨6, 6⟩)
  | .char '|' => some (.op (.arith .bor), ⟨4, 4⟩)
  | .char '~' => some (.op (.arith .bxor), ⟨5, 5⟩)
  | .symbol .shl => some (.op (.arith .shl), ⟨7, 7⟩)
  | .symbol .shr => some (.op (.arith .shr), ⟨7, 7⟩)
  | .symbol .concat => some (.op .concat, ⟨9, 8⟩)
  | .symbol .eq => some (.op .eq, ⟨3, 3⟩)
  | .symbol .ne => some (.op .ne, ⟨3, 3⟩)
  | .char '<' => some (.op .lt, ⟨3, 3⟩)
  | .symbol .le => some (.op .le, ⟨3, 3⟩)
  | .char '>' => some (.op .gt, ⟨3, 3⟩)
  | .symbol .ge => some (.op .ge, ⟨3, 3⟩)
  | .keyword .kwAnd => some (.both, ⟨2, 2⟩)
  | .keyword .kwOr => some (.either, ⟨1, 1⟩)
  | _ => none

/-- How strongly an operator of one operand binds it. -/
def unaryBinding : Nat := 12

/-- The operator of one operand a token is. -/
def unary? : TokenKind → Option UnOp
  | .char '-' => some .neg
  | .char '~' => some .bnot
  | .char '#' => some .len
  | .keyword .kwNot => some .not
  | _ => none

/-- The line of a chain of concatenations is that of its last operator. -/
def concatLine (line : Nat) : Expr → Nat
  | .binary .concat _ _ l => l
  | .paren e => concatLine line e
  | _ => line

/-- Put an operator between two operands. Comparisons get the line their right operand ended
on, other operators their own. -/
def join (o : Joiner) (a b : Expr) (line last : Nat) : Expr :=
  match o with
  | .both => .both a b
  | .either => .either a b
  | .op .concat => .binary .concat a b (concatLine line b)
  | .op (.arith op) => .binary (.arith op) a b line
  | .op op => .binary op a b last

/-- Have a variable or an index worked out on a line. -/
def atLine (line : Nat) : Expr → Expr
  | .global x _ => .global x line
  | .index object key _ => .index object key line
  | e => e

/-- Have an expression worked out on the line of the last token that was gone past. -/
def settle (e : Expr) : Parse Expr := do
  pure (atLine (← get).last e)

/-- Have the last of some expressions worked out now. -/
def settleLast (es : List Expr) : Parse (List Expr) := do
  let last := (← get).last
  pure <| match es.reverse with
    | [] => []
    | e :: before => (atLine last e :: before).reverse

/-- What an expression is as the target of an assignment. -/
def target? (line : Nat) : Expr → Option Target
  | .localVar i _ | .upvalue i _ => some (.variable i)
  | .global x _ => some (.global x line)
  | .index object key _ => some (.index object key line)
  | _ => none

/-! ## Expressions and statements -/

/-- A string constant. -/
def constant (s : Bytes) : Expr :=
  .literal (.str s)

/-- What `local` says about a variable. -/
inductive Attribute
  | regular
  | constant
  | closing
  deriving DecidableEq

/-- Read what may stand behind the name of a variable in angle brackets. -/
def readAttribute : Parse Attribute := do
  if ← accept (.char '<') then
    let a ← name
    require (.char '>')
    if a = bytes "const" then pure .constant
    else if a = bytes "close" then pure .closing
    else failPlain (bytes "unknown attribute '" ++ a ++ bytes "'")
  else pure .regular

/-- Read the names after `local`, given how many came before and whether one is closed. -/
def localNames : Nat → Nat → Bool → Parse (List (Bytes × Attribute))
  | 0, _, _ => throw .tooDeep
  | n + 1, count, closed => do
    let x ← name
    checkRoom (count + 1)
    let a ← readAttribute
    if a = .closing ∧ closed then
      failPlain (bytes "multiple to-be-closed variables in local list")
    if ← accept (.char ',') then
      let more ← localNames n (count + 1) (closed || a = .closing)
      pure ((x, a) :: more)
    else pure [(x, a)]

/-- Read the parameters of a function: their names and whether more are taken. -/
def parameters : Nat → Nat → Parse (List Bytes × Bool)
  | 0, _ => throw .tooDeep
  | n + 1, count => do
    match ← current with
    | .name x =>
      advance
      checkRoom (count + 1)
      if ← accept (.char ',') then
        let (xs, variadic) ← parameters n (count + 1)
        pure (x :: xs, variadic)
      else pure ([x], false)
    | .symbol .dots => advance; pure ([], true)
    | _ => expected (bytes "<name> or '...'")

/-- Read more names, each after a comma. -/
def moreNames : Nat → Nat → Parse (List Bytes)
  | 0, _ => throw .tooDeep
  | n + 1, count => do
    if ← accept (.char ',') then
      let x ← name
      checkRoom (count + 1)
      pure (x :: (← moreNames n (count + 1)))
    else pure []

/-- Read the fields after the first name of a function statement, and whether the last one
makes it a method. -/
def functionName : Nat → Expr → Parse (Expr × Bool)
  | 0, _ => throw .tooDeep
  | n + 1, e => do
    if (← current) = .char '.' then
      let e ← settle e
      advance
      let x ← name
      functionName n (.index e (constant x) (← get).last)
    else if (← current) = .char ':' then
      let e ← settle e
      advance
      let x ← name
      pure (.index e (constant x) (← get).last, true)
    else pure (e, false)

/-- Which statement a `local` statement is, given its variables and values. -/
def localStatement (xs : List (Bytes × Attribute)) (values : List Expr) (line : Nat) : Stat :=
  let before := xs.takeWhile fun x => x.2 ≠ .closing
  match xs.drop before.length with
  | [] => .locals xs.length values
  | (x, _) :: after => .closing x before.length after.length values line

/-- Read a `goto`, after the word. -/
def jump (line : Nat) : Parse Stat := do
  let x ← name
  if (← visibleLabel x).isNone then openJump x line
  pure (.jump x)

mutual

/-- Read an expression. -/
def expr : Nat → Parse Expr
  | 0 => throw .tooDeep
  | n + 1 => subexpr n 0
termination_by structural n => n

/-- Read an expression whose operators bind more strongly than `limit`. -/
def subexpr : Nat → Nat → Parse Expr
  | 0, _ => throw .tooDeep
  | n + 1, limit => do
    enter
    let first ← match unary? (← current) with
      | some op => do
        let line ← currentLine
        advance
        let e ← settle (← subexpr n unaryBinding)
        pure (.unary op e line)
      | none => simple n
    let e ← operators n limit first
    leave
    pure e
termination_by structural n _ => n

/-- Read the operators that follow `a` and bind more strongly than `limit`. -/
def operators : Nat → Nat → Expr → Parse Expr
  | 0, _, _ => throw .tooDeep
  | n + 1, limit, a => do
    match operator? (← current) with
    | none => pure a
    | some (o, binding) =>
      if binding.left ≤ limit then pure a
      else
        let line ← currentLine
        advance
        let a ← settle a
        let b ← settle (← subexpr n binding.right)
        operators n limit (join o a b line (← get).last)
termination_by structural n _ _ => n

/-- Read an expression without operators. -/
def simple : Nat → Parse Expr
  | 0 => throw .tooDeep
  | n + 1 => do
    let plain (v : Value) : Parse Expr := do advance; pure (.literal v)
    match ← current with
    | .int i => plain (.int i)
    | .num x => plain (.num x)
    | .str s => plain (.str s)
    | .keyword .kwNil => plain .nil
    | .keyword .kwTrue => plain (.bool true)
    | .keyword .kwFalse => plain (.bool false)
    | .symbol .dots => do
      if ((← get).functions.head?.map (·.variadic)).getD false then
        advance
        pure .varargs
      else fail (bytes "cannot use '...' outside a vararg function")
    | .char '\x7b' => constructor n
    | .keyword .kwFunction => do
      advance
      pure (.function (← functionBody n false (← currentLine)))
    | _ => suffixed n
termination_by structural n => n

/-- Read a name or an expression in parentheses, and what is done with it. -/
def suffixed : Nat → Parse Expr
  | 0 => throw .tooDeep
  | n + 1 => do
    match ← current with
    | .name x => do
      advance
      suffixes n (← resolve x)
    | .char '(' => do
      let line ← currentLine
      advance
      let e ← expr n
      close (.char ')') (.char '(') line
      suffixes n (.paren (← settle e))
    | _ => fail (bytes "unexpected symbol")
termination_by structural n => n

/-- Read the fields and calls that follow `e`. -/
def suffixes : Nat → Expr → Parse Expr
  | 0, _ => throw .tooDeep
  | n + 1, e => do
    match ← current with
    | .char '.' => do
      let e ← settle e
      advance
      let x ← name
      suffixes n (.index e (constant x) (← get).last)
    | .char '[' => do
      let e ← settle e
      let key ← bracketed n
      suffixes n (.index e key (← get).last)
    | .char ':' => do
      advance
      let x ← name
      let e ← settle e
      let line ← currentLine
      suffixes n (.method e x (← arguments n) line)
    | .char '(' | .char '\x7b' | .str _ => do
      let e ← settle e
      let line ← currentLine
      suffixes n (.call e (← arguments n) line)
    | _ => pure e
termination_by structural n _ => n

/-- Read a key in square brackets. -/
def bracketed : Nat → Parse Expr
  | 0 => throw .tooDeep
  | n + 1 => do
    advance
    let key ← settle (← expr n)
    require (.char ']')
    pure key
termination_by structural n => n

/-- Read the arguments of a call. -/
def arguments : Nat → Parse (List Expr)
  | 0 => throw .tooDeep
  | n + 1 => do
    match ← current with
    | .str s => do advance; pure [constant s]
    | .char '\x7b' => do pure [← constructor n]
    | .char '(' => do
      let line ← currentLine
      advance
      if ← accept (.char ')') then pure []
      else
        let es ← expressions n
        close (.char ')') (.char '(') line
        settleLast es
    | _ => fail (bytes "function arguments expected")
termination_by structural n => n

/-- Read expressions with commas between them. The last one is not worked out yet. -/
def expressions : Nat → Parse (List Expr)
  | 0 => throw .tooDeep
  | n + 1 => do
    let e ← expr n
    if ← accept (.char ',') then
      let e ← settle e
      pure (e :: (← expressions n))
    else pure [e]
termination_by structural n => n

/-- Read a table constructor. -/
def constructor : Nat → Parse Expr
  | 0 => throw .tooDeep
  | n + 1 => do
    let line ← currentLine
    advance
    let items ← entries n
    close (.char '\x7d') (.char '\x7b') line
    let last := (← get).last
    let settled := match items.reverse with
      | .positional e :: before => (.positional (atLine last e) :: before).reverse
      | _ => items
    pure (.table settled line)
termination_by structural n => n

/-- Read the entries of a table constructor. -/
def entries : Nat → Parse (List Item)
  | 0 => throw .tooDeep
  | n + 1 => do
    if (← current) = .char '\x7d' then pure []
    else
      let item ← entry n
      if (← accept (.char ',')) || (← accept (.char ';')) then
        let last := (← get).last
        let settled := match item with
          | .positional e => .positional (atLine last e)
          | item => item
        pure (settled :: (← entries n))
      else pure [item]
termination_by structural n => n

/-- Read one entry of a table constructor. -/
def entry : Nat → Parse Item
  | 0 => throw .tooDeep
  | n + 1 => do
    let named (key : Expr) : Parse Item := do
      require (.char '=')
      let value ← settle (← expr n)
      pure (.named key value (← get).last)
    match ← current with
    | .name x => do
      if (← ahead) = .char '=' then
        advance
        named (constant x)
      else pure (.positional (← expr n))
    | .char '[' => do named (← bracketed n)
    | _ => pure (.positional (← expr n))
termination_by structural n => n

/-- Read a function after the word and its name. -/
def functionBody : Nat → Bool → Nat → Parse FunctionBody
  | 0, _, _ => throw .tooDeep
  | n + 1, isMethod, line => do
    openFunction (some line) false
    require (.char '(')
    let (xs, variadic) ←
      if (← current) = .char ')' then pure ([], false)
      else parameters n (if isMethod then 1 else 0)
    modify fun s =>
      match s.functions with
      | [] => s
      | g :: gs => { s with functions := { g with variadic } :: gs }
    let names := if isMethod then bytes "self" :: xs else xs
    for x in names do declare x false
    require (.char ')')
    let body ← statements n
    close (.keyword .kwEnd) (.keyword .kwFunction) line
    closeBlock
    pure (.mk names.length variadic body)
termination_by structural n _ _ => n

/-- Read statements up to the end of the block. -/
def statements : Nat → Parse (List Stat)
  | 0 => throw .tooDeep
  | n + 1 => do
    if ← blockEnds true then pure []
    else
      let isReturn := decide ((← current) = .keyword .kwReturn)
      let stats ← statement n
      if isReturn then pure stats
      else pure (stats ++ (← statements n))
termination_by structural n => n

/-- Read a block with a scope of its own. -/
def block : Nat → Parse (List Stat)
  | 0 => throw .tooDeep
  | n + 1 => do
    openBlock false
    let body ← statements n
    closeBlock
    pure body
termination_by structural n => n

/-- Read a statement. An empty one is no statement. -/
def statement : Nat → Parse (List Stat)
  | 0 => throw .tooDeep
  | n + 1 => do
    let line ← currentLine
    enter
    let stats ← match ← current with
      | .char ';' => do advance; pure []
      | .keyword .kwIf => do pure [← conditional n line]
      | .keyword .kwWhile => do
        advance
        let condition ← settle (← expr n)
        openBlock true
        require (.keyword .kwDo)
        let body ← block n
        close (.keyword .kwEnd) (.keyword .kwWhile) line
        closeBlock
        pure [.loop condition body]
      | .keyword .kwDo => do
        advance
        let body ← block n
        close (.keyword .kwEnd) (.keyword .kwDo) line
        pure [.scope body]
      | .keyword .kwFor => do
        openBlock true
        advance
        let x ← name
        let s ← match ← current with
          | .char '=' => numericFor n x
          | .char ',' | .keyword .kwIn => genericFor n x
          | _ => fail (bytes "'=' or 'in' expected")
        close (.keyword .kwEnd) (.keyword .kwFor) line
        closeBlock
        pure [s]
      | .keyword .kwRepeat => do
        openBlock true
        openBlock false
        advance
        let body ← statements n
        close (.keyword .kwUntil) (.keyword .kwRepeat) line
        let condition ← settle (← expr n)
        closeBlock
        closeBlock
        pure [.untilLoop (body ++ [.until condition])]
      | .keyword .kwFunction => do
        advance
        let x ← name
        let (f, isMethod) ← functionName n (← resolve x)
        let body ← functionBody n isMethod line
        checkWritable f
        pure (((target? line f).map fun t => Stat.assign [t] [.function body]).toList)
      | .keyword .kwLocal => do
        advance
        if ← accept (.keyword .kwFunction) then
          let x ← name
          checkRoom 1
          declare x false
          pure [.localFunction (← functionBody n false (← currentLine))]
        else
          let xs ← localNames n 0 false
          let values ←
            if ← accept (.char '=') then settleLast (← expressions n) else pure []
          for x in xs do declare x.1 (x.2 ≠ .regular)
          pure [localStatement xs values (← get).last]
      | .symbol .doubleColon => do
        advance
        let x ← name
        labelStatement n x line
      | .keyword .kwReturn => do
        advance
        let values ←
          if (← blockEnds true) || (← current) = .char ';' then pure []
          else settleLast (← expressions n)
        let _ ← accept (.char ';')
        pure [.ret values]
      | .keyword .kwBreak => do
        advance
        if !(← insideLoop) then openJump (bytes "break") line
        pure [.leave]
      | .keyword .kwGoto => do
        advance
        pure [← jump line]
      | _ => do pure [← expressionStatement n]
    leave
    pure stats
termination_by structural n => n

/-- Read a label after its first colons, and the empty statements and labels behind it. A label
at the end of its block belongs to the scope before the block's variables. -/
def labelStatement : Nat → Bytes → Nat → Parse (List Stat)
  | 0, _, _ => throw .tooDeep
  | n + 1, x, line => do
    require (.symbol .doubleColon)
    let more ← emptyStatements n
    match ← visibleLabel x with
    | some first =>
      failPlain (bytes "label '" ++ x ++ bytes ("' already defined on line " ++ toString first))
    | none => do
      let s ← get
      let base := ((s.functions.head?.bind (·.blocks.head?)).map (·.base)).getD 0
      let scope := if ← blockEnds false then base else s.vars.length
      setLabel x line scope
      pure (.label x scope :: more)
termination_by structural n _ _ => n

/-- Read statements that do nothing. -/
def emptyStatements : Nat → Parse (List Stat)
  | 0 => throw .tooDeep
  | n + 1 => do
    match ← current with
    | .char ';' | .symbol .doubleColon => do
      let stats ← statement n
      pure (stats ++ (← emptyStatements n))
    | _ => pure []
termination_by structural n => n

/-- Read an `if` statement, or what follows an `elseif` in one that began on `line`. -/
def conditional : Nat → Nat → Parse Stat
  | 0, _ => throw .tooDeep
  | n + 1, line => do
    advance
    let condition ← expr n
    require (.keyword .kwThen)
    let condition ← settle condition
    let yes ← block n
    match ← current with
    | .keyword .kwElseif => do
      pure (.choose condition yes [← conditional n line])
    | _ => do
      let no ← if ← accept (.keyword .kwElse) then block n else pure []
      close (.keyword .kwEnd) (.keyword .kwIf) line
      pure (.choose condition yes no)
termination_by structural n _ => n

/-- Read a loop over numbers, after its variable. -/
def numericFor : Nat → Bytes → Parse Stat
  | 0, _ => throw .tooDeep
  | n + 1, x => do
    advance
    let start ← settle (← expr n)
    require (.char ',')
    let limit ← settle (← expr n)
    let step ←
      if ← accept (.char ',') then settle (← expr n) else pure (.literal (.int 1))
    require (.keyword .kwDo)
    let line := (← get).last
    openBlock false
    checkRoom 1
    declare x false
    let body ← block n
    closeBlock
    pure (.count start limit step body line)
termination_by structural n _ => n

/-- Read a loop over what a function yields, after its first variable. -/
def genericFor : Nat → Bytes → Parse Stat
  | 0, _ => throw .tooDeep
  | n + 1, x => do
    let xs := x :: (← moreNames n 1)
    require (.keyword .kwIn)
    let line ← currentLine
    let values ← settleLast (← expressions n)
    require (.keyword .kwDo)
    openBlock false
    for x in xs do declare x false
    let body ← block n
    closeBlock
    pure (.each xs.length values body line)
termination_by structural n _ => n

/-- Read a call or an assignment. -/
def expressionStatement : Nat → Parse Stat
  | 0 => throw .tooDeep
  | n + 1 => do
    let e ← suffixed n
    match ← current with
    | .char '=' | .char ',' => do
      let (targets, values) ← assignment n e
      let line := (← get).last
      pure (.assign (targets.filterMap (target? line)) values)
    | _ =>
      match e with
      | .call .. | .method .. => pure (.call e)
      | _ => fail (bytes "syntax error")
termination_by structural n => n

/-- Read an assignment after its first target. -/
def assignment : Nat → Expr → Parse (List Expr × List Expr)
  | 0, _ => throw .tooDeep
  | n + 1, e => do
    if (target? 0 e).isNone then fail (bytes "syntax error")
    checkWritable e
    if ← accept (.char ',') then
      let next ← suffixed n
      enter
      let (targets, values) ← assignment n next
      leave
      pure (e :: targets, values)
    else
      require (.char '=')
      let values ← settleLast (← expressions n)
      pure ([e], values)
termination_by structural n _ => n

end

/-- Read a whole chunk. -/
def chunkBody (n : Nat) : Parse (List Stat) := do
  openFunction none true
  advance
  let body ← statements n
  if (← current) ≠ .eof then expected Token.showEnd
  closeBlock
  pure body

end Parser

/-- Read the text of a chunk. No more than 40 calls of the parser lie between two tokens. -/
def parse (chunk source : Bytes) : Except CompileError (List Stat) :=
  let tokens := Token.scan chunk source
  let start : Token := ⟨.eof, 1, Token.showEnd⟩
  let state : Parser.State := ⟨chunk, start, tokens, 1, 1, [], [], 0⟩
  (Parser.chunkBody (40 * tokens.length + 100)).run' state

end CardBridge.Script
