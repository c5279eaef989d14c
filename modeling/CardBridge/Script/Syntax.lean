import CardBridge.Script.Value

/-!
# Script programs

The syntax tree of a chunk. Names are resolved already: a variable is a position in the list of
the variables in scope, innermost first, or the name of a global. The name stays with it, since
error messages mention it. `line` is the line an error at that place is reported for.
-/

namespace CardBridge.Script

/-- Operators of two operands, but for `and` and `or`, which do not always evaluate both. -/
inductive BinOp
  | arith (op : Arith)
  | concat
  | eq | ne | lt | le | gt | ge
  deriving DecidableEq, Repr

/-- Operators of one operand. -/
inductive UnOp
  | neg | bnot | not | len
  deriving DecidableEq, Repr

mutual

/-- Expressions. -/
inductive Expr
  | literal (v : Value)
  | varargs
  /-- A local variable of the function it stands in. -/
  | localVar (index : Nat) (name : Bytes)
  /-- A local variable of an enclosing function. -/
  | upvalue (index : Nat) (name : Bytes)
  | global (name : Bytes) (line : Nat)
  | index (object key : Expr) (line : Nat)
  | call (f : Expr) (args : List Expr) (line : Nat)
  | method (object : Expr) (name : Bytes) (args : List Expr) (line : Nat)
  | function (f : FunctionBody)
  | binary (op : BinOp) (a b : Expr) (line : Nat)
  | unary (op : UnOp) (a : Expr) (line : Nat)
  | both (a b : Expr)
  | either (a b : Expr)
  | table (items : List Item) (line : Nat)
  /-- Parentheses keep one value of a call, and what they hold cannot be assigned to. -/
  | paren (e : Expr)

/-- One entry of a table constructor. -/
inductive Item
  | positional (e : Expr)
  | named (key value : Expr) (line : Nat)

/-- A function: how many parameters it names, whether it takes more, and what it does. -/
inductive FunctionBody
  | mk (params : Nat) (variadic : Bool) (body : List Stat)

/-- Statements. -/
inductive Stat
  | call (e : Expr)
  | locals (count : Nat) (values : List Expr)
  /-- A variable whose value is closed when its scope ends. -/
  | closing (name : Bytes) (before : Nat) (after : Nat) (values : List Expr) (line : Nat)
  | localFunction (f : FunctionBody)
  | assign (targets : List Target) (values : List Expr)
  | scope (body : List Stat)
  | loop (condition : Expr) (body : List Stat)
  /-- The body ends with an `until`. -/
  | untilLoop (body : List Stat)
  | until (condition : Expr)
  | choose (condition : Expr) (yes no : List Stat)
  | count (start limit step : Expr) (body : List Stat) (line : Nat)
  | each (names : Nat) (values : List Expr) (body : List Stat) (line : Nat)
  | ret (values : List Expr)
  | leave
  | jump (label : Bytes)
  /-- A label, with the number of variables in scope at it. -/
  | label (name : Bytes) (scope : Nat)

/-- What can be assigned to. -/
inductive Target
  | variable (index : Nat)
  | global (name : Bytes) (line : Nat)
  | index (object key : Expr) (line : Nat)

end

instance : Inhabited Expr := ⟨.varargs⟩
instance : Inhabited Stat := ⟨.leave⟩
instance : Inhabited FunctionBody := ⟨.mk 0 false []⟩

/-- What kind of thing a name in an error message or a stack trace belongs to. -/
inductive NameKind
  | global | localVar | upvalue | field | method | constant | metamethod | forIterator
  deriving DecidableEq, Repr

/-- The words for a kind of name. -/
def NameKind.text : NameKind → String
  | global => "global"
  | localVar => "local"
  | upvalue => "upvalue"
  | field => "field"
  | method => "method"
  | constant => "constant"
  | metamethod => "metamethod"
  | forIterator => "for iterator"

/-- The name a value is known by at the place where it is used. -/
structure Described where
  kind : NameKind
  name : Bytes
  deriving DecidableEq

/-- The name of the value an expression yields, if it has one. A field with a computed key is
known as `?`, an element with a small constant index by what it is. -/
def Expr.described : Expr → Option Described
  | localVar _ name => some ⟨.localVar, name⟩
  | upvalue _ name => some ⟨.upvalue, name⟩
  | global name _ => some ⟨.global, name⟩
  | index _ (literal (.str s)) _ => some ⟨.field, s⟩
  | index _ (literal (.int n)) _ =>
    if 0 ≤ n ∧ n ≤ 255 then some ⟨.field, bytes "integer index"⟩ else some ⟨.field, bytes "?"⟩
  | index _ _ _ => some ⟨.field, bytes "?"⟩
  | literal (.str s) => some ⟨.constant, s⟩
  | paren e => e.described
  | _ => none

end CardBridge.Script
