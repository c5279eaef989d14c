import CardBridge.Numeral.Rounded
import CardBridge.Session.Code

/-!
# What scripts can ask of the host

The members of a game object are found in the class of its script and then in that of its kind.
An object that is deleted takes part in everything without effect: its members are functions that
answer `false` or `0`, assignments to it are dropped, its length is 0, and it joins texts as
nothing. With `Debug` scripts can send messages and show the calls in progress.
-/

namespace CardBridge

open Script (Value Native)

/-- The beginnings of names that ask for a truth value. -/
def predicateBeginnings : List String :=
  ["Is", "Has", "Can", "Check"]

/-- Whether a name asks for a truth value. -/
def isPredicateName (name : String) : Bool :=
  predicateBeginnings.any fun b => b.toList.isPrefixOf name.toList

/-- The function that a member of a deleted object is. -/
def inertMember (key : Value) : Value :=
  match key with
  | .str name => .native (if isPredicateName (Utf8.lossy name) then .inertFalse else .inertZero)
  | _ => .native .inertZero

/-- The text of a float where texts are joined with an object: the fewest digits that read back,
without an exponent. -/
def joinedFloat (x : Float) : String :=
  match Binary64.decode x with
  | .nan => "NaN"
  | .infinite negative => if negative then "-inf" else "inf"
  | .finite negative m e =>
    let digits :=
      match (Binary64.finite false m e).exactInt? with
      | some n => toString n ++ ".0"
      | none => Rounded.positional (Rounded.shortest m e)
    if negative then "-" ++ digits else digits

/-- What a value adds to a text that it is joined to, or why it cannot be. -/
def joinedText (s : State) : Value → Except String String
  | .object n =>
    if (s.object n).deleted then .ok "" else .error "attempt to concatenate a ScriptObject value"
  | .str t => .ok (Utf8.lossy t)
  | .int n => .ok (toString n.toInt)
  | .num x => .ok (joinedFloat x)
  | .nan _ => .ok "NaN"
  | .failure _ => .error "attempt to concatenate a ScriptObject value"
  | v => .error ("attempt to concatenate a " ++ v.hostTypeName ++ " value")

namespace Code

/-- Look a member up in a class or, without one, in that of a kind. -/
def lookupMember (kind : ObjectKind) (cls : Option String) (key : Value) : Code :=
  if kind = .deleted then values [inertMember key]
  else
    read fun s =>
      let find (t : Nat) : Code :=
        attempt (.index (.table t) key) values fun text => finish (.raised text)
      match cls.map s.global, s.global kind.className with
      | some (.table t), _ => find t
      | _, .table t => find t
      | _, _ => values [.nil]

/-- Ask a game object for something; a deleted one answers with `inert`. -/
def askObject (v : Value) (inert : List Value) (live : GameObject → Code) : Code :=
  read fun s =>
    match v with
    | .object n => if (s.object n).deleted then values inert else live (s.object n)
    | _ => raise "bad argument"

/-- Join two values of which one is a game object. -/
def join (a b : Value) : Code :=
  read fun s =>
    match (do pure ((← joinedText s a) ++ (← joinedText s b)) : Except String String) with
    | .ok t => values [.text t]
    | .error message => raise message

/-- Have each value put into words by a function, and go on with the words. -/
def textsOf (f : Value) : List Value → (List String → Code) → Code
  | [], k => k []
  | v :: vs, k =>
    attempt (.call f [v])
      (fun rs =>
        let text := match Script.first rs with
          | .str t => Utf8.lossy t
          | _ => ""
        textsOf f vs fun ts => k (text :: ts))
      fun text => finish (.raised text)

/-- Send a message that a script has put together from values. -/
def sendMessage (args : List Value) : Code :=
  attempt (.index (.table Script.globalTable) (.text "tostring"))
    (fun found =>
      let f := Script.first found
      if f.isFunction then
        textsOf f args fun ts => write (.emit .fromScript (String.intercalate " " ts)) (values [])
      else finish (.raised ("error converting Lua " ++ f.hostTypeName ++ " to function")))
    fun text => finish (.raised text)

/-- A call in progress in words. -/
def traceText (l : TraceLine) : String :=
  let place := match l.place with
    | some p => Utf8.lossy p.chunk ++ ":" ++ toString p.line
    | none => "[C]:-1"
  match l.name with
  | some name => "\n\t" ++ place ++ ": in function '" ++ Utf8.lossy name ++ "'"
  | none => "\n\t" ++ place ++ ": in ?"

/-- Send a message that shows the calls in progress, if there are any. -/
def printTrace : Code :=
  trace fun ls =>
    if ls.isEmpty then answer (.count 0)
    else
      write (.emit .forDebug ("stack traceback:" ++ String.join (ls.map traceText)))
        (answer (.count ls.length))

/-- What the functions that the library lends to scripts do; `host` are the host's own ones. -/
def native (host : Nat → List Value → Code) (n : Native) (args : List Value) : Code :=
  let self := Script.first args
  let second := Script.first (args.drop 1)
  match n with
  | .member => askObject self [inertMember second] fun g => lookupMember g.kind g.cls second
  | .assign => askObject self [] fun g => raise ("cannot assign fields of " ++ g.object.text)
  | .length =>
    askObject self [.int 0] fun g => raise ("attempt to get length of " ++ g.object.text)
  | .join => join self second
  | .render =>
    read fun s =>
      match self with
      | .object n => values [.text (s.object n).text]
      | _ => raise "bad argument"
  | .inertFalse => values [.bool false]
  | .inertZero => values [.int 0]
  | .message => sendMessage args
  | .stackTrace => printTrace.andThen fun _ => values []
  | .host n => host n args

end Code

end CardBridge
