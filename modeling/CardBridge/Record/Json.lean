import CardBridge.Numeral.Integer

/-!
# JSON texts

`Json.read?` reads a text that is one JSON value with white space around it. Of numbers only
those are told apart that are whole, not negative and written as such, and of strings those that
stand for a text; anything else of either sort is well formed but has no value here.
-/

namespace CardBridge.Record

/-- A JSON value. The members of an object are in order, and a name may occur twice. -/
inductive Json
  | null
  | bool (b : Bool)
  | number (n : Option Nat)
  | string (s : Option String)
  | array (items : List Json)
  | object (members : List (String × Json))

namespace Json

/-- The white space between the parts of a JSON text. -/
def isSpace (c : Char) : Bool :=
  c == ' ' || c == '\n' || c == '\t' || c == '\r'

/-- Skip white space. -/
def skip (cs : List Char) : List Char :=
  cs.dropWhile isSpace

/-- The character that a letter after a backslash stands for. -/
def escape? : Char → Option Char
  | '"' => some '"'
  | '\\' => some '\\'
  | '/' => some '/'
  | 'b' => some '\x08'
  | 'f' => some '\x0c'
  | 'n' => some '\n'
  | 'r' => some '\r'
  | 't' => some '\t'
  | _ => none

/-- Read the rest of a string, as UTF-16 units where escapes give them. `none` is no string. -/
def stringUnits? : List Char → Option (List (Char ⊕ Nat) × List Char)
  | [] => none
  | '"' :: rest => some ([], rest)
  | '\\' :: 'u' :: a :: b :: c :: d :: rest => do
    let n ← Digits.hexadecimal? [a, b, c, d]
    let (cs, after) ← stringUnits? rest
    pure (.inr n :: cs, after)
  | '\\' :: e :: rest => do
    let c ← escape? e
    let (cs, after) ← stringUnits? rest
    pure (.inl c :: cs, after)
  | c :: rest =>
    if c.toNat < 0x20 then none
    else do
      let (cs, after) ← stringUnits? rest
      pure (.inl c :: cs, after)

/-- Join pairs of units into characters; `none` if one stands alone. -/
def joinUnits? : List (Char ⊕ Nat) → Option (List Char)
  | [] => some []
  | .inl c :: rest => (joinUnits? rest).map (c :: ·)
  | .inr n :: rest =>
    if n < 0xD800 ∨ 0xE000 ≤ n then (joinUnits? rest).map (Char.ofNat n :: ·)
    else
      match rest with
      | .inr m :: rest =>
        if n < 0xDC00 ∧ 0xDC00 ≤ m ∧ m < 0xE000 then
          let code := 0x10000 + (n - 0xD800) * 0x400 + (m - 0xDC00)
          (joinUnits? rest).map (Char.ofNat code :: ·)
        else none
      | _ => none

/-- Read a string after its opening quotation mark. -/
def string? (cs : List Char) : Option (Option String × List Char) :=
  (stringUnits? cs).map fun (units, rest) => ((joinUnits? units).map String.ofList, rest)

/-- Read a whole number without zeros in front. -/
def whole? (cs : List Char) : Option (Nat × List Char) :=
  match cs.takeWhile Digits.isDecimal, cs.dropWhile Digits.isDecimal with
  | [], _ => none
  | '0' :: _ :: _, _ => none
  | ds, rest => some (Digits.decimalValue ds, rest)

/-- Read the fraction of a number, if there is one; whether there is. -/
def fraction? : List Char → Option (Bool × List Char)
  | '.' :: cs =>
    if (cs.takeWhile Digits.isDecimal).isEmpty then none
    else some (true, cs.dropWhile Digits.isDecimal)
  | cs => some (false, cs)

/-- Read the exponent of a number, if there is one; whether there is. -/
def exponent? : List Char → Option (Bool × List Char)
  | c :: cs =>
    if c == 'e' || c == 'E' then
      let digits := match cs with
        | '+' :: rest | '-' :: rest => rest
        | cs => cs
      if (digits.takeWhile Digits.isDecimal).isEmpty then none
      else some (true, digits.dropWhile Digits.isDecimal)
    else some (false, c :: cs)
  | [] => some (false, [])

/-- Read a number. -/
def number? (cs : List Char) : Option (Option Nat × List Char) := do
  let (negative, cs) := match cs with
    | '-' :: rest => (true, rest)
    | cs => (false, cs)
  let (n, cs) ← whole? cs
  let (hasFraction, cs) ← fraction? cs
  let (hasExponent, cs) ← exponent? cs
  pure (if negative || hasFraction || hasExponent then none else some n, cs)

mutual

/-- Read a value, with white space before it. -/
def value? : Nat → List Char → Option (Json × List Char)
  | 0, _ => none
  | fuel + 1, cs =>
    match skip cs with
    | 'n' :: 'u' :: 'l' :: 'l' :: rest => some (null, rest)
    | 't' :: 'r' :: 'u' :: 'e' :: rest => some (bool true, rest)
    | 'f' :: 'a' :: 'l' :: 's' :: 'e' :: rest => some (bool false, rest)
    | '"' :: rest => (string? rest).map fun (s, rest) => (string s, rest)
    | '[' :: rest =>
      match skip rest with
      | ']' :: rest => some (array [], rest)
      | rest => (items? fuel rest).map fun (items, rest) => (array items, rest)
    | '\x7b' :: rest =>
      match skip rest with
      | '\x7d' :: rest => some (object [], rest)
      | rest => (members? fuel rest).map fun (members, rest) => (object members, rest)
    | cs => (number? cs).map fun (n, rest) => (number n, rest)

/-- Read the items of an array, at least one, up to its end. -/
def items? : Nat → List Char → Option (List Json × List Char)
  | 0, _ => none
  | fuel + 1, cs => do
    let (v, rest) ← value? fuel cs
    match skip rest with
    | ',' :: rest => (items? fuel rest).map fun (vs, rest) => (v :: vs, rest)
    | ']' :: rest => some ([v], rest)
    | _ => none

/-- Read the members of an object, at least one, up to its end. -/
def members? : Nat → List Char → Option (List (String × Json) × List Char)
  | 0, _ => none
  | fuel + 1, cs =>
    match skip cs with
    | '"' :: rest => do
      let (name, rest) ← string? rest
      let name ← name
      match skip rest with
      | ':' :: rest => do
        let (v, rest) ← value? fuel rest
        match skip rest with
        | ',' :: rest => (members? fuel rest).map fun (ms, rest) => ((name, v) :: ms, rest)
        | '\x7d' :: rest => some ([(name, v)], rest)
        | _ => none
      | _ => none
    | _ => none

end

/-- Read a text that is one value. Every call but the first comes after a character. -/
def read? (text : String) : Option Json :=
  match value? (2 * text.length + 2) text.toList with
  | some (v, rest) => if (skip rest).isEmpty then some v else none
  | none => none

/-! ## Writing -/

/-- A hexadecimal digit. -/
def hexDigit (n : Nat) : Char :=
  if n < 10 then Char.ofNat (48 + n) else Char.ofNat (87 + n)

/-- A character as it stands in a string. -/
def writeChar : Char → List Char
  | '"' => ['\\', '"']
  | '\\' => ['\\', '\\']
  | '\x08' => ['\\', 'b']
  | '\x0c' => ['\\', 'f']
  | '\n' => ['\\', 'n']
  | '\r' => ['\\', 'r']
  | '\t' => ['\\', 't']
  | c =>
    if c.toNat < 0x20 then
      ['\\', 'u', '0', '0', hexDigit (c.toNat / 16), hexDigit (c.toNat % 16)]
    else [c]

/-- A text as a string. -/
def writeString (s : String) : String :=
  String.ofList ('"' :: (s.toList.flatMap writeChar ++ ['"']))

/-- An array of written values. -/
def writeArray (items : List String) : String :=
  "[" ++ String.intercalate "," items ++ "]"

/-- An object of written values. -/
def writeObject (members : List (String × String)) : String :=
  "\x7b" ++ String.intercalate "," (members.map fun p => writeString p.1 ++ ":" ++ p.2) ++ "\x7d"

end Json

end CardBridge.Record
