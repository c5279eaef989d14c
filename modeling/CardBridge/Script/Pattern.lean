import CardBridge.Script.Value

/-!
# Patterns

The patterns of the script language's string search: characters, classes and sets of them,
repetitions, captures, balanced pairs and frontiers. `Pattern.find?` looks for the first place at
which a pattern matches and answers with what it captured.
-/

namespace CardBridge.Script.Pattern

/-- A capture: where it starts, and its length once it is closed; a position has no length. -/
inductive Capture
  | opened (start : Nat)
  | closed (start length : Nat)
  | position (start : Nat)

/-- A match: what is left of the text, and the captures, last first. -/
abbrev Match := List UInt8 × List Capture

/-- The percent sign, which gives the character behind it a meaning or takes it away. -/
def escape : UInt8 := Bytes.ofAscii '%'

/-- Whether a byte is an ASCII character with a property. -/
def has (f : Char → Bool) (b : UInt8) : Bool :=
  b < 128 && f (Char.ofNat b.toNat)

/-- Whether a byte belongs to the class of a letter; `none` for letters without a class. -/
def classOf (letter : Char) (b : UInt8) : Option Bool :=
  match letter with
  | 'a' => some (has Char.isAlpha b)
  | 'c' => some (b < 32 || b == 127)
  | 'd' => some (has Char.isDigit b)
  | 'g' => some (32 < b && b < 127)
  | 'l' => some (has Char.isLower b)
  | 'p' => some (32 < b && b < 127 && !has Char.isAlphanum b)
  | 's' => some (b == 32 || (9 ≤ b && b ≤ 13))
  | 'u' => some (has Char.isUpper b)
  | 'w' => some (has Char.isAlphanum b)
  | 'x' => some (has (fun c => c.isDigit || ('a' ≤ c.toLower && c.toLower ≤ 'f')) b)
  | _ => none

/-- Whether a byte fits what stands behind a percent sign. -/
def fitsClass (letter b : UInt8) : Bool :=
  let c := Char.ofNat letter.toNat
  match classOf c.toLower b with
  | some r => if has Char.isUpper letter then !r else r
  | none => letter == b

/-- The items of a set after its opening bracket, and what follows the set. -/
inductive SetItem
  | one (b : UInt8)
  | range (low high : UInt8)
  | ofClass (letter : UInt8)

/-- Read a set. A closing bracket at its front belongs to it. -/
def readSet : Nat → Bool → List UInt8 → Except String (List SetItem × List UInt8)
  | 0, _, _ => .error "malformed pattern (missing ']')"
  | fuel + 1, isFirst, p =>
    match p with
    | [] => .error "malformed pattern (missing ']')"
    | c :: rest =>
      if c == Bytes.ofAscii ']' && !isFirst then .ok ([], rest)
      else if c == escape then
        match rest with
        | [] => .error "malformed pattern (missing ']')"
        | d :: rest => do
          let (items, after) ← readSet fuel false rest
          pure (.ofClass d :: items, after)
      else
        match rest with
        | dash :: high :: more =>
          if dash == Bytes.ofAscii '-' && high != Bytes.ofAscii ']' then do
            let (items, after) ← readSet fuel false more
            pure (.range c high :: items, after)
          else do
            let (items, after) ← readSet fuel false rest
            pure (.one c :: items, after)
        | _ => do
          let (items, after) ← readSet fuel false rest
          pure (.one c :: items, after)

/-- Whether a byte fits an item of a set. -/
def SetItem.fits (b : UInt8) : SetItem → Bool
  | one c => b == c
  | range low high => low ≤ b && b ≤ high
  | ofClass letter => fitsClass letter b

/-- What matches one byte. -/
inductive Single
  | any
  | literal (b : UInt8)
  | ofClass (letter : UInt8)
  | set (negated : Bool) (items : List SetItem)

/-- Whether a byte fits. -/
def Single.fits (b : UInt8) : Single → Bool
  | any => true
  | literal c => b == c
  | ofClass letter => fitsClass letter b
  | set negated items => items.any (SetItem.fits b) != negated

/-- Read a set after its opening bracket. -/
def readSingleSet (p : List UInt8) : Except String (Single × List UInt8) :=
  match p with
  | c :: rest =>
    if c == Bytes.ofAscii '^' then
      (readSet (p.length + 1) true rest).map fun (items, after) => (.set true items, after)
    else (readSet (p.length + 1) true p).map fun (items, after) => (.set false items, after)
  | [] => .error "malformed pattern (missing ']')"

/-- Read what matches one byte. -/
def readSingle : List UInt8 → Except String (Single × List UInt8)
  | [] => .ok (.any, [])
  | c :: rest =>
    if c == Bytes.ofAscii '.' then .ok (.any, rest)
    else if c == escape then
      match rest with
      | [] => .error "malformed pattern (ends with '%')"
      | d :: rest => .ok (.ofClass d, rest)
    else if c == Bytes.ofAscii '[' then readSingleSet rest
    else .ok (.literal c, rest)

/-- The text after a balanced pair, given how many openings are still to be closed. -/
def balanced (opening closing : UInt8) : Nat → List UInt8 → Option (List UInt8)
  | _, [] => none
  | depth, b :: rest =>
    if b == closing then if depth = 1 then some rest else balanced opening closing (depth - 1) rest
    else if b == opening then balanced opening closing (depth + 1) rest
    else balanced opening closing depth rest

/-- Close the capture that was opened last. -/
def closeCapture (now : Nat) : List Capture → Option (List Capture)
  | [] => none
  | .opened start :: rest => some (.closed start (now - start) :: rest)
  | c :: rest => (closeCapture now rest).map (c :: ·)

/-- Try the longest repetition first. -/
def longest (attempt : List UInt8 → Except String (Option Match)) (one : Single) :
    List UInt8 → Except String (Option Match)
  | [] => attempt []
  | b :: rest => do
    if one.fits b then
      match ← longest attempt one rest with
      | some r => pure (some r)
      | none => attempt (b :: rest)
    else attempt (b :: rest)

/-- Try the shortest repetition first. -/
def shortest (attempt : List UInt8 → Except String (Option Match)) (one : Single) :
    List UInt8 → Except String (Option Match)
  | [] => attempt []
  | b :: rest => do
    match ← attempt (b :: rest) with
    | some r => pure (some r)
    | none => if one.fits b then shortest attempt one rest else pure none

/-- Match a pattern at the front of `s`, the end of the text `whole`. -/
def matchHere (whole : List UInt8) : Nat → List UInt8 → List UInt8 → List Capture →
    Except String (Option Match)
  | 0, _, _, _ => .error "pattern too complex"
  | fuel + 1, p, s, captures => do
    let now := whole.length - s.length
    let go := matchHere whole fuel
    match p with
    | [] => pure (some (s, captures))
    | c :: rest =>
      if c == Bytes.ofAscii '(' then
        match rest with
        | d :: after =>
          if d == Bytes.ofAscii ')' then go after s (.position now :: captures)
          else go rest s (.opened now :: captures)
        | [] => go rest s (.opened now :: captures)
      else if c == Bytes.ofAscii ')' then
        match closeCapture now captures with
        | some captures => go rest s captures
        | none => .error "invalid pattern capture"
      else if c == Bytes.ofAscii '$' && rest.isEmpty then
        pure (if s.isEmpty then some (s, captures) else none)
      else
        match c == escape, rest with
        | true, d :: after =>
          if d == Bytes.ofAscii 'b' then
            match after, s with
            | opening :: closing :: after, b :: s' =>
              if b == opening then
                match balanced opening closing 1 s' with
                | some s => go after s captures
                | none => pure none
              else pure none
            | _ :: _ :: _, [] => pure none
            | _, _ => .error "malformed pattern (missing arguments to '%b')"
          else if d == Bytes.ofAscii 'f' then
            match after with
            | bracket :: after =>
              if bracket == Bytes.ofAscii '[' then
                let (set, after) ← readSingleSet after
                let before := if now = 0 then 0 else whole[now - 1]?.getD 0
                if !set.fits before && set.fits (s.head?.getD 0) then go after s captures
                else pure none
              else .error "missing '[' after '%f' in pattern"
            | [] => .error "missing '[' after '%f' in pattern"
          else if has Char.isDigit d then
            let index := d.toNat - '0'.toNat
            match index, captures.reverse[index - 1]? with
            | _ + 1, some (.closed start length) =>
              let text := (whole.drop start).take length
              if text.isPrefixOf s then go after (s.drop length) captures else pure none
            | _, _ => .error ("invalid capture index %" ++ toString index)
          else repeated go p s captures
        | _, _ => repeated go p s captures
where
  /-- Match one byte, or as many as the mark behind says. -/
  repeated (go : List UInt8 → List UInt8 → List Capture → Except String (Option Match))
      (p s : List UInt8) (captures : List Capture) : Except String (Option Match) := do
    let (one, rest) ← readSingle p
    let once (after : List UInt8) : Except String (Option Match) :=
      match s with
      | b :: s' => if one.fits b then go after s' captures else pure none
      | [] => pure none
    match rest with
    | mark :: after =>
      if mark == Bytes.ofAscii '?' then
        match ← once after with
        | some r => pure (some r)
        | none => go after s captures
      else if mark == Bytes.ofAscii '*' then longest (fun s => go after s captures) one s
      else if mark == Bytes.ofAscii '+' then
        match s with
        | b :: s' =>
          if one.fits b then longest (fun s => go after s captures) one s' else pure none
        | [] => pure none
      else if mark == Bytes.ofAscii '-' then shortest (fun s => go after s captures) one s
      else once rest
    | [] => once rest

/-- The value of a capture. -/
def Capture.value (whole : List UInt8) : Capture → Except String Value
  | opened _ => .error "unfinished capture"
  | closed start length => .ok (.str ((whole.drop start).take length))
  | position start => .ok (.int (Int64.ofNat (start + 1)))

/-- What a pattern captures at the front of `s`. -/
def captured (whole p s : List UInt8) : Except String (Option (List Value)) := do
  match ← matchHere whole (whole.length + p.length + 200) p s [] with
  | some (rest, []) => pure (some [.str (s.take (s.length - rest.length))])
  | some (_, captures) => pure (some (← captures.reverse.mapM (Capture.value whole)))
  | none => pure none

/-- Match at every place from `s` on, or only at `s`. -/
def findFrom (whole p : List UInt8) (anchored : Bool) :
    List UInt8 → Except String (Option (List Value))
  | [] => captured whole p []
  | b :: s => do
    match ← captured whole p (b :: s) with
    | some vs => pure (some vs)
    | none => if anchored then pure none else findFrom whole p anchored s

/-- What a pattern captures at the first place where it matches, from the byte `start` on,
counting from 0. Without captures that is the whole match. -/
def find? (whole p : List UInt8) (start : Nat) : Except String (Option (List Value)) :=
  let s := whole.drop start
  match p with
  | c :: rest =>
    if c == Bytes.ofAscii '^' then findFrom whole rest true s else findFrom whole p false s
  | [] => findFrom whole p false s

end CardBridge.Script.Pattern
