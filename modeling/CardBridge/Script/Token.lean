import CardBridge.Script.ChunkName
import CardBridge.Script.Numeral

/-!
# Tokens

`Token.scan` cuts the text of a chunk into tokens. A token carries the line the reader stands on
after it and the text by which an error message refers to it. Where the text is no token the
list ends with the error, which counts only if the parser gets that far.
-/

namespace CardBridge.Script

/-- Reserved words. -/
inductive Keyword
  | kwAnd | kwBreak | kwDo | kwElse | kwElseif | kwEnd | kwFalse | kwFor | kwFunction | kwGoto
  | kwIf | kwIn | kwLocal | kwNil | kwNot | kwOr | kwRepeat | kwReturn | kwThen | kwTrue
  | kwUntil | kwWhile
  deriving DecidableEq, Repr

/-- Operators and separators of more than one character. -/
inductive Symbol
  | idiv | concat | dots | eq | ge | le | ne | shl | shr | doubleColon
  deriving DecidableEq, Repr

/-- What a token is. Any character that begins nothing else is a token by itself. -/
inductive TokenKind
  | keyword (k : Keyword)
  | symbol (s : Symbol)
  | char (c : Char)
  | name (s : Bytes)
  | str (s : Bytes)
  | int (n : Int64)
  | num (x : Float)
  | eof
  deriving DecidableEq

/-- The spelling of each reserved word. -/
def Keyword.text : Keyword → String
  | kwAnd => "and" | kwBreak => "break" | kwDo => "do" | kwElse => "else"
  | kwElseif => "elseif" | kwEnd => "end" | kwFalse => "false" | kwFor => "for"
  | kwFunction => "function" | kwGoto => "goto" | kwIf => "if" | kwIn => "in"
  | kwLocal => "local" | kwNil => "nil" | kwNot => "not" | kwOr => "or"
  | kwRepeat => "repeat" | kwReturn => "return" | kwThen => "then" | kwTrue => "true"
  | kwUntil => "until" | kwWhile => "while"

/-- The spelling of each operator. -/
def Symbol.text : Symbol → String
  | idiv => "//" | concat => ".." | dots => "..." | eq => "==" | ge => ">=" | le => "<="
  | ne => "~=" | shl => "<<" | shr => ">>" | doubleColon => "::"

/-- All reserved words. -/
def keywords : List Keyword :=
  [.kwAnd, .kwBreak, .kwDo, .kwElse, .kwElseif, .kwEnd, .kwFalse, .kwFor, .kwFunction, .kwGoto,
    .kwIf, .kwIn, .kwLocal, .kwNil, .kwNot, .kwOr, .kwRepeat, .kwReturn, .kwThen, .kwTrue,
    .kwUntil, .kwWhile]

/-- Reserved words with their letters. -/
def spelledKeywords : List (List Char × Keyword) :=
  keywords.map fun k => (k.text.toList, k)

/-- A token where it stands. -/
structure Token where
  kind : TokenKind
  line : Nat
  /-- The text a message refers to it by. -/
  shown : Bytes

/-- Why a chunk does not compile: a message that names its place already, or a limit of the
compiler that is not a matter of the text. -/
inductive CompileError
  | malformed (message : Bytes)
  | tooDeep
  deriving DecidableEq

namespace Token

/-- Quotation marks around a text in a message. -/
def quote (s : Bytes) : Bytes :=
  bytes "'" ++ s ++ bytes "'"

/-- How a message refers to a single character: by number if it is not printable. -/
def showChar (c : Char) : Bytes :=
  if ' ' ≤ c ∧ c ≤ '~' then quote [Bytes.ofAscii c]
  else bytes ("'<\\" ++ toString c.toNat ++ ">'")

/-- How a message refers to the end of the chunk. -/
def showEnd : Bytes :=
  bytes "<eof>"

/-- The bytes that a list of byte-valued characters stands for. -/
def raw (cs : List Char) : Bytes :=
  cs.map Bytes.ofAscii

/-- A message about text that is no token, and what it is near to. -/
def scanError (chunk : Bytes) (line : Nat) (message : String) (near : Bytes) : CompileError :=
  .malformed (Position.mark ⟨chunk, line⟩ ++ bytes message ++ bytes " near " ++ near)

/-- What one step of the scanner finds: a token with the rest of the text, white space, or text
that is no token. -/
inductive Scanned
  | token (t : Token) (rest : List Char)
  | blank (line : Nat) (rest : List Char)
  | bad (e : CompileError)

/-- Whether a character can begin a name. -/
def isNameStart (c : Char) : Bool :=
  ('a' ≤ c && c ≤ 'z') || ('A' ≤ c && c ≤ 'Z') || c == '_'

/-- Whether a character can stand inside a name. -/
def isNamePart (c : Char) : Bool :=
  isNameStart c || Digits.isDecimal c

/-- Whether a character ends a line. -/
def isNewline (c : Char) : Bool :=
  c == '\n' || c == '\r'

/-- Skip the second half of a line end that is written with two characters. -/
def skipPair (c : Char) : List Char → List Char
  | d :: cs => if isNewline d && d != c then cs else d :: cs
  | [] => []

/-- Read a name or a reserved word. -/
def scanName (line : Nat) (cs : List Char) : Scanned :=
  let word := cs.takeWhile isNamePart
  let rest := cs.dropWhile isNamePart
  match spelledKeywords.find? fun p => p.1 == word with
  | some (_, k) => .token ⟨.keyword k, line, quote (raw word)⟩ rest
  | none => .token ⟨.name (raw word), line, quote (raw word)⟩ rest

/-- Take the characters of a numeral: digits, points and, after an exponent mark, a sign. -/
def takeNumeral (isMark : Char → Bool) : List Char → List Char × List Char
  | c :: d :: cs =>
    if isMark c then
      if d == '-' || d == '+' then
        let (taken, rest) := takeNumeral isMark cs
        (c :: d :: taken, rest)
      else
        let (taken, rest) := takeNumeral isMark (d :: cs)
        (c :: taken, rest)
    else if Digits.isHexadecimal c || c == '.' then
      let (taken, rest) := takeNumeral isMark (d :: cs)
      (c :: taken, rest)
    else ([], c :: d :: cs)
  | [c] => if isMark c || Digits.isHexadecimal c || c == '.' then ([c], []) else ([], [c])
  | [] => ([], [])

/-- Read a numeral. A letter right behind it spoils it. -/
def scanNumeral (chunk : Bytes) (line : Nat) (cs : List Char) : Scanned :=
  let (taken, rest) :=
    match cs with
    | '0' :: 'x' :: tail =>
      let (taken, rest) := takeNumeral (fun c => c == 'p' || c == 'P') tail
      ('0' :: 'x' :: taken, rest)
    | '0' :: 'X' :: tail =>
      let (taken, rest) := takeNumeral (fun c => c == 'p' || c == 'P') tail
      ('0' :: 'X' :: taken, rest)
    | cs => takeNumeral (fun c => c == 'e' || c == 'E') cs
  let (taken, rest) :=
    match rest with
    | c :: tail => if isNameStart c then (taken ++ [c], tail) else (taken, rest)
    | [] => (taken, rest)
  match Numeral.read? (raw taken) with
  | some (.int n) => .token ⟨.int n, line, quote (raw taken)⟩ rest
  | some (.num x) => .token ⟨.num x, line, quote (raw taken)⟩ rest
  | _ => .bad (scanError chunk line "malformed number" (quote (raw taken)))

/-- The level of a long bracket and what follows it, after its first square bracket. -/
def longBracket? (mark : Char) : List Char → Option (Nat × List Char)
  | '=' :: cs => (longBracket? mark cs).map fun (n, rest) => (n + 1, rest)
  | c :: cs => if c == mark then some (0, cs) else none
  | [] => none

/-- The text up to the closing bracket of a level, read backwards into `acc`, and the line after
it; `none` if it is never closed, with the last line. -/
def longText (level : Nat) : List Char → List Char → Nat → Nat ⊕ (List Char × List Char × Nat)
  | [], _, line => .inl line
  | c :: cs, acc, line =>
    if c == ']' then
      match longBracket? ']' cs with
      | some (n, rest) =>
        if n = level then .inr (acc.reverse, rest, line) else longText level cs (c :: acc) line
      | none => longText level cs (c :: acc) line
    else if isNewline c then
      match cs with
      | d :: tail =>
        if isNewline d && d != c then longText level tail ('\n' :: acc) (line + 1)
        else longText level (d :: tail) ('\n' :: acc) (line + 1)
      | [] => .inl (line + 1)
    else longText level cs (c :: acc) line

/-- Read a long string or comment whose opening bracket has been read. -/
def scanLong (chunk : Bytes) (line level : Nat) (comment : Bool) (cs : List Char) : Scanned :=
  let (start, startLine) :=
    match cs with
    | c :: tail => if isNewline c then (skipPair c tail, line + 1) else (cs, line)
    | [] => (cs, line)
  match longText level start [] startLine with
  | .inl last =>
    let what := if comment then "comment" else "string"
    .bad (scanError chunk last
      ("unfinished long " ++ what ++ " (starting at line " ++ toString line ++ ")") showEnd)
  | .inr (content, rest, last) =>
    if comment then .blank last rest
    else
      let bar := List.replicate level '='
      .token ⟨.str (raw content), last,
        quote (raw ('[' :: bar ++ '[' :: content ++ ']' :: bar ++ [']']))⟩ rest

/-- The UTF-8 bytes of a code of up to 31 bits, backwards, in the long form that older rules
allow. -/
def codeBytes (code : Nat) : List Char :=
  if code < 0x80 then [Char.ofNat code]
  else
    let rec more : Nat → Nat → Nat → List Char
      | 0, _, _ => []
      | fuel + 1, x, room =>
        if x ≤ room then [Char.ofNat ((255 - room * 2 - 1) % 256 + x)]
        else Char.ofNat (0x80 + x % 64) :: more fuel (x / 64) (room / 2)
    more 6 code 63

/-- What an escape sequence stands for. -/
inductive Escape
  /-- Characters, with the rest of the text and how many lines were passed. -/
  | chars (cs : List Char) (rest : List Char) (lines : Nat)
  /-- No escape sequence: the message and the text it is near to, after the backslash. -/
  | bad (message : String) (near : List Char)

/-- Add the character at which an escape sequence went wrong. -/
def withNext (seen : List Char) : List Char → List Char
  | c :: _ => seen ++ [c]
  | [] => seen

/-- An escape with one letter for one character. -/
def letterEscape? : Char → Option Char
  | 'a' => some '\x07'
  | 'b' => some '\x08'
  | 'f' => some '\x0c'
  | 'n' => some '\n'
  | 'r' => some '\r'
  | 't' => some '\t'
  | 'v' => some '\x0b'
  | '\\' => some '\\'
  | '"' => some '"'
  | '\'' => some '\''
  | _ => none

/-- Two hexadecimal digits. -/
def hexEscape : List Char → Escape
  | a :: b :: rest =>
    match Digits.hexadecimalValue? a, Digits.hexadecimalValue? b with
    | some x, some y => .chars [Char.ofNat (x * 16 + y)] rest 0
    | some _, none => .bad "hexadecimal digit expected" ['x', a, b]
    | none, _ => .bad "hexadecimal digit expected" ['x', a]
  | cs => match cs with
    | [a] =>
      if Digits.isHexadecimal a then .bad "hexadecimal digit expected" ['x', a]
      else .bad "hexadecimal digit expected" ['x', a]
    | _ => .bad "hexadecimal digit expected" ['x']

/-- The digits of a code in braces, up to 31 bits. -/
def codeEscape : List Char → Escape
  | '\x7b' :: cs =>
    let digits := cs.takeWhile Digits.isHexadecimal
    let rest := cs.dropWhile Digits.isHexadecimal
    if digits.isEmpty then .bad "hexadecimal digit expected" (withNext ['u', '\x7b'] rest)
    else
      let code := (Digits.hexadecimal? digits).getD 0
      if Nat.pow 2 31 ≤ code then
        .bad "UTF-8 value too large" (withNext ('u' :: '\x7b' :: digits) rest)
      else
        match rest with
        | '\x7d' :: tail => .chars (codeBytes code).reverse tail 0
        | _ => .bad "missing '\x7d'" (withNext ('u' :: '\x7b' :: digits) rest)
  | cs => .bad "missing '\x7b'" (withNext ['u'] cs)

/-- Up to three decimal digits. -/
def decimalEscape (cs : List Char) : Escape :=
  let digits := (cs.take 3).takeWhile Digits.isDecimal
  let rest := cs.drop digits.length
  let code := Digits.decimalValue digits
  if code ≤ 255 then .chars [Char.ofNat code] rest 0
  else .bad "decimal escape too large" (withNext digits rest)

/-- Skip white space, counting the lines. -/
def skipSpace : List Char → Nat → List Char × Nat
  | c :: cs, lines =>
    if isNewline c then
      match cs with
      | d :: tail =>
        if isNewline d && d != c then skipSpace tail (lines + 1)
        else skipSpace (d :: tail) (lines + 1)
      | [] => ([], lines + 1)
    else if Numeral.isSpace c then skipSpace cs lines
    else (c :: cs, lines)
  | [], lines => ([], lines)

/-- Read what follows a backslash. -/
def scanEscape : List Char → Escape
  | [] => .chars [] [] 0
  | 'x' :: cs => hexEscape cs
  | 'u' :: cs => codeEscape cs
  | 'z' :: cs =>
    let (rest, lines) := skipSpace cs 0
    .chars [] rest lines
  | c :: cs =>
    if isNewline c then .chars ['\n'] (skipPair c cs) 1
    else
      match letterEscape? c with
      | some d => .chars [d] cs 0
      | none => if Digits.isDecimal c then decimalEscape (c :: cs)
        else .bad "invalid escape sequence" [c]

/-- Read the rest of a string that began with `mark`; `acc` holds what was read, backwards. -/
def scanString (chunk : Bytes) (mark : Char) : Nat → Nat → List Char → List Char → Scanned
  | 0, line, _, _ => .bad (scanError chunk line "unfinished string" showEnd)
  | _ + 1, line, [], _ => .bad (scanError chunk line "unfinished string" showEnd)
  | fuel + 1, line, c :: cs, acc =>
    let seen := mark :: acc.reverse
    if c == mark then
      .token ⟨.str (raw acc.reverse), line, quote (raw (seen ++ [mark]))⟩ cs
    else if isNewline c then .bad (scanError chunk line "unfinished string" (quote (raw seen)))
    else if c == '\\' then
      match scanEscape cs with
      | .chars ds rest lines => scanString chunk mark fuel (line + lines) rest (ds.reverse ++ acc)
      | .bad message near =>
        .bad (scanError chunk line message (quote (raw (seen ++ '\\' :: near))))
    else scanString chunk mark fuel line cs (c :: acc)

/-- Read one token, or skip white space and comments. -/
def scanOne (chunk : Bytes) (line : Nat) : List Char → Scanned
  | [] => .token ⟨.eof, line, showEnd⟩ []
  | '-' :: '-' :: '[' :: cs =>
    match longBracket? '[' cs with
    | some (level, rest) => scanLong chunk line level true rest
    | none => .blank line (('[' :: cs).dropWhile fun c => !isNewline c)
  | '-' :: '-' :: cs => .blank line (cs.dropWhile fun c => !isNewline c)
  | '[' :: cs =>
    match longBracket? '[' cs with
    | some (level, rest) => scanLong chunk line level false rest
    | none =>
      match cs with
      | '=' :: tail =>
        .bad (scanError chunk line "invalid long string delimiter"
          (quote (raw ('[' :: '=' :: tail.takeWhile (· == '=')))))
      | _ => .token ⟨.char '[', line, showChar '['⟩ cs
  | '.' :: '.' :: '.' :: cs => symbol .dots cs
  | '.' :: '.' :: cs => symbol .concat cs
  | '=' :: '=' :: cs => symbol .eq cs
  | '<' :: '=' :: cs => symbol .le cs
  | '<' :: '<' :: cs => symbol .shl cs
  | '>' :: '=' :: cs => symbol .ge cs
  | '>' :: '>' :: cs => symbol .shr cs
  | '~' :: '=' :: cs => symbol .ne cs
  | '/' :: '/' :: cs => symbol .idiv cs
  | ':' :: ':' :: cs => symbol .doubleColon cs
  | c :: cs =>
    if isNewline c then .blank (line + 1) (skipPair c cs)
    else if Numeral.isSpace c then .blank line cs
    else if c == '"' || c == '\'' then scanString chunk c (cs.length + 1) line cs []
    else if Digits.isDecimal c || (c == '.' && (cs.head?.map Digits.isDecimal).getD false) then
      scanNumeral chunk line (c :: cs)
    else if isNameStart c then scanName line (c :: cs)
    else .token ⟨.char c, line, showChar c⟩ cs
where
  /-- A token of several characters. -/
  symbol (s : Symbol) (rest : List Char) : Scanned :=
    .token ⟨.symbol s, line, quote (bytes s.text)⟩ rest

/-- Cut the text after a line into tokens. Every step but the last takes a character, so the
number of characters and one is fuel enough. -/
def scanFrom (chunk : Bytes) : Nat → Nat → List Char → List (Except CompileError Token)
  | 0, line, _ => [.ok ⟨.eof, line, showEnd⟩]
  | fuel + 1, line, cs =>
    match scanOne chunk line cs with
    | .bad e => [.error e]
    | .blank next rest => scanFrom chunk fuel next rest
    | .token t rest =>
      if t.kind = .eof then [.ok t] else .ok t :: scanFrom chunk fuel t.line rest

/-- The tokens of a chunk, up to its end or to the first text that is no token. -/
def scan (chunk : Bytes) (source : Bytes) : List (Except CompileError Token) :=
  scanFrom chunk (source.length + 1) 1 source.toChars

end Token

end CardBridge.Script
