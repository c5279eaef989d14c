import CardBridge.Failure
import CardBridge.Text.Blank

/-!
# Messages

Messages go to the host with a kind. A failure is reported by a message of bounded length, put
together piece by piece in a `MessageBuffer`; what a failure says about the calls it came out of
is split off (`splitTraceback`) and goes out as a message of its own.
-/

namespace CardBridge

/-- What a message is about: a failure, something a script wants to say, or advice for whoever
looks for a fault. -/
inductive MessageKind
  | error | fromScript | forDebug
  deriving DecidableEq, Repr

/-- The bytes a text takes. -/
def byteLength (cs : List Char) : Nat :=
  cs.foldr (fun c n => c.utf8Size + n) 0

/-- The longest beginning of a text that takes at most `room` bytes. -/
def takeBytes : Nat → List Char → List Char
  | _, [] => []
  | room, c :: cs => if c.utf8Size ≤ room then c :: takeBytes (room - c.utf8Size) cs else []

/-- Whether a place in a text, counted in bytes, is where a character begins or the text ends. -/
def isBoundary : List Char → Nat → Bool
  | _, 0 => true
  | [], _ + 1 => false
  | c :: cs, place + 1 => c.utf8Size ≤ place + 1 && isBoundary cs (place + 1 - c.utf8Size)

/-- The first boundary on the way back from a place, byte by byte; `none` if the beginning of the
text is passed. -/
def boundaryBefore? (cs : List Char) : Nat → Option Nat
  | 0 => if isBoundary cs 0 then some 0 else none
  | place + 1 => if isBoundary cs (place + 1) then some (place + 1) else boundaryBefore? cs place

/-- A place to put a message together. It never holds more bytes than its capacity. -/
structure MessageBuffer where
  contents : List Char
  capacity : Nat

namespace MessageBuffer

/-- A buffer with nothing in it. -/
def new (capacity : Nat) : MessageBuffer :=
  ⟨[], capacity⟩

/-- Write one piece behind what is there. If it does not fit that is told, and it is cut at the last
boundary that fits or left out. -/
def write (b : MessageBuffer) (cut : Bool) (piece : List Char) : Bool × MessageBuffer :=
  if byteLength b.contents + byteLength piece ≤ b.capacity then
    (true, { b with contents := b.contents ++ piece })
  else if cut then
    let stop := (boundaryBefore? piece (b.capacity - byteLength b.contents)).getD 0
    (false, { b with contents := b.contents ++ takeBytes stop piece })
  else (false, b)

/-- Write pieces until one does not fit. -/
def writeAll (b : MessageBuffer) (cut : Bool) : List (List Char) → Bool × MessageBuffer
  | [] => (true, b)
  | piece :: rest =>
    match b.write cut piece with
    | (true, b) => b.writeAll cut rest
    | (false, b) => (false, b)

/-- Put a message together; `none` if it does not fit, which leaves the buffer empty. -/
def tryFormat (b : MessageBuffer) (pieces : List (List Char)) :
    Option (List Char) × MessageBuffer :=
  match (new b.capacity).writeAll false pieces with
  | (true, b) => (some b.contents, b)
  | (false, b) => (none, new b.capacity)

/-- Put a message together; nothing if it does not fit. -/
def format (b : MessageBuffer) (pieces : List (List Char)) : List Char × MessageBuffer :=
  match b.tryFormat pieces with
  | (some text, b) => (text, b)
  | (none, b) => ([], b)

/-- Put a message together and cut it where it does not fit. -/
def formatCut (b : MessageBuffer) (pieces : List (List Char)) : List Char × MessageBuffer :=
  let b := ((new b.capacity).writeAll true pieces).2
  (b.contents, b)

end MessageBuffer

/-- What is said about a message that does not fit. -/
def overflowText (capacity : Nat) : String :=
  "message exceeds buffer capacity of " ++ toString capacity ++ " bytes"

/-! ## Reports -/

/-- What begins the list of calls that a failure came out of. -/
def tracebackMarker : List Char :=
  "stack traceback:".toList

/-- Cut a text before the first place where `mark` begins. -/
def splitAtMark (mark : List Char) : List Char → List Char × Option (List Char)
  | [] => if mark.isEmpty then ([], some []) else ([], none)
  | c :: cs =>
    if mark.isPrefixOf (c :: cs) then ([], some (c :: cs))
    else
      let (head, tail) := splitAtMark mark cs
      (c :: head, tail)

/-- Split what a failure says into its message and the list of calls behind it, if there is one,
both without white space at the end. -/
def splitTraceback (rendered : List Char) : List Char × Option (List Char) :=
  let (head, tail) := splitAtMark tracebackMarker rendered
  (trimEnd head, tail.map trimEnd)

/-- The pieces of the report of a failure. -/
def reportPieces (site : String) (head : List Char) : List (List Char) :=
  ["\"".toList, site.toList, "\": ".toList, head]

end CardBridge
