import CardBridge.Session.Code

/-!
# Loading scripts

Scripts are loaded from text or by name. The script of a card is loaded once: it fills the table
of the card's class, and two globals tell it which one that is. A script that cannot be compiled or
fails is reported, and of a card's script then nothing is kept.
-/

namespace CardBridge

open Script (Value)

namespace Code

/-- Where a name has a NUL character, counted in bytes. -/
def nulPosition? (name : Bytes) : Option Nat :=
  name.findIdx? (· = 0)

/-- The byte that a compiled chunk begins with. -/
def compiledMark : UInt8 := 0x1B

/-- Why bytes that say they are a compiled chunk are none. Such chunks are not read. -/
def compiledFault (source : Bytes) : String :=
  if (bytes "\x1bLua").isPrefixOf source || source.isPrefixOf (bytes "\x1bLua") then
    "truncated chunk"
  else "not a binary chunk"

/-- Compile the text of a chunk: the name it shows, and its statements. What goes wrong is put
into the engine's words. -/
def compile (name : String) (source : Bytes) : Except String (Bytes × List Script.Stat) :=
  let given := bytes name
  match nulPosition? given with
  | some i =>
    .error ("runtime error: invalid name: nul byte found in provided data at position: " ++
      toString (i + 1))
  | none =>
    if source.head? = some compiledMark then
      .error ("syntax error: " ++ name ++ ": bad binary format (" ++ compiledFault source ++ ")")
    else
      let chunk := Script.shownName given
      match Script.parse chunk source with
      | .ok body => .ok (chunk, body)
      | .error (.malformed message) => .error ("syntax error: " ++ Utf8.lossy message)
      | .error .tooDeep => .error "runtime error: C stack overflow"

/-- Run a compiled chunk and go on with its values or with the engine's text of its error. -/
def runChunk (chunk : Bytes) (body : List Script.Stat) (k : List Value → Code)
    (failed : String → Code) : Code :=
  read fun s =>
    let id := s.env.memory.closures.size
    write (.addChunk chunk body) (attempt (.call (.closure id) []) k failed)

/-- Report that a script has failed, and fail. -/
def reportScript (site text : String) : Code :=
  write (.report site (.script text)) (fail (.script text))

/-- Compile and run a chunk. -/
def loadScript (source : Bytes) (name : String) : Code :=
  let body :=
    match compile name source with
    | .error text => reportScript name text
    | .ok (chunk, body) => runChunk chunk body (fun _ => done) (reportScript name)
  scope .guard body (fun f => write (.report name f) (fail f)) finish

/-- Load a script by its name. -/
def loadNamed (name : String) : Code :=
  read fun s =>
    match s.readScript name with
    | none => fail (.scriptNotFound name)
    | some source => loadScript source name

/-- Whether the class of a card's script is there. -/
def isClassLoaded (s : State) (code : UInt32) : Bool :=
  match s.global (scriptClass code) with
  | .table _ => true
  | _ => false

/-- Load the script of a card, unless its class is there. -/
def loadCard (code : UInt32) : Code :=
  read fun s =>
    if isClassLoaded s code then done
    else
      match s.readScript (scriptName code) with
      | none => fail (.scriptNotFound (scriptName code))
      | some source => within (.loading code) (loadScript source (scriptName code))

/-- Run a chunk outside of any invocation, as an expression if it is one. -/
def evaluate (source : Bytes) : Code :=
  let name := "eval"
  let failed (text : String) : Code := fail (.engine text)
  match compile name (bytes "return " ++ source) with
  | .ok (chunk, body) => runChunk chunk body values failed
  | .error _ =>
    match compile name source with
    | .ok (chunk, body) => runChunk chunk body values failed
    | .error text => failed text

end Code

end CardBridge
