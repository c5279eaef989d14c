import CardBridge.Proofs.ExplicitArguments
import CardBridge.Proofs.Moments
import CardBridge.Proofs.RefusedSteps
import CardBridge.Proofs.Reports

/-!
# Failures that cross several levels

A function that the host calls may call a function of the host that calls a function in turn, and so
on. An error that is raised in the innermost one and caught nowhere crosses all these levels, and at
each of them the engine puts it into words again : the text grows at its front and at its end, where
one list of calls follows the other (`raisedText`).

`Fails` says how such a chain runs. It leaves open what the functions do before they make the next
call and what they are told of the error, as long as no message is sent meanwhile. By induction on
it, each level sends one report, the innermost first (`Fails.tells`), and
`failure_reported_once_per_level` says what the host gets to know.
-/

namespace CardBridge

open Script (Value)
open Machine

/-! ## Words -/

/-- What stands before an error for each level that it has crossed. -/
def levelText : List Char :=
  "script error: runtime error: ".toList

/-- An error that has crossed `n` levels, in words, without the lists of calls. -/
def crossedText (text : String) (n : Nat) : List Char :=
  (List.replicate n levelText).flatten ++ text.toList

/-- The engine's text for an error that was raised with a text and has crossed `n` levels. -/
def raisedText (text : String) : Nat → String
  | 0 => Code.engineText text
  | n + 1 => Code.engineText (Failure.script (raisedText text n)).message

/-- What scripts throw for it. -/
def raisedValue (text : String) : Nat → Value
  | 0 => .text text
  | n + 1 => .failure (raisedText text (n + 1))

/-- The failure of a call that it crosses. -/
def raisedFailure (text : String) (n : Nat) : Failure :=
  .script (raisedText text n)

theorem crossedText_succ (text : String) (n : Nat) :
    crossedText text (n + 1) = levelText ++ crossedText text n := by
  simp [crossedText, List.replicate_succ]

/-- The list of calls that the engine puts behind an error. -/
def callsText : List Char :=
  tracebackMarker ++ "\n\t[C]: in ?".toList

theorem message_engineText (s : String) : (Failure.script (Code.engineText s)).message.toList =
    levelText ++ (s.toList ++ '\n' :: callsText) := by
  have message : (Failure.script (Code.engineText s)).message =
      "script error: " ++ ("runtime error: " ++ s ++ "\nstack traceback:\n\t[C]: in ?") := rfl
  have level : "script error: ".toList ++ "runtime error: ".toList = levelText := by decide +kernel
  have calls : "\nstack traceback:\n\t[C]: in ?".toList = '\n' :: callsText := by decide +kernel
  rw [message, String.toList_append, String.toList_append, String.toList_append, List.append_assoc,
    ← List.append_assoc, level, calls]

/-- The first list of calls begins in the line behind the words. -/
theorem raisedFailure_message (text : String) (n : Nat) : ∃ rest, tracebackMarker <+: rest ∧
    (raisedFailure text n).message.toList = crossedText text (n + 1) ++ '\n' :: rest := by
  induction n with
  | zero =>
    refine ⟨callsText, List.prefix_append _ _, ?_⟩
    rw [raisedFailure, raisedText, message_engineText, crossedText_succ, List.append_assoc]
    simp [crossedText]
  | succ n ih =>
    obtain ⟨rest, begins, message⟩ := ih
    refine ⟨rest ++ '\n' :: callsText, begins.trans (List.prefix_append _ _), ?_⟩
    rw [raisedFailure] at message
    rw [raisedFailure, raisedText, message_engineText, message, crossedText_succ text (n + 1),
      List.append_assoc, List.append_assoc, List.cons_append]

/-- A text that can be told from the list of calls behind it. -/
structure Told (text : String) : Prop where
  nonempty : text.toList ≠ []
  unmarked : ¬ tracebackMarker <:+: text.toList
  ends : ∀ c ∈ text.toList.getLast?, isBlank c = false

theorem not_marker_prefix_cons {c : Char} {cs : List Char} (h : c ≠ 's') :
    ¬ tracebackMarker <+: c :: cs := by
  have marker : tracebackMarker = 's' :: "tack traceback:".toList := rfl
  rw [marker, List.cons_prefix_cons]
  exact fun begins => h begins.1.symm

/-- No mark begins in characters that are not its first one. -/
theorem marker_not_infix_append {front cs : List Char} (h : ¬ tracebackMarker <:+: cs)
    (without : 's' ∉ front) : ¬ tracebackMarker <:+: front ++ cs := by
  induction front with
  | nil => exact h
  | cons c front ih =>
    obtain ⟨here, there⟩ := List.ne_and_not_mem_of_not_mem_cons without
    rw [List.cons_append, List.infix_cons_iff]
    rintro (begins | inside)
    · exact not_marker_prefix_cons here.symm begins
    · exact ih there inside

/-- No mark begins in what stands before an error. -/
theorem marker_not_infix_levelText {cs : List Char} (h : ¬ tracebackMarker <:+: cs) :
    ¬ tracebackMarker <:+: levelText ++ cs := by
  have level : levelText = 's' :: 'c' :: "ript error: runtime error: ".toList := rfl
  have marker : tracebackMarker = 's' :: 't' :: "ack traceback:".toList := rfl
  rw [level, List.cons_append, List.infix_cons_iff]
  rintro (begins | inside)
  · rw [marker, List.cons_append, List.cons_prefix_cons, List.cons_prefix_cons] at begins
    exact absurd begins.2.1 (by decide)
  · exact marker_not_infix_append h (by decide) inside

namespace Told

variable {text : String}

theorem crossed_unmarked (told : Told text) (n : Nat) :
    ¬ tracebackMarker <:+: crossedText text n := by
  induction n with
  | zero => exact told.unmarked
  | succ n ih =>
    rw [crossedText_succ]
    exact marker_not_infix_levelText ih

theorem crossed_ends (told : Told text) (n : Nat) :
    ∀ c ∈ (crossedText text n).getLast?, isBlank c = false := by
  rw [crossedText, List.getLast?_append_of_ne_nil _ told.nonempty]
  exact told.ends

/-- The failure of a call is split into the words and the lists of calls. -/
theorem splits (told : Told text) (n : Nat) : ∃ calls, tracebackMarker <+: calls ∧
    splitTraceback (raisedFailure text n).message.toList =
      (crossedText text (n + 1), some calls) := by
  obtain ⟨rest, begins, message⟩ := raisedFailure_message text n
  refine ⟨trimEnd rest, marker_prefix_trimEnd begins, ?_⟩
  rw [message, splitTraceback_of_line begins (told.crossed_unmarked _) (told.crossed_ends _)]

end Told

/-! ## Environments that someone listens to -/

/-- Someone takes the messages of an environment, cut to a capacity, and `depth` invocations out of
`bound` are in progress. -/
structure State.Attended (s : State) (capacity bound depth : Nat) : Prop where
  session : ∃ id, s.env.session = some id
  handles : s.env.handles = true
  bridge : ∃ b, s.env.bridge = some b ∧ b.messages.capacity = capacity ∧ b.depth.max = bound ∧
    b.depth.current = depth

/-- The capacity for messages. -/
def State.capacity (s : State) : Option Nat :=
  s.env.bridge.map (·.messages.capacity)

theorem State.emit_capacity (s : State) (kind : MessageKind) (text : String) :
    (s.emit kind text).capacity = s.capacity := by
  rw [capacity, emit_env, capacity]

theorem State.report_capacity (s : State) (site : String) (f : Failure) :
    (s.report site f).capacity = s.capacity := by
  have noted (b : Bridge) (pieces : List (List Char)) (hb : s.env.bridge = some b) :
      (s.updateBridge fun b' => { b' with
        messages := (b.messages.formatCut pieces).2 }).capacity = s.capacity := by
    simp [capacity, hb, MessageBuffer.formatCut_capacity]
  unfold report
  dsimp only
  cases hb : s.env.bridge with
  | none =>
    split
    · rfl
    · exact emit_capacity _ _ _
  | some b =>
    dsimp only
    split <;> split
    · exact noted b _ hb
    all_goals
      simp only [emit_capacity]
      exact noted b _ hb

/-- A change leaves the capacity for messages alone. -/
theorem Update.apply_capacity (u : Update) (s : State) : (u.apply s).capacity = s.capacity := by
  cases u with
  | report site f => exact s.report_capacity site f
  | register o cls =>
    obtain ⟨objects, registry, e⟩ := s.register_env o cls
    simp [State.capacity, apply, e, Function.comp_def]
  | unregister o =>
    obtain ⟨objects, registry, e⟩ := s.unregister_env o
    simp [State.capacity, apply, e, Function.comp_def]
  | stage q | clear q =>
    cases q <;> simp [State.capacity, apply, Function.comp_def, Bridge.setQueue]
  | abandon | emit | hold | copySlot | dropSlot | makeClass | makeTable | addChunk | called
  | ended => simp [State.capacity, apply, Function.comp_def]

/-- Nothing that happens changes the capacity for messages. -/
theorem Effect.capacity {s s' : State} {os os' : List Open} {us : List Update}
    (h : Effect s os us s' os') : s'.capacity = s.capacity := by
  cases hb : s.env.bridge with
  | none => rw [State.capacity, State.capacity, h.foreign hb, hb]
  | some b =>
    cases h with
    | quiet | script => rfl
    | write u => exact u.apply_capacity s
    | enter scope enters =>
      obtain ⟨-, depth, noAction, -, hb'⟩ := Scope.enter_bridge enters hb
      simp [State.capacity, hb, hb']
    | leave o r =>
      obtain ⟨-, noAction, hb'⟩ := o.leave_bridge r hb
      simp [State.capacity, hb, hb']

/-- The bound on invocations does not change either. -/
theorem Effect.bound {s s' : State} {os os' : List Open} {us : List Update} {b : Bridge}
    (h : Effect s os us s' os') (hb : s.env.bridge = some b) :
    ∃ b', s'.env.bridge = some b' ∧ b'.depth.max = b.depth.max := by
  obtain ⟨b', hb', ⟨-, enters, -⟩ | ⟨-, leaves, -⟩ | ⟨-, stays, -⟩⟩ := h.depth hb
  · obtain ⟨-, hd⟩ := (CallDepth.enter?_eq_some_iff _ _).mp enters
    exact ⟨b', hb', by rw [← hd]⟩
  · exact ⟨b', hb', by rw [leaves]; rfl⟩
  · exact ⟨b', hb', by rw [stays]⟩

namespace State.Attended

variable {s s' : State} {capacity bound depth : Nat} {K : List Frame} {m m' : Machine}

/-- A run keeps them, if as many levels are open after it as before. -/
theorem run {us : List Update} (h : m.state.Attended capacity bound depth) (run : Run K m us m')
    (before : guards (opens m.stack) = guards (opens K))
    (after : guards (opens m'.stack) = guards (opens K)) :
    m'.state.Attended capacity bound depth := by
  obtain ⟨⟨id, session⟩, handles, b, hb, room, max, current⟩ := h
  have kept := run.invariant (P := fun s os => s.env.session = some id ∧ s.env.handles = true ∧
      s.capacity = some capacity ∧ (∃ b, s.env.bridge = some b ∧ b.depth.max = bound) ∧
      Balanced depth (guards (opens K)) s.env os)
    (fun ⟨session, handles, room, ⟨b, hb, max⟩, balanced⟩ e above _ => by
      obtain ⟨memory, objects, bridge, env⟩ := e.env_eq
      obtain ⟨b', hb', max'⟩ := e.bound hb
      exact ⟨by rw [env]; exact session, by rw [env]; exact handles, e.capacity.trans room,
        ⟨b', hb', max'.trans max⟩, balanced.effect e (guards_le_of_suffix above)⟩)
    ⟨session, handles, by simp [State.capacity, hb, room], ⟨b, hb, max⟩, b, hb, by omega⟩
  obtain ⟨session, handles, room, ⟨b, hb, max⟩, b', hb', balanced⟩ := kept
  obtain rfl := Option.some.inj (hb.symm.trans hb')
  refine ⟨⟨id, session⟩, handles, b, hb, ?_, max, by omega⟩
  simpa [State.capacity, hb] using room

end State.Attended

/-! ## A call that fails -/

namespace State

/-- A call of a function that the host holds passes all checks : it is to call `f` with `args`. -/
structure Ready (s : State) (c : Callable) (declared : Nat) (f : Value) (args : List Value) :
    Prop where
  resolves : s.resolve c = .ok f
  counted : (s.staged .call).length = declared
  passed : s.stagedValues .call = .ok args

instance (s : State) (c : Callable) (declared : Nat) (f : Value) (args : List Value) :
    Decidable (s.Ready c declared f args) :=
  decidable_of_iff (s.resolve c = .ok f ∧ (s.staged .call).length = declared ∧
      s.stagedValues .call = .ok args)
    ⟨fun ⟨resolves, counted, passed⟩ => ⟨resolves, counted, passed⟩,
      fun h => ⟨h.resolves, h.counted, h.passed⟩⟩

/-- One level of invocation deeper. -/
def deeper (s : State) : State :=
  s.updateBridge fun b => { b with
    depth := ⟨b.depth.current + 1, b.depth.max, Nat.max b.depth.peak (b.depth.current + 1)⟩ }

/-- The state in which the function of a call begins : its arguments are not staged any more. -/
def called (s : State) : State :=
  s.deeper.clear .call

/-- The state after a call whose function has failed. -/
def uncalled (s : State) (f : Failure) : State :=
  s.leaveGuard.settled "call_function" (.failed f)

variable {s : State} {capacity bound depth : Nat}

theorem enter_deeper (h : s.Attended capacity bound depth) (room : depth < bound) :
    Scope.guard.enter s = .ok (.guard, s.deeper) := by
  obtain ⟨-, -, b, hb, -, rfl, rfl⟩ := h
  have enters := (CallDepth.enter?_eq_some_iff b.depth _).mpr ⟨room, rfl⟩
  rw [Code.enter_guard_eq hb, enters]
  simp [deeper, updateBridge, hb]

theorem Attended.called (h : s.Attended capacity bound depth) :
    s.called.Attended capacity bound (depth + 1) := by
  obtain ⟨session, handles, b, hb, room, max, current⟩ := h
  let depth' : CallDepth :=
    ⟨b.depth.current + 1, b.depth.max, Nat.max b.depth.peak (b.depth.current + 1)⟩
  have hb' : s.called.env.bridge = some { b with depth := depth', params := [] } := by
    simp [State.called, deeper, hb, Bridge.setQueue, depth']
  exact ⟨session, handles, _, hb', room, max, congrArg (· + 1) current⟩

@[simp] theorem called_messages (s : State) : s.called.messages = s.messages :=
  s.deeper.clear_messages .call

end State

/-- The message on a call that an error fails which has crossed `n` levels. -/
def levelMessage (capacity : Nat) (text : String) (n : Nat) : String :=
  String.ofList (takeBytes capacity ("\"call_function\": ".toList ++ crossedText text (n + 1)))

/-- The message with the lists of calls that the error came out of. -/
def levelCalls (text : String) (n : Nat) : String :=
  String.ofList ((splitTraceback (raisedFailure text n).message.toList).2.getD [])

theorem levelMessage_longest (capacity : Nat) (text : String) (n : Nat) :
    LongestWithin capacity ("\"call_function\": ".toList ++ crossedText text (n + 1))
      (levelMessage capacity text n).toList := by
  have message : (levelMessage capacity text n).toList =
      takeBytes capacity ("\"call_function\": ".toList ++ crossedText text (n + 1)) :=
    String.toList_ofList
  rw [message]
  exact takeBytes_longest _ _

theorem Told.levelCalls_marked {text : String} (told : Told text) (n : Nat) :
    tracebackMarker <+: (levelCalls text n).toList := by
  obtain ⟨calls, begins, splits⟩ := told.splits n
  rwa [levelCalls, splits, String.toList_ofList]

/-- The reports on an error that has crossed `n` levels, innermost first. -/
def levelReports (capacity : Nat) (text : String) (n : Nat) : List (MessageKind × String) :=
  (List.range n).flatMap fun j =>
    [(.error, levelMessage capacity text j), (.forDebug, levelCalls text j)]

theorem levelReports_succ (capacity : Nat) (text : String) (n : Nat) :
    levelReports capacity text (n + 1) = levelReports capacity text n ++
      [(.error, levelMessage capacity text n), (.forDebug, levelCalls text n)] := by
  simp [levelReports, List.range_succ]

/-- A call that fails is reported. -/
theorem Told.uncalled_messages {text : String} (told : Told text) {s : State}
    {capacity bound depth : Nat} (h : s.Attended capacity bound depth) (room : 1 ≤ capacity)
    {before : List (MessageKind × String)} {n : Nat}
    (inner : s.messages = before ++ levelReports capacity text n) :
    (s.uncalled (raisedFailure text n)).messages =
      before ++ levelReports capacity text (n + 1) := by
  obtain ⟨⟨id, session⟩, handles, b, hb, rfl, -⟩ := h
  obtain ⟨calls, -, splits⟩ := told.splits n
  have left : (s.leaveGuard.clear .call).env.bridge =
      some { b with depth := b.depth.leave, params := [] } := by
    simp [hb, Bridge.setQueue]
  have known : (s.leaveGuard.clear .call).env.session = some id := by simpa using session
  have reported :=
    (s.leaveGuard.clear .call).report_messages known (by simpa using handles) left room
    splits "call_function"
  have pieces : (reportPieces "call_function" (crossedText text (n + 1))).flatten =
      "\"call_function\": ".toList ++ crossedText text (n + 1) := by
    simp [reportPieces]
  have silent : (s.leaveGuard.clear .call).messages = s.messages := by simp
  rw [levelReports_succ, levelCalls, splits, ← List.append_assoc, ← inner, ← silent]
  rw [pieces] at reported
  exact reported

namespace Code

variable {host : Host} {K : List Frame} {s s' : State} {text : String}

/-- The error of a script is put into words as the engine has them. -/
theorem gives_wording_raised {n : Nat} {k : String → Code} {r : Reply}
    (plain : n = 0 → s.env.memory.metafield (.text text) .tostring = .nil)
    (h : Gives host K s (k (raisedText text n)) r s') :
    Gives host K s (wording wordingLimit (raisedValue text n) k) r s' := by
  cases n with
  | zero =>
    refine gives_read_iff.mpr ?_
    have words : s.env.memory.plainText (.text text) = bytes text := rfl
    rw [raisedValue, plain rfl, words, Utf8.lossy_bytes]
    exact h
  | succ n => exact h

/-- A call whose function fails with an error that has crossed `n` levels fails with it. -/
theorem gives_callFunction_raised {c : Callable} {declared n capacity bound depth : Nat}
    {ret : ReturnCount} {f : Value} {args : List Value} (attended : s.Attended capacity bound depth)
    (room : depth < bound) (ready : s.Ready c declared f args)
    (raises : Completes host K s.called (.call f args) (.raised (raisedValue text n)) s')
    (plain : n = 0 → s'.env.memory.metafield (.text text) .tostring = .nil) :
    Gives host K s (callFunction c declared ret) (.failed (raisedFailure text n))
      (s'.uncalled (raisedFailure text n)) := by
  have guarded := State.enter_deeper attended room
  have passed : s.deeper.stagedValues .call = s.stagedValues .call :=
    State.stagedValues_congr _ rfl (fun _ => rfl) (fun _ => rfl) rfl rfl
  have call : Gives host K s.called (callWith f args ret) (.failed (raisedFailure text n)) s' :=
    gives_run_iff.mpr ⟨_, s', raises, gives_wording_raised plain .finish⟩
  have inside : Gives host K s.deeper (withStaged .call fun args => callWith f args ret)
      (.failed (raisedFailure text n)) s' := by
    refine gives_read_iff.mpr (gives_write_iff.mpr ?_)
    rw [passed, ready.passed]
    exact call
  have invoked : Gives host K s (invokeStaged f declared ret) (.failed (raisedFailure text n))
      s'.leaveGuard := by
    refine gives_read_iff.mpr ?_
    rw [if_pos ready.counted, gives_within_iff, guarded]
    exact ⟨s', inside, rfl⟩
  refine gives_settle_iff.mpr ⟨s'.leaveGuard, gives_read_iff.mpr ?_, rfl⟩
  rw [ready.resolves]
  exact invoked

end Code

/-! ## Chains -/

namespace Machine

/-- Steps above `K` in which no message is sent. -/
def Silent (host : Host) (K : List Frame) (m m' : Machine) : Prop :=
  Steps host K m m' ∧ m'.state.messages = m.state.messages

end Machine

/-- Above `K` a function that is called with arguments in `s` fails in `s'`, with an error that was
raised with a text and has crossed `n` levels of the bridge. Nothing catches the error, and no
message is sent but the reports of these levels. -/
inductive Fails (host : Host) (text : String) :
    Nat → List Frame → State → Value → List Value → State → Prop
  /-- The function raises the error. -/
  | raises {K : List Frame} {s s' : State} {f : Value} {args : List Value} {base : Script.Base}
    (runs : Silent host K ⟨s, .script (.call f args .outside) [] (baseOf K), K⟩
      ⟨s', .script (.throw (.text text)) [] base, K⟩)
    (plain : s'.env.memory.metafield (.text text) .tostring = .nil) :
    Fails host text 0 K s f args s'
  /-- The function calls one of the host's, which calls a function that fails and fails with it. -/
  | calls {n declared : Nat} {K B : List Frame} {s s₁ s₂ s₃ s' : State} {f f' : Value}
    {args args' : List Value} {c : Callable} {ret : ReturnCount} {next : Reply → Code}
    {stack : List Script.Frame} {base base' : Script.Base}
    (runs : Silent host K ⟨s, .script (.call f args .outside) [] (baseOf K), K⟩
      ⟨s₁, .host ((Code.callFunction c declared ret).andThen next), B ++ .native stack base :: K⟩)
    (level : guards (opens B) = 0) (ready : s₁.Ready c declared f' args')
    (inner : Fails host text n (B ++ .native stack base :: K) s₁.called f' args' s₂)
    (fails : Silent host (.native stack base :: K)
      ⟨s₂.uncalled (raisedFailure text n), .host (next (.failed (raisedFailure text n))),
        B ++ .native stack base :: K⟩
      ⟨s₃, .host (.finish (.failed (raisedFailure text n))), .native stack base :: K⟩)
    (passes : Silent host K ⟨s₃, .script (.throw (raisedValue text (n + 1))) stack base, K⟩
      ⟨s', .script (.throw (raisedValue text (n + 1))) [] base', K⟩) :
    Fails host text (n + 1) K s f args s'

namespace Fails

variable {host : Host} {text : String} {n capacity bound depth : Nat} {K : List Frame}
  {s s' : State} {f : Value} {args : List Value}

/-- What reaches the ground of a script's stack is what the script fails with. -/
theorem completes_of_throw {v : Value} {base : Script.Base}
    (h : Steps host K ⟨s, .script (.call f args .outside) [] (baseOf K), K⟩
      ⟨s', .script (.throw v) [] base, K⟩) :
    Completes host K s (.call f args) (.raised v) s' :=
  ⟨s', .throw v, [], base, s'.env.memory, h, rfl, rfl⟩

theorem plain (h : Fails host text n K s f args s') :
    n = 0 → s'.env.memory.metafield (.text text) .tostring = .nil := by
  cases h with
  | raises runs plain => exact fun _ => plain
  | calls => nofun

/-- Each level that an error crosses is reported once, the innermost first, and what fails goes on
to fail. -/
theorem tells (h : Fails host text n K s f args s') (told : Told text)
    (attended : s.Attended capacity bound depth) (deep : depth + n ≤ bound) (room : 1 ≤ capacity) :
    s'.Attended capacity bound depth ∧
      Completes host K s (.call f args) (.raised (raisedValue text n)) s' ∧
      s'.messages = s.messages ++ levelReports capacity text n := by
  induction h generalizing depth with
  | @raises K s s' f args base runs plain =>
    obtain ⟨us, run⟩ := runs.1.run
    refine ⟨attended.run run rfl rfl, completes_of_throw runs.1, ?_⟩
    rw [runs.2, levelReports, List.range_zero, List.flatMap_nil, List.append_nil]
  | @calls n declared K B s s₁ s₂ s₃ s' f f' args args' c ret next stack base base' runs level ready
      inner fails passes ih =>
    have below : K <:+ B ++ .native stack base :: K :=
      (List.suffix_cons _ _).trans (List.suffix_append _ _)
    have same_levels : guards (opens (B ++ .native stack base :: K)) = guards (opens K) := by
      rw [opens_append, guards_append, level, Nat.zero_add]
      rfl
    obtain ⟨us, run⟩ := runs.1.run
    have before : s₁.Attended capacity bound depth := attended.run run rfl same_levels
    obtain ⟨within, completes, reports⟩ := ih before.called (by omega)
    have call : Code.Gives host (B ++ .native stack base :: K) s₁ (Code.callFunction c declared ret)
        (.failed (raisedFailure text n)) (s₂.uncalled (raisedFailure text n)) :=
      Code.gives_callFunction_raised before (by omega) ready completes inner.plain
    have back : Steps host K
        ⟨s₃, .host (.finish (.failed (raisedFailure text n))), .native stack base :: K⟩
        ⟨s₃, .script (.throw (raisedValue text (n + 1))) stack base, K⟩ :=
      .step rfl List.suffix_rfl (.done _)
    have steps := ((((runs.1.trans (call.steps_andThen.mono below)).trans
      (fails.1.mono (List.suffix_cons _ _))).trans back).trans passes.1)
    obtain ⟨us', whole⟩ := steps.run
    refine ⟨attended.run whole rfl rfl, completes_of_throw steps, ?_⟩
    have crossed := told.uncalled_messages within room reports
    rw [State.called_messages] at crossed
    exact passes.2.trans (fails.2.trans (crossed.trans (congrArg (· ++ _) runs.2)))

end Fails

/-- **A failure is reported once per level.** The host calls a function of a script, with all checks
passed, and `n` further levels of calls lie between that and the function which raises an error with
the text `text`. The text is not empty, is not marked as a list of calls and does not end in white
space, all levels are within the bound, someone takes the messages, and there is room for a byte of
them at least. Then the call fails with an error of the script, of which the words before the first
list of calls are the text behind `n + 1` fronts. There were `n + 1` reports, innermost first : each
an error message, which is the longest beginning that fits of the site and the words at that level,
and a message with the calls. -/
theorem failure_reported_once_per_level {host : Host} {text : String} {n declared : Nat}
    {K : List Frame} {s s' : State} {session : SessionId} {b : Bridge} {c : Callable}
    {ret : ReturnCount} {f : Value} {args : List Value} (told : Told text)
    (known : s.env.session = some session) (handles : s.env.handles = true)
    (hb : s.env.bridge = some b) (deep : b.depth.current + n < b.depth.max)
    (room : 1 ≤ b.messages.capacity) (ready : s.Ready c declared f args)
    (fails : Fails host text n K s.called f args s') :
    ∃ error after, Code.Gives host K s (Code.callFunction c declared ret)
        (.failed (.script error)) after ∧
      (splitTraceback (Failure.script error).message.toList).1 = crossedText text (n + 1) ∧
      ∃ cut calls : Nat → String,
        after.messages = s.messages ++ (List.range (n + 1)).flatMap (fun j =>
          [(.error, cut j), (.forDebug, calls j)]) ∧
        ∀ j ≤ n, LongestWithin b.messages.capacity
            ("\"call_function\": ".toList ++ crossedText text (j + 1)) (cut j).toList ∧
          tracebackMarker <+: (calls j).toList := by
  have attended : s.Attended b.messages.capacity b.depth.max b.depth.current :=
    ⟨⟨session, known⟩, handles, b, hb, rfl, rfl, rfl⟩
  obtain ⟨within, completes, reports⟩ := fails.tells told attended.called (by omega) room
  obtain ⟨calls, -, splits⟩ := told.splits n
  rw [State.called_messages] at reports
  refine ⟨raisedText text n, s'.uncalled (raisedFailure text n),
    Code.gives_callFunction_raised attended (by omega) ready completes fails.plain,
    congrArg Prod.fst splits, levelMessage b.messages.capacity text, levelCalls text,
    told.uncalled_messages within room reports, fun j _ => ?_⟩
  exact ⟨levelMessage_longest _ _ _, told.levelCalls_marked j⟩

/-! ### A chain of three functions -/

/-- Whether a frame lets an error pass, with nothing else to be done. -/
def Script.Frame.letsPass : Script.Frame → Bool
  | .pcall | .toClose .. | .boundary .. => false
  | _ => true

namespace Machine

variable {host : Host} {K : List Frame} {s : State} {m : Machine}

/-- An error passes frames that let it. -/
theorem silent_throw {v : Value} {base : Script.Base} {stack : List Script.Frame}
    (h : ∀ F ∈ stack, F.letsPass = true) :
    Silent host K ⟨s, .script (.throw v) stack base, K⟩ ⟨s, .script (.throw v) [] base, K⟩ := by
  refine ⟨?_, rfl⟩
  induction stack with
  | nil => exact .done _
  | cons F stack ih =>
    obtain ⟨passes, rest⟩ := List.forall_mem_cons.mp h
    have steps : Script.State.step ⟨s.env.memory, .throw v, F :: stack, base⟩ =
        .next ⟨s.env.memory, .throw v, stack, base⟩ := by
      cases F with
      | pcall | toClose | boundary => cases passes
      | _ => rfl
    exact .script steps List.suffix_rfl (ih rest)

/-- Steps that can be made while as many frames are on the stack as in `K` leave `K` alone. -/
theorem steps_after {n i : Nat} (h : along (fun _ m => K.length ≤ m.stack.length) host n i m = true)
    (on : K <:+ m.stack) : Steps host K m (after host n m) ∧ K <:+ (after host n m).stack := by
  induction n generalizing i m with
  | zero => exact ⟨.done _, on⟩
  | succ n ih =>
    obtain ⟨-, rest⟩ := Bool.and_eq_true_iff.mp h
    cases step : m.step host with
    | next m₁ =>
      rw [step] at rest
      have long : K.length ≤ m₁.stack.length := by
        obtain ⟨holds, -⟩ := along_spec rest
        exact of_decide_eq_true (holds 0 (Nat.zero_le _))
      have on₁ : K <:+ m₁.stack := by
        rcases (move_of_step step).stack with same | ⟨F, push⟩ | ⟨F, pop⟩
        · rwa [same]
        · rw [push]
          exact on.trans (List.suffix_cons _ _)
        · rw [pop, List.suffix_cons_iff] at on
          rcases on with rfl | below
          · exact absurd long (by simp)
          · exact below
      obtain ⟨steps, on'⟩ := ih rest on₁
      have same : after host (n + 1) m = after host n m₁ := by simp only [after, step]
      rw [same]
      exact ⟨.step step on₁ steps, on'⟩
    | ended r s | stuck s =>
      rw [step] at rest
      cases rest

theorem after_succ {n : Nat} {m' : Machine} (h : (after host n m).step host = .next m') :
    after host (n + 1) m = m' := by
  induction n generalizing m with
  | zero =>
    have first : m.step host = .next m' := h
    simp only [after, first]
  | succ n ih =>
    cases step : m.step host with
    | next m₁ =>
      simp only [after, step] at h ⊢
      exact ih h
    | ended r s | stuck s =>
      simp only [after, step] at h
      cases h

/-- The function of the host that a script is about to call. -/
def calling (m : Machine) : Option (Script.Native × List Value) :=
  match m.activity with
  | .script control stack base =>
    match Script.State.step ⟨m.state.env.memory, control, stack, base⟩ with
    | .native n args _ => some (n, args)
    | _ => none
  | .host _ => none

/-- The error that a script has thrown, with nothing left to catch it. -/
def thrown (m : Machine) : Option Value :=
  match m.activity with
  | .script (.throw v) [] _ => some v
  | _ => none

/-- Whether an error passes the script that waits for host code. -/
def passable : List Frame → Bool
  | .native stack _ :: _ => stack.all (·.letsPass)
  | _ => false

/-- After a script has called a function of the host, that is at work. -/
theorem after_calling {n : Nat} {f : Script.Native} {args : List Value}
    (h : (after host n m).calling = some (f, args)) :
    ∃ stack base, after host (n + 1) m = ⟨(after host (n + 1) m).state, .host (host f args),
      .native stack base :: (after host n m).stack⟩ := by
  unfold calling at h
  split at h
  case h_1 control stack base active =>
    split at h
    case h_1 f' args' t calls =>
      cases h
      have step : (after host n m).step host = .next
          ⟨(after host n m).state.setMemory t.memory, .host (host f args),
            .native t.stack t.base :: (after host n m).stack⟩ := by
        simp [Machine.step, active, stepScript, calls, State.setMemory]
      rw [after_succ step]
      exact ⟨_, _, rfl⟩
    case h_2 => cases h
  case h_2 => cases h

theorem eq_of_thrown {v : Value} (h : m.thrown = some v) :
    ∃ base, m = ⟨m.state, .script (.throw v) [] base, m.stack⟩ := by
  obtain ⟨s, activity, stack⟩ := m
  unfold thrown at h
  split at h
  case h_1 w base active =>
    obtain rfl : activity = _ := active
    cases h
    exact ⟨base, rfl⟩
  case h_2 => cases h

end Machine

namespace Fails

/-- A function that is called, with nothing done yet. -/
def calledMachine (K : List Frame) (s : State) (f : Value) (args : List Value) : Machine :=
  ⟨s, .script (.call f args .outside) [] (baseOf K), K⟩

/-- What can be computed of a function that raises an error. -/
theorem raises_of_after {host : Host} {text : String} {K : List Frame} {s : State} {f : Value}
    {args : List Value} (n : Nat)
    (h : along (fun _ m => K.length ≤ m.stack.length) host n 0 (calledMachine K s f args) = true ∧
      (after host n (calledMachine K s f args)).thrown = some (.text text) ∧
      (after host n (calledMachine K s f args)).stack.length = K.length ∧
      (after host n (calledMachine K s f args)).state.messages = s.messages ∧
      (after host n (calledMachine K s f args)).state.env.memory.metafield (.text text) .tostring =
        .nil) :
    Fails host text 0 K s f args (after host n (calledMachine K s f args)).state := by
  obtain ⟨stays, throws, top, silent, plain⟩ := h
  obtain ⟨steps, on⟩ := steps_after stays List.suffix_rfl
  obtain ⟨base, eq⟩ := eq_of_thrown throws
  rw [← on.eq_of_length top.symm] at eq
  have runs : Silent host K (calledMachine K s f args)
      ⟨(after host n (calledMachine K s f args)).state, .script (.throw (.text text)) [] base,
        K⟩ := by
    rw [← eq]
    exact ⟨steps, silent⟩
  exact .raises runs plain

/-- What can be computed of a function that calls one of the host's. -/
theorem calls_of_after {host : Host} {text : String} {k declared : Nat} {K : List Frame}
    {s s₂ : State} {f f' : Value} {args args' vs : List Value} {c : Callable} {ret : ReturnCount}
    {g : Script.Native} (n : Nat) (code : host g vs = Code.callFunction c declared ret)
    (h : along (fun _ m => K.length ≤ m.stack.length) host (n + 1) 0
        (calledMachine K s f args) = true ∧
      (after host n (calledMachine K s f args)).calling = some (g, vs) ∧
      (after host (n + 1) (calledMachine K s f args)).stack.length = K.length + 1 ∧
      (after host (n + 1) (calledMachine K s f args)).state.messages = s.messages ∧
      (after host (n + 1) (calledMachine K s f args)).state.Ready c declared f' args' ∧
      passable (after host (n + 1) (calledMachine K s f args)).stack = true)
    (inner : Fails host text k (after host (n + 1) (calledMachine K s f args)).stack
      (after host (n + 1) (calledMachine K s f args)).state.called f' args' s₂) :
    Fails host text (k + 1) K s f args (s₂.uncalled (raisedFailure text k)) := by
  obtain ⟨stays, calls, top, silent, ready, passes⟩ := h
  obtain ⟨steps, on⟩ := steps_after stays List.suffix_rfl
  obtain ⟨stack, base, eq⟩ := after_calling calls
  generalize (after host n (calledMachine K s f args)).stack = L at eq
  generalize after host (n + 1) (calledMachine K s f args) = m at *
  obtain ⟨s₁, active, S⟩ := m
  simp only [Machine.mk.injEq, true_and] at eq
  obtain ⟨rfl, rfl⟩ := eq
  have below : K = L := by
    rcases List.suffix_cons_iff.mp on with same | below
    · rw [same] at top
      simp at top
    · exact below.eq_of_length (Nat.succ.inj top).symm
  subst below
  have runs : Silent host K (calledMachine K s f args)
      ⟨s₁, .host ((Code.callFunction c declared ret).andThen .finish),
        .native stack base :: K⟩ := by
    rw [Code.andThen_finish, ← code]
    exact ⟨steps, silent⟩
  exact .calls (B := []) runs rfl ready inner ⟨.done _, rfl⟩
    (silent_throw (List.all_eq_true.mp passes))

end Fails

namespace Fails

/-- Host code with a function for each function of a script that the host holds, to call it. -/
def chainHost : Host :=
  Code.native fun i _ => Code.callFunction ⟨i⟩ 0 .all

/-- Three functions : one raises an error, and each of the others calls the one before it. -/
def chainScript : String :=
  "function f() error('lost') end function g() callF() end function h() callG() end"

/-- An environment that has run the script, of which the host holds the functions. -/
def chained : State :=
  let env := (Host.Blueprint.plain ⟨1⟩).environment 0
  let memory := setGlobal (setGlobal env.memory "callF" (.native (.host 0))) "callG"
    (.native (.host 1))
  let code := (Code.loadScript (bytes chainScript) "chain").andThen fun _ =>
    (Code.holdGlobal "f" "f").andThen fun _ =>
    (Code.holdGlobal "g" "g").andThen fun _ => Code.holdGlobal "h" "h"
  let shared := { Shared.empty with accounts := #[⟨true, 0⟩] }
  match Machine.run chainHost 1000 (.start ⟨{ env with memory }, shared⟩ code) with
  | .next m => m.state
  | .ended _ s | .stuck s => s

/-- What has become of the host's call when the innermost function is called. -/
def callOfG : Machine :=
  Machine.after chainHost 6 (calledMachine [] chained.called (.closure 3) [])

@[inherit_doc callOfG]
def callOfF : Machine :=
  Machine.after chainHost 6 (calledMachine callOfG.stack callOfG.state.called (.closure 2) [])

theorem raises_f : Fails chainHost "chain:1: lost" 0 callOfF.stack callOfF.state.called (.closure 1)
    [] (Machine.after chainHost 12
      (calledMachine callOfF.stack callOfF.state.called (.closure 1) [])).state :=
  raises_of_after 12 (by decide +kernel)

theorem calls_f : ∃ s, Fails chainHost "chain:1: lost" 1 callOfG.stack callOfG.state.called
    (.closure 2) [] s :=
  have code : chainHost (.host 0) [] = Code.callFunction ⟨0⟩ 0 .all := rfl
  ⟨_, calls_of_after 5 code (by decide +kernel) raises_f⟩

theorem calls_g : ∃ s, Fails chainHost "chain:1: lost" 2 [] chained.called (.closure 3) [] s := by
  have code : chainHost (.host 1) [] = Code.callFunction ⟨1⟩ 0 .all := rfl
  obtain ⟨s, inner⟩ := calls_f
  exact ⟨_, calls_of_after 5 code (by decide +kernel) inner⟩

theorem chained_ready : chained.Ready ⟨2⟩ 0 (.closure 3) [] ∧
    chained.env.session = some ⟨1⟩ ∧ chained.env.handles = true ∧
    chained.env.bridge.map (fun b => (b.depth, b.messages.capacity)) =
      some (⟨0, 100, 1⟩, 128) := by
  decide +kernel

theorem told_lost : Told "chain:1: lost" := by
  have last : "chain:1: lost".toList.getLast? = some 't' := by decide +kernel
  refine ⟨by decide +kernel, by decide +kernel, ?_⟩
  rw [last]
  rintro c ⟨⟩
  decide

end Fails

/-- The error crosses all three levels. -/
theorem failure_reported_for_three_levels : ∃ error after,
    Code.Gives Fails.chainHost [] Fails.chained (Code.callFunction ⟨2⟩ 0 .all)
      (.failed (.script error)) after ∧
    (splitTraceback (Failure.script error).message.toList).1 = crossedText "chain:1: lost" 3 ∧
    after.messages.length = Fails.chained.messages.length + 6 := by
  obtain ⟨s, fails⟩ := Fails.calls_g
  obtain ⟨ready, known, handles, bridge⟩ := Fails.chained_ready
  obtain ⟨b, hb, same⟩ := Option.map_eq_some_iff.mp bridge
  obtain ⟨depth, room⟩ := Prod.mk.inj same
  obtain ⟨error, after, gives, words, cut, calls, messages, -⟩ :
      ∃ error after, Code.Gives Fails.chainHost [] Fails.chained (Code.callFunction ⟨2⟩ 0 .all)
        (.failed (.script error)) after ∧ _ :=
    failure_reported_once_per_level Fails.told_lost known handles hb (by rw [depth]; decide)
      (by rw [room]; decide) ready fails
  exact ⟨error, after, gives, words, by simp [messages, List.range_succ]⟩

end CardBridge
