import Nomo.Interpreter.Syntax
import Nomo.Lib.Trace

/-!
# The machine of the browser interpreter

`nomo_wasm/src/interpreter.rs:219–379`. The state of an `Interpreter`, and what it does between
evaluations: it counts steps, writes output, and reads and writes variables.
-/

namespace Nomo.Interpreter

open Nomo.Lib.Trace

variable {Op F α : Type}

/-- `Signal`. -/
inductive Signal (F : Type)
  | next
  | returnSignal (value : Value F)
  | breakSignal
  | continueSignal

/-- `Interpreter`, without its program and its limits. -/
structure Machine (F : Type) where
  steps : ℕ
  stdout : String
  stderr : String
  globals : Frame F
  frames : List (Frame F)

/-- `Interpreter::new`. -/
def Machine.new : Machine F where
  steps := 0
  stdout := ""
  stderr := ""
  globals := []
  frames := []

/-- What the interpreter does. -/
abbrev Run (F α : Type) : Type := Traced (Machine F) RuntimeError α

/-- Stop with an error of the program. -/
def Run.refuse (message : String) : Run F α := .fail (.runtime message)

/-! ## Steps and output -/

/-- The greatest value of a `u64`. -/
def u64Max : ℕ := 2 ^ 64 - 1

/-- `Interpreter::tick`. -/
def tick (limits : ExecutionLimits) : Run F Unit := do
  .update fun machine => { machine with steps := min (machine.steps + 1) u64Max }
  let steps ← .read Machine.steps
  if steps > limits.maxSteps then .fail .fuel else return

/-- `Interpreter::output_bytes`. -/
def Machine.outputBytes (machine : Machine F) : ℕ :=
  machine.stdout.utf8ByteSize + machine.stderr.utf8ByteSize

/-- `Interpreter::write_output`; the sum of sizes that fit in memory does not saturate. -/
def writeOutput (floats : Floats F) (limits : ExecutionLimits) (value : Value F)
    (newline stderr : Bool) : Run F Unit := do
  let rendered := value.display floats
  let added := rendered.utf8ByteSize + if newline then 1 else 0
  let outputBytes ← .read Machine.outputBytes
  if outputBytes + added > limits.maxOutputBytes then .fail .output
  else
    .update fun machine =>
      let written := rendered ++ if newline then "\n" else ""
      if stderr then { machine with stderr := machine.stderr ++ written }
      else { machine with stdout := machine.stdout ++ written }

/-! ## Variables -/

/-- `Interpreter::current_frame`. -/
def currentFrame : Run F (Frame F) := do
  match ← .read Machine.frames with
  | [] => Run.refuse "no active function frame"
  | frame :: _ => return frame

/-- Put a frame in the place of the current one. -/
def Machine.setCurrentFrame (machine : Machine F) (frame : Frame F) : Machine F :=
  { machine with frames := frame :: machine.frames.tail }

/-- `Interpreter::current_frame_mut`, and an insertion there. -/
def insertVariable (name : String) (value : Value F) : Run F Unit := do
  let frame ← currentFrame
  .update fun machine => machine.setCurrentFrame (insertEntry frame name value)

/-- `Interpreter::get_variable`. -/
def getVariable (name : String) : Run F (Value F) := do
  let frame ← currentFrame
  let globals ← .read Machine.globals
  match (frame.lookup name).or (globals.lookup name) with
  | some value => return value
  | none => .fail (unknownVariable name)

/-- `Interpreter::set_variable`. -/
def setVariable (floats : Floats F) (name : String) (value : Value F) : Run F Unit := do
  let frame ← currentFrame
  let target ← .lift (findEntry frame name (unknownVariable name))
  let value ← .lift (value.coerceLike floats target)
  .update fun machine => machine.setCurrentFrame (insertEntry frame name value)

/-- The value of a field of a value. -/
def fieldOf (value : Value F) (field : String) : Except RuntimeError (Value F) :=
  match value with
  | .struct _ fields => findEntry fields field (unknownField field)
  | _ => runtimeError s!"`{field}` is not a field on this runtime value"

/-- `Interpreter::get_path`. -/
def getPath (path : List String) : Run F (Value F) := do
  match path with
  | [] => Run.refuse "empty runtime path"
  | name :: fields => do
    let value ← getVariable name
    .lift (fields.foldlM fieldOf value)

/-- `Interpreter::set_path` with a name and a field. -/
def setPath (floats : Floats F) (name field : String) (value : Value F) : Run F Unit := do
  let base ← getVariable name
  let base ← .lift (setField floats name base field value)
  insertVariable name base

/-- `if let (Some(binding), Some(payload))`: bind what a variant carries. -/
def bindPayload (binding : Option String) (payload : Option (Value F)) : Run F Unit :=
  match binding, payload with
  | some binding, some payload => insertVariable binding payload
  | _, _ => pure ()

end Nomo.Interpreter

/-!
## Runtime functions in the browser

`nomo_wasm/src/interpreter.rs:383–459, 1629–1742`. Calls of the native runtime by name: what the
browser does in their place.
-/

namespace Nomo.Interpreter

variable {Op F : Type}

/-- `option_value`. -/
def optionValue : Option (Value F) → Value F
  | some value => .enum "Option" "Some" (some value)
  | none => .enum "Option" "None" none

/-- `Result.Err`. -/
def errValue (error : Value F) : Value F := .enum "Result" "Err" (some error)

/-- An error with a code and a message. -/
def codedError (name code message : String) : Value F :=
  .struct name [("code", .string code), ("message", .string message)]

/-- `task_runtime_unavailable_result`. -/
def taskRuntimeUnavailableResult : Value F :=
  errValue (codedError "TaskError" "runtime_unavailable"
    "native tasks are unavailable in the browser sandbox")

/-- `net_runtime_unavailable_result`. -/
def netRuntimeUnavailableResult : Value F :=
  errValue (.struct "NetError" [("kind", .enum "NetErrorKind" "Unsupported" none),
    ("message", .string "raw TCP is unavailable in the browser sandbox")])

/-- `task_timer_runtime_unavailable_result`. -/
def taskTimerRuntimeUnavailableResult : Value F :=
  errValue (codedError "TaskError" "runtime_unavailable"
    "host-driven timers are unavailable in the browser sandbox")

/-- `channel_runtime_unavailable_result`. -/
def channelRuntimeUnavailableResult : Value F :=
  errValue (codedError "ChannelError" "runtime_unavailable"
    "channels are unavailable in the browser sandbox")

/-- `sqlite_runtime_error_result`. -/
def sqliteRuntimeErrorResult (code : String) : Value F :=
  let message :=
    if code = "runtime_unavailable" then "SQLite is unavailable in the browser sandbox"
    else "SQLite handle is closed"
  errValue (.struct "SqliteError"
    [("code", .string code), ("message", .string message), ("native_code", .i64 0)])

/-- What the browser does in the place of a function of the native runtime. -/
inductive BuiltinCall (F : Type)
  /-- Refuse the call for want of a capability. -/
  | unavailable (capability : String)
  /-- Give a value, with no argument evaluated. -/
  | result (value : Value F)
  /-- Give the first argument. -/
  | publicationMove

/-- The names that `Interpreter::call_function` looks at first. -/
def builtinCall (name : String) : Option (BuiltinCall F) :=
  if name.startsWith "__nomo_http_" then some (.unavailable "network")
  else if name.startsWith "__nomo_process_" then some (.unavailable "process")
  else if name ∈ ["__nomo_net_connect_async", "__nomo_tcp_stream_shutdown_write"] then
    some (.result netRuntimeUnavailableResult)
  else if name = "__nomo_task_publication_move" then some .publicationMove
  else if name = "__nomo_task_spawn" then some (.result taskRuntimeUnavailableResult)
  else if name.startsWith "__nomo_structured_task_spawn::" then
    some (.result (.struct "Task" [("handle", .u64 0)]))
  else if name = "__nomo_structured_task_cancel" then some (.result .void)
  else if name ∈ ["__nomo_task_join", "__nomo_structured_task_join",
      "__nomo_structured_task_cancel_join", "__nomo_task_cancel", "__nomo_task_close"] then
    some (.result taskRuntimeUnavailableResult)
  else if name = "__nomo_task_is_cancelled" then some (.unavailable "native tasks")
  else if name = "__nomo_task_yield" then some (.result .void)
  else if name = "__nomo_task_deadline_enter" then some (.unavailable "task deadlines")
  else if name ∈ ["__nomo_task_deadline_exit", "__nomo_task_check_cancelled"] then
    some (.result .void)
  else if name = "__nomo_task_sleep" then some (.result taskTimerRuntimeUnavailableResult)
  else if name.startsWith "__nomo_task_channel::" then
    some (.result channelRuntimeUnavailableResult)
  else if name.startsWith "__nomo_task_send::" || name.startsWith "__nomo_task_receive::" ||
      name.startsWith "__nomo_task_try_send::" || name.startsWith "__nomo_task_try_receive::" ||
      name.startsWith "__nomo_task_close_channel::" then some (.unavailable "channels")
  else if name.startsWith "__nomo_sqlite_" then
    some (.result (sqliteRuntimeErrorResult
      (if name ∈ ["__nomo_sqlite_open", "__nomo_sqlite_open_memory"] then "runtime_unavailable"
      else "closed")))
  else none

end Nomo.Interpreter
