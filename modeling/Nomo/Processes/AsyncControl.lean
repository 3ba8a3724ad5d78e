import Nomo.Lib.CString
import Nomo.Processes.Keeping

/-!
# Asynchronous process control

host_async_process_unix.c, from `nomo_async_process_retained_add` on. A `next_event` makes progress when it
is started, when it is resumed, and once more where its timer has expired: it writes the pending payload,
reads both outputs, and reports what there is to report; else it is armed and goes on waiting. What is
buffered of all children is counted in `retained_process_bytes`.

A child is named by when it was started, in place of its slot and generation.
-/

namespace Nomo.Processes

open Nomo.Lib

/-! ## Buffers -/

/-- A child's state, with `retained_process_bytes` of the context. -/
structure Held where
  process : Process
  retained : ℕ

/-- The answers of the system in `event_progress`: what `waitpid` finds before and after, the write of the
child's input, and the reads of its output. -/
structure Progress where
  exitBefore : Option ProcessExit
  stdin : Write
  stdout : Read
  stderr : Read
  exitAfter : Option ProcessExit

namespace Held

/-- `nomo_async_process_retained_add`. -/
def retainedAdd (held : Held) (amount : ℕ) : Held := { held with retained := held.retained + amount }

/-- `nomo_async_process_retained_remove`. -/
def retainedRemove (held : Held) (amount : ℕ) : Held :=
  { held with retained := if amount < held.retained then held.retained - amount else 0 }

def updateExit (held : Held) (exit : Option ProcessExit) : Held :=
  { held with process := held.process.updateExit exit }

/-- `nomo_async_process_buffer_append`; false is that the buffer is full. -/
def bufferAppend (held : Held) (stream : Stream) (data : List UInt8) : Bool × Held :=
  let output := held.process.child.output stream
  if data.length = 0 then (true, held)
  else if maxPayloadBytes + bufferSlack - data.length < output.buffer.length then (false, held)
  else
    (true,
      { held with
        process := held.process.setOutput stream { output with buffer := output.buffer ++ data } }.retainedAdd
        data.length)

/-- `nomo_async_process_buffer_consume`. -/
def bufferConsume (held : Held) (stream : Stream) (length : ℕ) : Held :=
  let output := held.process.child.output stream
  { held with
    process := held.process.setOutput stream { output with buffer := output.buffer.drop length } }.retainedRemove
    (min length output.buffer.length)

/-- `nomo_async_process_read_stream`; false is that the read has failed. -/
def readStream (held : Held) (stream : Stream) (target : ℕ) (answer : Read) : Bool × Held :=
  let output := held.process.child.output stream
  if output.fdOpen = false ∨ target ≤ output.buffer.length then (true, held)
  else
    match held.process.delivered stream answer (min (target - output.buffer.length) chunkSize) with
    | .error () => (false, held)
    | .ok none =>
      (true, { held with process := held.process.setOutput stream { output with fdOpen := false, eof := true } })
    | .ok (some bytes) =>
      let unread := Function.update held.process.unread stream ((held.process.unread stream).drop bytes.length)
      { held with process := { held.process with unread := unread } }.bufferAppend stream bytes

/-- `nomo_async_process_flush_stdin`; false is that the write has failed. -/
def flushStdin (held : Held) (answer : Write) : Bool × Held :=
  let child := held.process.child
  if child.stdinOpen = false ∨ child.stdinPending = false then (true, held)
  else
    let (written, process) := held.process.writeStdin answer
    match answer with
    | .bytes more => (written, { held with process := process }.retainedRemove
        (held.process.remaining.take (more + 1)).length)
    | .again => (written, { held with process := process })
    | .failed => (written, { held with process := process }.retainedRemove
        (child.stdinData.length - child.stdinOffset))

/-- `nomo_async_process_emit_stream`. -/
def emitStream (held : Held) (stream : Stream) (maxChunkBytes : ℕ) : Process.Emitted × Held :=
  let output := held.process.child.output stream
  if output.buffer.length = 0 then (.nothing, held)
  else match Streams.utf8Prefix output.buffer maxChunkBytes output.eof with
    | none => (.broken, held)
    | some count =>
      if count = 0 then (.nothing, held)
      else
        let consumed := held.bufferConsume stream count
        let child := consumed.process.child
        (.text stream (output.buffer.take count),
          { consumed with
            process := { consumed.process with child := { child with preferStderr := stream = .stdout } } })

/-- The two calls of `emit_stream`: the preferred stream first. -/
def emitEither (held : Held) (maxChunkBytes : ℕ) : Process.Emitted × Held :=
  let first := if held.process.child.preferStderr then Stream.stderr else .stdout
  match held.emitStream first maxChunkBytes with
  | (.nothing, _) => held.emitStream first.other maxChunkBytes
  | emitted => emitted

/-- What is released where a child is closed: its payload and its buffers. -/
def release (held : Held) : Held :=
  let child := held.process.child
  let payload :=
    if child.stdinData ≠ [] then held.retainedRemove (child.stdinData.length - child.stdinOffset) else held
  let stdout := payload.retainedRemove (child.output .stdout).buffer.length
  let stderr := stdout.retainedRemove (child.output .stderr).buffer.length
  { stderr with
    process := { held.process with
      child := { child with
        output := fun stream => { child.output stream with buffer := [], fdOpen := false }
        stdinOpen := false
        stdinData := []
        stdinOffset := 0 } } }

end Held

/-! ## Children -/

/-- A child's entry: whether it is occupied, and the limit of its pending event. -/
structure Handle where
  process : Process
  occupied : Bool
  event : Option ℕ

/-- The entries of all children that were started, and `retained_process_bytes`. -/
structure Runtime where
  handles : List Handle
  retained : ℕ

namespace Runtime

def childClosed : ProcessError := closedError "process child is closed"
def stdinIsClosed : ProcessError := closedError "process stdin is closed"
def exitConsumed : ProcessError := invalidRequest "process exit event was already consumed"
def eventBusy : ProcessError := busyError "process child already has a pending event operation"
def registrationFailed : ProcessError :=
  { code := "reactor", message := "process pipe reactor registration failed" }
def reregistrationFailed : ProcessError :=
  { code := "reactor", message := "process pipe reactor re-registration failed" }
def timersExhausted : ProcessError :=
  { code := "limit", message := "owner executor timer capacity is exhausted" }
def terminationFailed : ProcessError := { code := "io", message := "process termination failed" }
def allocationFailed : ProcessError := { code := "limit", message := "process stdin allocation failed" }

/-- No child was started. -/
def empty : Runtime := { handles := [], retained := 0 }

/-- A child was started, which writes these bytes. -/
def start (runtime : Runtime) (body : Stream → List UInt8) : Runtime :=
  { runtime with
    handles := runtime.handles ++ [{ process := .started body, occupied := true, event := none }] }

/-- `nomo_async_process_handle_find`. -/
def find (runtime : Runtime) (child : ℕ) : Option Handle :=
  runtime.handles[child]?.filter (·.occupied)

/-- A write to an entry and to `retained_process_bytes`. -/
def put (runtime : Runtime) (child : ℕ) (handle : Handle) (held : Held) : Runtime where
  handles := runtime.handles.set child { handle with process := held.process }
  retained := held.retained

/-- An entry's state with `retained_process_bytes`. -/
def held (runtime : Runtime) (handle : Handle) : Held :=
  { process := handle.process, retained := runtime.retained }

/-! ### Events -/

/-- What `event_progress` comes to: it stays pending, it reports, or it reports and has closed the child. -/
inductive Progressed
  | pending
  | reports (result : EventResult)
  | closes (result : EventResult)

/-- The end of `event_progress`: what is reported. -/
def report (held : Held) (maxChunkBytes : ℕ) : Progressed × Held :=
  let process := held.process
  if process.child.stdinFlushed then
    (.reports (.ok .stdinFlushed),
      { held with process := { process with child := { process.child with stdinFlushed := false } } })
  else
    match held.emitEither maxChunkBytes with
    -- `nomo_async_process_handle_close`
    | (.broken, held) => (.closes (.error notText), held.release)
    | (.text stream text, held) => (.reports (.ok (.text stream text)), held)
    | (.nothing, held) =>
      let process := held.process
      if process.exitDue then
        (.reports (.ok (.exited process.child.exitInfo)),
          { held with process := { process with child := { process.child with exitEmitted := true } } })
      else (.pending, held)

/-- `nomo_async_process_event_progress`. -/
def eventProgress (held : Held) (maxChunkBytes : ℕ) (answers : Progress) : Progressed × Held :=
  match (held.updateExit answers.exitBefore).flushStdin answers.stdin with
  | (false, held) => (.reports (.error writeFailed), held)
  | (true, held) =>
    let target := maxChunkBytes + bufferSlack
    match held.readStream .stdout target answers.stdout with
    | (false, held) => (.reports (.error readFailed), held)
    | (true, held) =>
      match held.readStream .stderr target answers.stderr with
      | (false, held) => (.reports (.error readFailed), held)
      | (true, held) => report (held.updateExit answers.exitAfter) maxChunkBytes

/-- How `nomo_async_process_event_arm` ends: armed, without a reactor registration, without a timer, or with
an exit that was found after the registration. -/
inductive Arm
  | armed
  | registrationFailed
  | timersExhausted
  | exited (exit : ProcessExit)

/-- The result where an event cannot be armed. -/
def Arm.failure (arm : Arm) (reactor : ProcessError) : Option ProcessError :=
  match arm with
  | .armed => none
  | .registrationFailed => some reactor
  | .timersExhausted | .exited _ => some Runtime.timersExhausted

/-- The event is armed; where it finds the exit, it makes progress and is armed once more. -/
def arm (held : Held) (maxChunkBytes : ℕ) (reactor : ProcessError) (first : Arm) (again : Progress)
    (second : Arm) : Progressed × Held :=
  match first with
  | .exited exit =>
    -- the exit is looked up only where it is not known
    if held.process.child.exited then (.pending, held)
    else
      match eventProgress (held.updateExit (some exit)) maxChunkBytes again with
      | (.pending, held) =>
        ((second.failure reactor).elim .pending fun error => .reports (.error error), held)
      | ended => ended
  | first => ((first.failure reactor).elim .pending fun error => .reports (.error error), held)

/-- The entry after an event. -/
def settle (handle : Handle) (maxChunkBytes : ℕ) : Progressed → Handle
  | .pending => { handle with event := some maxChunkBytes }
  | .reports _ => { handle with event := none }
  | .closes _ => { handle with occupied := false, event := none }

/-- The result of an event; without a result it is pending. -/
def Progressed.result : Progressed → Option EventResult
  | .pending => none
  | .reports result => some result
  | .closes result => some result

/-- What an event comes to is kept and returned. -/
def conclude (runtime : Runtime) (child : ℕ) (handle : Handle) (maxChunkBytes : ℕ)
    (outcome : Progressed × Held) : Option EventResult × Runtime :=
  (outcome.1.result, runtime.put child (settle handle maxChunkBytes outcome.1) outcome.2)

/-- The answers of the system in `event_start`. -/
structure Start where
  progress : Progress
  first : Arm
  again : Progress
  second : Arm

/-- `nomo_async_process_event_start`. -/
def eventStart (runtime : Runtime) (child maxChunkBytes timeoutMillis : ℕ) (answers : Start) :
    Option EventResult × Runtime :=
  if maxChunkBytes < 4 ∨ maxPayloadBytes < maxChunkBytes ∨ timeoutMillis = 0 ∨
      maxTimeoutMillis < timeoutMillis then (some (.error invalidEventLimit), runtime)
  else
    match runtime.find child with
    | none => (some (.error childClosed), runtime)
    | some handle =>
      if handle.process.child.exitEmitted then (some (.error exitConsumed), runtime)
      else if handle.event.isSome then (some (.error eventBusy), runtime)
      else
        runtime.conclude child handle maxChunkBytes <|
          match eventProgress (runtime.held handle) maxChunkBytes answers.progress with
          | (.pending, held) =>
            arm held maxChunkBytes registrationFailed answers.first answers.again answers.second
          | ended => ended

/-- The answers of the system in `event_resume`: whether the timer has expired, and the deadline passed;
whether a pipe is ready; and whether the deadline has passed after the progress. -/
structure Resume where
  expired : Bool
  late : Bool
  last : Progress
  ready : Bool
  progress : Progress
  overdue : Bool
  first : Arm
  again : Progress
  second : Arm

/-- An event that makes no progress has timed out. -/
def orTimedOut : Progressed × Held → Progressed × Held
  | (.pending, held) => (.reports (.error timedOut), held)
  | ended => ended

/-- `nomo_async_process_event_resume`, of a registration with this child and limit. -/
def eventResume (runtime : Runtime) (child maxChunkBytes : ℕ) (answers : Resume) :
    Option EventResult × Runtime :=
  if answers.expired ∧ answers.late then
    match runtime.find child with
    | none => (some (.error timedOut), runtime)
    | some handle =>
      runtime.conclude child handle maxChunkBytes
        (orTimedOut (eventProgress (runtime.held handle) maxChunkBytes answers.last))
  else if ¬ answers.expired ∧ ¬ answers.ready then (none, runtime)
  else
    match runtime.find child with
    | none => (some (.error childClosed), runtime)
    | some handle =>
      runtime.conclude child handle maxChunkBytes <|
        match eventProgress (runtime.held handle) maxChunkBytes answers.progress with
        | (.pending, held) =>
          if answers.overdue then orTimedOut (.pending, held)
          else arm held maxChunkBytes reregistrationFailed answers.first answers.again answers.second
        | ended => ended

/-- `nomo_async_process_cancel`, of an event. -/
def cancel (runtime : Runtime) (child : ℕ) : Runtime :=
  match runtime.find child with
  | none => runtime
  | some handle => runtime.put child { handle with event := none } (runtime.held handle)

/-! ### The other operations -/

/-- `write_stdin`, with whether the payload's copy is allocated. -/
def writeStdin (runtime : Runtime) (child : ℕ) (data : List UInt8) (exit : Option ProcessExit)
    (allocated : Bool) : Except ProcessError Unit × Runtime :=
  match runtime.find child with
  | none => (.error childClosed, runtime)
  | some handle =>
    let payload := cstring data
    if payload.length = 0 ∨ maxPayloadBytes < payload.length then (.error invalidPayload, runtime)
    else
      let held := (runtime.held handle).updateExit exit
      let state := held.process.child
      if state.stdinClosed ∨ state.stdinOpen = false ∨ state.exited then
        (.error stdinIsClosed, runtime.put child handle held)
      else if state.stdinPending then (.error stdinBusy, runtime.put child handle held)
      else if ¬ allocated then (.error allocationFailed, runtime.put child handle held)
      else
        (.ok (), runtime.put child handle
          ({ held with process := held.process.accept payload }.retainedAdd payload.length))

/-- `close_stdin`. -/
def closeStdin (runtime : Runtime) (child : ℕ) : Except ProcessError Unit × Runtime :=
  match runtime.find child with
  | none => (.error childClosed, runtime)
  | some handle =>
    if handle.process.child.stdinPending then (.error stdinStillBusy, runtime)
    else
      (.ok (), runtime.put child handle
        { runtime.held handle with process := handle.process.closeStdin })

/-- The lookup of the exit in `try_wait` and `terminate`, and where a watch is delivered. -/
def lookUpExit (runtime : Runtime) (child : ℕ) (exit : Option ProcessExit) : Runtime :=
  match runtime.find child with
  | none => runtime
  | some handle => runtime.put child handle ((runtime.held handle).updateExit exit)

/-- `try_wait`. -/
def tryWait (runtime : Runtime) (child : ℕ) (exit : Option ProcessExit) :
    Except ProcessError (Option ProcessExit) × Runtime :=
  match runtime.find child with
  | none => (.error childClosed, runtime)
  | some handle =>
    let state := (handle.process.updateExit exit).child
    (.ok (if state.exited then some state.exitInfo else none), runtime.lookUpExit child exit)

/-- `terminate`, with whether `kill` fails. -/
def terminate (runtime : Runtime) (child : ℕ) (exit : Option ProcessExit) (killFails : Bool) :
    Except ProcessError Unit × Runtime :=
  match runtime.find child with
  | none => (.error childClosed, runtime)
  | some handle =>
    if ¬ (handle.process.updateExit exit).child.exited ∧ killFails then
      (.error terminationFailed, runtime.lookUpExit child exit)
    else (.ok (), runtime.lookUpExit child exit)

/-- `close_child`: `nomo_async_process_handle_close`. -/
def closeChild (runtime : Runtime) (child : ℕ) : Runtime :=
  match runtime.find child with
  | none => runtime
  | some handle =>
    runtime.put child { handle with occupied := false, event := none } (runtime.held handle).release

/-- `nomo_async_process_runtime_shutdown`. -/
def shutDown (runtime : Runtime) : Runtime where
  handles := runtime.handles.map fun handle =>
    { handle with process := (runtime.held handle).release.process, occupied := false, event := none }
  retained := 0

/-! ### Steps -/

/-- What is shown: a start, what is shown of a child, the shutdown. -/
inductive Shown
  | started (body : Stream → List UInt8)
  | of (child : ℕ) (label : Label)
  | shutDown

/-- What has reached a child's input. -/
def piped (runtime : Runtime) (child : ℕ) : List UInt8 :=
  runtime.handles[child]?.elim [] (·.process.piped)

/-- What a step has written to a child's input. -/
def written (runtime : Runtime) (child : ℕ) (next : Runtime) : List UInt8 :=
  (next.piped child).drop (runtime.piped child).length

/-- The label of an event. -/
def eventLabel (runtime : Runtime) (child maxChunkBytes : ℕ) (outcome : Option EventResult × Runtime) :
    Label :=
  match outcome.1 with
  | none => .waits (runtime.written child outcome.2)
  | some result => .event maxChunkBytes (runtime.written child outcome.2) result

/-- The label of a call that is accepted or refused. -/
def callLabel (accepted : Label) : Except ProcessError Unit → Label
  | .ok () => accepted
  | .error error => .refused error

/-- The steps of the owner, with what is shown. -/
inductive Step : Runtime → Shown → Runtime → Prop
  | start (runtime : Runtime) (body : Stream → List UInt8) :
      Step runtime (.started body) (runtime.start body)
  | eventStart {runtime : Runtime} {child : ℕ} (maxChunkBytes timeoutMillis : ℕ) (answers : Start)
      (hchild : child < runtime.handles.length) :
      Step runtime (.of child (runtime.eventLabel child maxChunkBytes
          (runtime.eventStart child maxChunkBytes timeoutMillis answers)))
        (runtime.eventStart child maxChunkBytes timeoutMillis answers).2
  | eventResume {runtime : Runtime} {child maxChunkBytes : ℕ} (answers : Resume)
      (hchild : child < runtime.handles.length)
      -- the registration is the child's, or the child was closed
      (hregistered : ∀ handle, runtime.find child = some handle → handle.event = some maxChunkBytes) :
      Step runtime (.of child (runtime.eventLabel child maxChunkBytes
          (runtime.eventResume child maxChunkBytes answers)))
        (runtime.eventResume child maxChunkBytes answers).2
  | cancel {runtime : Runtime} {child : ℕ} (hchild : child < runtime.handles.length) :
      Step runtime (.of child .cancelled) (runtime.cancel child)
  | writeStdin {runtime : Runtime} {child : ℕ} (data : List UInt8) (exit : Option ProcessExit)
      (allocated : Bool) (hchild : child < runtime.handles.length) :
      Step runtime (.of child (callLabel (.accepted (cstring data))
          (runtime.writeStdin child data exit allocated).1))
        (runtime.writeStdin child data exit allocated).2
  | closeStdin {runtime : Runtime} {child : ℕ} (hchild : child < runtime.handles.length) :
      Step runtime (.of child (callLabel .stdinClosed (runtime.closeStdin child).1))
        (runtime.closeStdin child).2
  | tryWait {runtime : Runtime} {child : ℕ} (exit : Option ProcessExit)
      (hchild : child < runtime.handles.length) :
      Step runtime (.of child .waited) (runtime.tryWait child exit).2
  | terminate {runtime : Runtime} {child : ℕ} (exit : Option ProcessExit) (killFails : Bool)
      (hchild : child < runtime.handles.length) :
      Step runtime (.of child .terminated) (runtime.terminate child exit killFails).2
  | exitDelivered {runtime : Runtime} {child : ℕ} (exit : ProcessExit)
      (hchild : child < runtime.handles.length) :
      Step runtime (.of child .exitFound) (runtime.lookUpExit child (some exit))
  | closeChild {runtime : Runtime} {child : ℕ} (hchild : child < runtime.handles.length) :
      Step runtime (.of child .closed) (runtime.closeChild child)
  | shutDown (runtime : Runtime) : Step runtime .shutDown runtime.shutDown

end Runtime

end Nomo.Processes
