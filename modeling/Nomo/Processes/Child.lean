import Nomo.Streams.Utf8
import Nomo.Lib.Labelled

/-!
# Child processes and their pipes

What the parent keeps of a child process, for its events: the blocking implementation
(host_process_control.c) and the asynchronous one (host_async_process_unix.c) keep the same fields. They
also share the operations on a stream, on the payload for the child's input, and on the exit status; where
they differ stands in their own modules.

The outside is a process's pipes: what the child has written and still will write to an output stream and
was not read yet, and what has reached its input. An answer of the system says how much a read or a write
transfers, so that every way the pipes deliver the bytes is a sequence of answers.
-/

namespace Nomo.Processes

open Nomo.Streams (utf8Prefix)

/-! ## Data -/

/-- `NOMO_PROCESS_MAX_PAYLOAD_BYTES`, and the same of the asynchronous implementation. -/
def maxPayloadBytes : ℕ := 1024 * 1024

/-- `NOMO_PROCESS_MAX_TIMEOUT_MILLIS`. -/
def maxTimeoutMillis : ℕ := 15 * 60 * 1000

/-- `NOMO_PROCESS_BUFFER_SLACK`. -/
def bufferSlack : ℕ := 4

/-- The size of the array that a read fills. -/
def chunkSize : ℕ := 4096

/-- `ProcessControlError`. -/
structure ProcessError where
  code : String
  message : String
deriving DecidableEq, Repr

/-- `ProcessExit`. -/
structure ProcessExit where
  code : ℤ
  signal : ℤ
deriving DecidableEq, Repr

/-- The two output streams: `is_stderr`. -/
inductive Stream
  | stdout
  | stderr
deriving DecidableEq, Repr

/-- `!is_stderr`. -/
def Stream.other : Stream → Stream
  | .stdout => .stderr
  | .stderr => .stdout

/-- `ProcessEvent`. -/
inductive ProcessEvent
  | text (stream : Stream) (text : List UInt8)
  | stdinFlushed
  | exited (exit : ProcessExit)
deriving DecidableEq, Repr

/-- What the parent keeps of an output stream: its buffer, that its descriptor is not negative, and that
it has come to its end. -/
structure Output where
  buffer : List UInt8
  fdOpen : Bool
  eof : Bool
deriving DecidableEq, Repr

/-- What the parent keeps of a child for its events. -/
structure Child where
  output : Stream → Output
  stdinOpen : Bool
  stdinClosed : Bool
  stdinPending : Bool
  stdinFlushed : Bool
  stdinData : List UInt8
  stdinOffset : ℕ
  exited : Bool
  exitInfo : ProcessExit
  exitEmitted : Bool
  preferStderr : Bool

/-- A child with its pipes: what is unread of its output streams, and what has reached its input. -/
structure Process where
  child : Child
  unread : Stream → List UInt8
  piped : List UInt8

/-- A child that was started and writes these bytes to its output streams. -/
def Process.started (body : Stream → List UInt8) : Process where
  child :=
    { output := fun _ => { buffer := [], fdOpen := true, eof := false }
      stdinOpen := true
      stdinClosed := false
      stdinPending := false
      stdinFlushed := false
      stdinData := []
      stdinOffset := 0
      exited := false
      exitInfo := { code := 0, signal := 0 }
      exitEmitted := false
      preferStderr := false }
  unread := body
  piped := []

/-! ## Answers of the system -/

/-- How a `read` ends: with at most so many bytes more than one, with `EAGAIN`, at the end, or with an
error. The end comes only when nothing is unread; before the end and without anything to read there is
`EAGAIN`. -/
inductive Read
  | bytes (more : ℕ)
  | again
  | ended
  | failed
deriving DecidableEq, Repr

/-- How a `write` ends: with at most so many bytes more than one, with `EAGAIN`, or with an error. -/
inductive Write
  | bytes (more : ℕ)
  | again
  | failed
deriving DecidableEq, Repr

/-! ## Errors -/

def invalidRequest (message : String) : ProcessError := { code := "invalid_request", message := message }

def closedError (message : String) : ProcessError := { code := "closed", message := message }

def busyError (message : String) : ProcessError := { code := "busy", message := message }

def invalidEventLimit : ProcessError := invalidRequest "invalid process event limit or timeout"
def invalidPayload : ProcessError := invalidRequest "invalid process stdin payload"
def stdinBusy : ProcessError := busyError "process stdin already has pending data"
def stdinStillBusy : ProcessError := busyError "process stdin still has pending data"
def notText : ProcessError :=
  { code := "protocol", message := "process output is not valid supported text" }
def timedOut : ProcessError := { code := "timeout", message := "process event timed out" }
def readFailed : ProcessError := { code := "io", message := "process output read failed" }
def writeFailed : ProcessError := { code := "io", message := "process stdin write failed" }

namespace Process

/-! ## Writes to a child -/

/-- A write to what is kept of an output stream. -/
def setOutput (process : Process) (stream : Stream) (output : Output) : Process :=
  { process with
    child := { process.child with output := Function.update process.child.output stream output } }

/-- `update_exit`, where `waitpid` has found the exit. -/
def updateExit (process : Process) (exit : Option ProcessExit) : Process :=
  match exit with
  | none => process
  | some exit =>
    if process.child.exited then process
    else { process with child := { process.child with exited := true, exitInfo := exit } }

/-! ## Output -/

/-- What `emit_stream` does: nothing, it finds that the output is not text, or it emits a text. -/
inductive Emitted
  | nothing
  | broken
  | text (stream : Stream) (text : List UInt8)
deriving DecidableEq, Repr

/-- `emit_stream`. -/
def emitStream (process : Process) (stream : Stream) (maxChunkBytes : ℕ) : Emitted × Process :=
  let output := process.child.output stream
  if output.buffer.length = 0 then (.nothing, process)
  else match utf8Prefix output.buffer maxChunkBytes output.eof with
    | none => (.broken, process)
    | some count =>
      if count = 0 then (.nothing, process)
      else
        let consumed := process.setOutput stream { output with buffer := output.buffer.drop count }
        (.text stream (output.buffer.take count),
          { consumed with child := { consumed.child with preferStderr := stream = .stdout } })

/-- The two calls of `emit_stream` in a `next_event`: the preferred stream first. -/
def emitEither (process : Process) (maxChunkBytes : ℕ) : Emitted × Process :=
  let first := if process.child.preferStderr then Stream.stderr else .stdout
  match process.emitStream first maxChunkBytes with
  | (.nothing, _) => process.emitStream first.other maxChunkBytes
  | emitted => emitted

/-- What a read of a stream brings, with room for so many bytes: the bytes, or none at the end. -/
def delivered (process : Process) (stream : Stream) (answer : Read) (available : ℕ) :
    Except Unit (Option (List UInt8)) :=
  match answer with
  | .bytes more => .ok (some ((process.unread stream).take (min (more + 1) available)))
  | .again => .ok (some [])
  | .ended => .ok (if process.unread stream = [] then none else some [])
  | .failed => .error ()

/-- `read_stream`; false is that the read has failed. -/
def readStream (process : Process) (stream : Stream) (target : ℕ) (answer : Read) : Bool × Process :=
  let output := process.child.output stream
  if output.fdOpen = false ∨ target ≤ output.buffer.length then (true, process)
  else
    match process.delivered stream answer (min (target - output.buffer.length) chunkSize) with
    | .error () => (false, process)
    | .ok none => (true, process.setOutput stream { output with fdOpen := false, eof := true })
    | .ok (some bytes) =>
      (true,
        { process.setOutput stream { output with buffer := output.buffer ++ bytes } with
          unread := Function.update process.unread stream ((process.unread stream).drop bytes.length) })

/-- The exit is reported where the child has exited and its output was reported in full. -/
def exitDue (process : Process) : Bool :=
  process.child.exited && (process.child.output .stdout).eof && (process.child.output .stderr).eof &&
    (process.child.output .stdout).buffer.length = 0 && (process.child.output .stderr).buffer.length = 0

/-! ## Input -/

/-- What is left of a pending payload. -/
def remaining (process : Process) : List UInt8 :=
  if process.child.stdinPending then process.child.stdinData.drop process.child.stdinOffset else []

/-- A payload is accepted. -/
def accept (process : Process) (payload : List UInt8) : Process :=
  { process with
    child := { process.child with
      stdinData := payload
      stdinOffset := 0
      stdinPending := true
      stdinFlushed := false } }

/-- A `write` of what is left of the payload; false is that it has failed. -/
def writeStdin (process : Process) (answer : Write) : Bool × Process :=
  match answer with
  | .bytes more =>
    let written := process.remaining.take (more + 1)
    let offset := process.child.stdinOffset + written.length
    (true,
      { process with
        piped := process.piped ++ written
        child := if offset = process.child.stdinData.length then
            { process.child with
              stdinData := []
              stdinOffset := 0
              stdinPending := false
              stdinFlushed := true }
          else { process.child with stdinOffset := offset } })
  | .again => (true, process)
  | .failed =>
    (false,
      { process with
        child := { process.child with
          stdinData := []
          stdinOffset := 0
          stdinPending := false
          stdinClosed := true
          stdinOpen := false } })

/-- `close_stdin`, where nothing is pending. -/
def closeStdin (process : Process) : Process :=
  if process.child.stdinClosed then process
  else { process with child := { process.child with stdinOpen := false, stdinClosed := true } }

end Process

end Nomo.Processes
