import Nomo.Lib.AssocList
import Nomo.Lib.Labelled

/-!
# Isolated worker tasks

The registry of isolated workers (host_task.c:85–412): the functions that the owner calls, and what a
worker's thread does when its function has returned. What happens under the lock is one step.

There is one owner, since a worker may not start workers of its own; while it waits in `join` it makes no
other call. A worker's function is left open: it may ask whether it is cancelled, and return any text.
-/

namespace Nomo.Workers

open Nomo.Lib

/-! ## Data -/

/-- `NOMO_TASK_MAX_LIVE`. -/
def maxLive : ℕ := 64

/-- `NOMO_TASK_MAX_MESSAGE_BYTES`. -/
def maxMessageBytes : ℕ := 8 * 1024 * 1024

/-- `NOMO_TASK_MAX_JOIN_TIMEOUT_MS`. -/
def maxJoinTimeout : ℕ := 900000

/-- `TaskError`. -/
structure TaskError where
  code : String
  message : String
deriving DecidableEq, Repr

/-- `TaskJoin`. -/
inductive TaskJoin
  | completed (output : List UInt8)
  | cancelled
  | timeout
deriving DecidableEq, Repr

/-- `outcome`: 0, 1, 2 and 3. -/
inductive Outcome
  | completed
  | cancelled
  | outputTooLarge
  | outputNotCopied
deriving DecidableEq, Repr

/-- `nomo_task_state`. That the thread was created stands for the field `thread`. -/
structure TaskState where
  handle : ℕ
  input : Option (List UInt8)
  output : Option (List UInt8)
  cancelRequested : Bool
  finished : Bool
  outcome : Outcome
  threadCreated : Bool
deriving DecidableEq, Repr

/-- The registry: `nomo_task_registry`, `nomo_task_next_handle` and `nomo_task_live_count`. -/
structure Registry where
  tasks : List TaskState
  nextHandle : ℕ
  liveCount : ℕ
deriving DecidableEq, Repr

def Registry.empty : Registry where
  tasks := []
  nextHandle := 1
  liveCount := 0

/-! ## Errors -/

def workerIsNull : TaskError := { code := "invalid_argument", message := "task worker is null" }
def inputTooLarge : TaskError := { code := "limit", message := "task input exceeds 8 MiB" }
def noInputMemory : TaskError := { code := "resource", message := "could not allocate task input" }
def noStateMemory : TaskError := { code := "resource", message := "could not allocate task state" }
def noCondition : TaskError := { code := "spawn", message := "could not initialize task state" }
def tooManyLive : TaskError := { code := "limit", message := "at most 64 live tasks are allowed" }
def noMoreHandles : TaskError := { code := "limit", message := "task handle space is exhausted" }
def noThread : TaskError := { code := "spawn", message := "could not start native task" }
def timeoutTooLong : TaskError :=
  { code := "invalid_argument", message := "task join timeout exceeds 900000 ms" }
def handleClosed : TaskError := { code := "closed", message := "task handle is closed or invalid" }
def noClock : TaskError := { code := "clock", message := "could not read task join clock" }
def noWait : TaskError := { code := "wait", message := "could not wait for task" }
def outputLimit : TaskError := { code := "limit", message := "task output exceeds 8 MiB" }
def outputResource : TaskError := { code := "resource", message := "could not copy task output" }
def stillRunning : TaskError := { code := "busy", message := "task is still running" }

/-! ## The registry -/

namespace Registry

/-- `nomo_task_find_locked`. -/
def find (registry : Registry) (handle : ℕ) : Option TaskState :=
  Keyed.find TaskState.handle registry.tasks handle

/-- `nomo_task_remove_locked`; a task is known by its handle. -/
def remove (registry : Registry) (handle : ℕ) : Registry :=
  if (registry.find handle).isSome then
    { registry with
      tasks := Keyed.remove TaskState.handle registry.tasks handle
      liveCount := if 0 < registry.liveCount then registry.liveCount - 1 else registry.liveCount }
  else registry

/-- A write to the state of a task. -/
def modify (registry : Registry) (handle : ℕ) (f : TaskState → TaskState) : Registry :=
  { registry with tasks := Keyed.modify TaskState.handle registry.tasks handle f }

/-- The locked part of `spawn`. -/
def register (registry : Registry) (input : List UInt8) : Except TaskError (ℕ × Registry) :=
  if maxLive ≤ registry.liveCount then .error tooManyLive
  else if registry.nextHandle = 0 then .error noMoreHandles
  else
    let task : TaskState :=
      { handle := registry.nextHandle
        input := some input
        output := none
        cancelRequested := false
        finished := false
        outcome := .completed
        threadCreated := false }
    .ok (registry.nextHandle,
      { tasks := task :: registry.tasks
        nextHandle := (registry.nextHandle + 1) % 2 ^ 64
        liveCount := registry.liveCount + 1 })

/-- `is_cancelled`. -/
def isCancelled (registry : Registry) (handle : ℕ) : Bool :=
  match registry.find handle with
  | none => false
  | some task => task.cancelRequested

/-- `cancel`. -/
def cancel (registry : Registry) (handle : ℕ) : Except TaskError Unit × Registry :=
  match registry.find handle with
  | none => (.error handleClosed, registry)
  | some task =>
    (.ok (), if task.finished then registry
      else registry.modify handle fun task => { task with cancelRequested := true })

/-- `close`. -/
def close (registry : Registry) (handle : ℕ) : Except TaskError Unit × Registry :=
  match registry.find handle with
  | none => (.error handleClosed, registry)
  | some task =>
    if task.finished then (.ok (), registry.remove handle) else (.error stillRunning, registry)

end Registry

/-! ## Spawning -/

/-- What may go wrong in `spawn` before the lock. -/
structure Preparation where
  workerIsNull : Bool
  inputCopied : Bool
  stateAllocated : Bool
  conditionInitialized : Bool
deriving DecidableEq, Repr

/-- `spawn` before the lock: its error, if it comes to one. -/
def Preparation.error (preparation : Preparation) (input : List UInt8) : Option TaskError :=
  if preparation.workerIsNull then some Workers.workerIsNull
  else if maxMessageBytes < input.length then some inputTooLarge
  else if !preparation.inputCopied then some noInputMemory
  else if !preparation.stateAllocated then some noStateMemory
  else if !preparation.conditionInitialized then some noCondition
  else none

/-! ## Completion -/

/-- What a worker's thread makes of the text that its function has returned. -/
def workerOutcome (output : List UInt8) (copied : Bool) : Outcome × Option (List UInt8) :=
  if maxMessageBytes < output.length then (.outputTooLarge, none)
  else if copied then (.completed, some output)
  else (.outputNotCopied, none)

namespace TaskState

/-- The locked part of `nomo_task_thread_main`. -/
def complete (task : TaskState) (outcome : Outcome) (output : Option (List UInt8)) : TaskState :=
  if task.cancelRequested then
    { task with input := none, output := none, outcome := .cancelled, finished := true }
  else { task with input := none, output := output, outcome := outcome, finished := true }

/-- The end of `join`, for a task that is finished. -/
def result (task : TaskState) : Except TaskError TaskJoin :=
  match task.outcome with
  | .outputTooLarge => .error outputLimit
  | .outputNotCopied => .error outputResource
  | .cancelled => .ok .cancelled
  | .completed => .ok (.completed (task.output.getD []))

end TaskState

/-! ## Joining -/

/-- `join` up to where it waits: its result, or none if it waits. -/
def joinBegin (registry : Registry) (handle timeoutMillis : ℕ) (clockRead : Bool) :
    Option (Except TaskError TaskJoin) :=
  if maxJoinTimeout < timeoutMillis then some (.error timeoutTooLong)
  else match registry.find handle with
    | none => some (.error handleClosed)
    | some task =>
      if !task.finished && timeoutMillis = 0 then some (.ok .timeout)
      else if task.finished then some task.result
      else if clockRead then none
      else some (.error noClock)

/-- How a wait on the condition ends. On Windows the time is looked at after every wait. -/
inductive Wait
  | woken
  | interrupted
  | timedOut
  | failed
deriving DecidableEq, Repr

/-- The two implementations of waiting. -/
inductive Platform
  | posix
  | windows (elapsed : Bool)
deriving DecidableEq, Repr

/-- A round of the loop of `join` after a wait: its result, or none if it waits again. -/
def joinRound (platform : Platform) (task : TaskState) (wait : Wait) :
    Option (Except TaskError TaskJoin) :=
  match platform with
  | .posix =>
    if wait = .timedOut && !task.finished then some (.ok .timeout)
    else if wait = .timedOut || wait = .failed then some (.error noWait)
    else if task.finished then some task.result
    else none
  | .windows elapsed =>
    if wait = .timedOut && !task.finished then some (.ok .timeout)
    else if wait = .failed then some (.error noWait)
    else if !task.finished && elapsed then some (.ok .timeout)
    else if task.finished then some task.result
    else none

/-! ## Steps -/

/-- Where the owner is: between calls, in `spawn` before and after the thread was created, or in `join`. -/
inductive Owner
  | idle
  | starting (handle : ℕ)
  | started (handle : ℕ)
  | waiting (handle timeoutMillis : ℕ)
deriving DecidableEq, Repr

/-- The registry and its owner. -/
structure System where
  registry : Registry
  owner : Owner
deriving DecidableEq, Repr

def System.initial : System where
  registry := .empty
  owner := .idle

/-- What a step shows: the calls that return, with their results, and the steps in between. -/
inductive Label
  | spawnFailed (error : TaskError)
  | registered (handle : ℕ)
  | startFailed (handle : ℕ)
  | threadCreated (handle : ℕ)
  | spawned (handle : ℕ)
  | asked (handle : ℕ) (answer : Bool)
  | completed (handle : ℕ) (outcome : Outcome) (output : Option (List UInt8))
  | joined (handle timeoutMillis : ℕ) (result : Except TaskError TaskJoin)
  | waits (handle timeoutMillis : ℕ)
  | waitsAgain (handle timeoutMillis : ℕ)
  | waited (handle timeoutMillis : ℕ) (result : Except TaskError TaskJoin)
  | cancelled (handle : ℕ) (result : Except TaskError Unit)
  | closed (handle : ℕ) (result : Except TaskError Unit)
deriving DecidableEq

/-- The steps of the owner and of the workers. -/
inductive Step (platform : Bool → Platform) : System → Label → System → Prop
  | spawnRefused {registry : Registry} {preparation : Preparation} {input : List UInt8}
      {error : TaskError} : preparation.error input = some error →
      Step platform ⟨registry, .idle⟩ (.spawnFailed error) ⟨registry, .idle⟩
  | spawnLimited {registry : Registry} {input : List UInt8} {error : TaskError} :
      registry.register input = .error error →
      Step platform ⟨registry, .idle⟩ (.spawnFailed error) ⟨registry, .idle⟩
  | register {registry registry' : Registry} {preparation : Preparation} {input : List UInt8}
      {handle : ℕ} : preparation.error input = none →
      registry.register input = .ok (handle, registry') →
      Step platform ⟨registry, .idle⟩ (.registered handle) ⟨registry', .starting handle⟩
  | startFailed {registry : Registry} {handle : ℕ} :
      Step platform ⟨registry, .starting handle⟩ (.startFailed handle) ⟨registry.remove handle, .idle⟩
  | createThread {registry : Registry} {handle : ℕ} :
      Step platform ⟨registry, .starting handle⟩ (.threadCreated handle)
        ⟨registry.modify handle fun task => { task with threadCreated := true }, .started handle⟩
  | spawned {registry : Registry} {handle : ℕ} :
      Step platform ⟨registry, .started handle⟩ (.spawned handle) ⟨registry, .idle⟩
  | ask {registry : Registry} {owner : Owner} {handle : ℕ} :
      Step platform ⟨registry, owner⟩ (.asked handle (registry.isCancelled handle)) ⟨registry, owner⟩
  | complete {registry : Registry} {owner : Owner} {handle : ℕ} {task : TaskState}
      {output : List UInt8} {copied : Bool} : registry.find handle = some task →
      task.threadCreated = true → task.finished = false →
      Step platform ⟨registry, owner⟩
        (.completed handle (workerOutcome output copied).1 (workerOutcome output copied).2)
        ⟨registry.modify handle fun task =>
          task.complete (workerOutcome output copied).1 (workerOutcome output copied).2, owner⟩
  | join {registry : Registry} {handle timeoutMillis : ℕ} {clockRead : Bool}
      {result : Except TaskError TaskJoin} :
      joinBegin registry handle timeoutMillis clockRead = some result →
      Step platform ⟨registry, .idle⟩ (.joined handle timeoutMillis result) ⟨registry, .idle⟩
  | wait {registry : Registry} {handle timeoutMillis : ℕ} {clockRead : Bool} :
      joinBegin registry handle timeoutMillis clockRead = none →
      Step platform ⟨registry, .idle⟩ (.waits handle timeoutMillis)
        ⟨registry, .waiting handle timeoutMillis⟩
  | waitAgain {registry : Registry} {handle timeoutMillis : ℕ} {task : TaskState} {wait : Wait}
      {elapsed : Bool} : registry.find handle = some task →
      joinRound (platform elapsed) task wait = none →
      Step platform ⟨registry, .waiting handle timeoutMillis⟩ (.waitsAgain handle timeoutMillis)
        ⟨registry, .waiting handle timeoutMillis⟩
  | waited {registry : Registry} {handle timeoutMillis : ℕ} {task : TaskState} {wait : Wait}
      {elapsed : Bool} {result : Except TaskError TaskJoin} : registry.find handle = some task →
      joinRound (platform elapsed) task wait = some result →
      Step platform ⟨registry, .waiting handle timeoutMillis⟩ (.waited handle timeoutMillis result)
        ⟨registry, .idle⟩
  | cancel {registry : Registry} {handle : ℕ} :
      Step platform ⟨registry, .idle⟩ (.cancelled handle (registry.cancel handle).1)
        ⟨(registry.cancel handle).2, .idle⟩
  | close {registry : Registry} {handle : ℕ} :
      Step platform ⟨registry, .idle⟩ (.closed handle (registry.close handle).1)
        ⟨(registry.close handle).2, .idle⟩

end Nomo.Workers
