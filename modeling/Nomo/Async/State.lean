import Nomo.Lib.RingBuffer

/-!
# The state of the current-thread async runtime

The emitted C program runs all its tasks on one thread, over one
`nomo_async_context` (host_async_executor_helpers.rs:3720–3912), the channel
control blocks (host_channel_helpers.rs:15–200) and the registration records
embedded in the task frames. `Runtime V` gathers them, for channels whose
elements are values of `V`.

A pointer is an identifier here, `NULL` is `none`, and the memory a kind of
pointer can point to is a function from identifiers. A control block that has
been freed is `none` in `channels`. The intrusive wait queues are lists of
registrations, front first. The counters that only `nomo_async_metrics_export`
reads are left out, as no function of the runtime branches on them, but for
`readyQueueSaturations`: it tells how often the ready queue was full when a task
should have entered it.

`released` records the values handed to the element type's release function, in
order. It is the trace of the calls the C code makes there.
-/

namespace Nomo.Async

open Nomo.Lib

universe u

/-- A task frame (`void *frame`). -/
abbrev FrameId := Nat

/-- A poll function (`nomo_async_poll_fn`). -/
abbrev PollFn := Nat

/-- A channel control block. -/
abbrev ChannelId := Nat

/-- A send registration embedded in a frame. -/
abbrev SendRegId := Nat

/-- A receive registration embedded in a frame. -/
abbrev ReceiveRegId := Nat

/-- A timer registration embedded in a frame. -/
abbrev TimerRegId := Nat

/-- A select token embedded in a frame. -/
abbrev TokenId := Nat

/-- A frame with its poll function: what the ready queue and the timers hold. -/
structure Task where
  frame : FrameId
  poll : PollFn
deriving Repr, DecidableEq

/-- `nomo_async_poll`. -/
inductive Poll
  | ready
  | pending
deriving Repr, DecidableEq

/-- `nomo_async_pending_reason`. -/
inductive PendingReason
  | none
  | yield
  | timer
  | join
  | panic
  | cancel
  | channel
  | select
  | io
deriving Repr, DecidableEq

/-- `nomo_async_timer_outcome`. -/
inductive TimerOutcome
  | none
  | ok
  | limit
  | runtimeError
deriving Repr, DecidableEq

/-- `NOMO_ASYNC_READY_CAPACITY`. -/
def readyCapacity : Nat := 64

/-- `NOMO_ASYNC_TIMER_CAPACITY`. -/
def timerCapacity : Nat := 64

/-- `NOMO_ASYNC_SELECT_MAX_ARMS`. -/
def selectMaxArms : Nat := 8

/-- A registration pointer of a select token with its cancel function
(`registrations[arm]`, `cancel[arm]`). -/
inductive CancelTarget
  | send (registration : SendRegId)
  | receive (registration : ReceiveRegId)
  | timer (registration : TimerRegId)
  | join (child : FrameId)
deriving Repr, DecidableEq

/-- `nomo_async_select_token`. `winner = none` is `NOMO_ASYNC_SELECT_PENDING`. -/
structure SelectToken where
  task : Option Task := none
  registrations : Nat → Option CancelTarget := fun _ => none
  armCount : Nat := 0
  winner : Option Nat := none
  active : Bool := false
  suspended : Bool := false
  enqueued : Bool := false

/-- `nomo_async_timer_registration`. -/
structure TimerRegistration where
  slot : Nat := 0
  generation : Nat := 0
  deadlineMillis : Int := 0
  selectToken : Option TokenId := none
  selectArm : Nat := 0
  armed : Bool := false
  expired : Bool := false
deriving Repr, DecidableEq

/-- `nomo_async_timer_slot`. -/
structure TimerSlot where
  registration : Option TimerRegId := none
  task : Option Task := none
  deadlineMillis : Int := 0
  generation : Nat := 0
  occupied : Bool := false
deriving Repr, DecidableEq

/-- `nomo_channel_send_registration` and `nomo_channel_receive_registration`:
the two records have the same fields. -/
structure ChannelRegistration (V : Type u) where
  control : Option ChannelId := none
  context : Bool := false
  task : Option Task := none
  selectToken : Option TokenId := none
  selectArm : Nat := 0
  value : Option V := none
  valueOwned : Bool := false
  registered : Bool := false
  active : Bool := false
  ready : Bool := false
  closed : Bool := false
deriving Repr, DecidableEq

/-- `nomo_channel_control`, with its base and its two wait queues. -/
structure ChannelControl (V : Type u) where
  references : Nat
  closed : Bool
  buffer : RingBuffer V
  sendQueue : List SendRegId
  receiveQueue : List ReceiveRegId
deriving Repr, DecidableEq

/-- The fields of a child frame that its joiner reads and writes
(`structured_completed`, `structured_waiter_*`). -/
structure JoinState where
  structuredCompleted : Bool := false
  waiter : Option Task := none
  waiterSelectToken : Option TokenId := none
  waiterSelectArm : Nat := 0
deriving Repr, DecidableEq

/-- The runtime: the context of the executor and everything its pointers
reach. -/
structure Runtime (V : Type u) where
  ready : RingBuffer Task := .empty readyCapacity
  readyQueueSaturations : Nat := 0
  timers : List TimerSlot := List.replicate timerCapacity {}
  nextTimerGeneration : Nat := 0
  liveTimers : Nat := 0
  liveRegistrations : Nat := 0
  current : Option Task := none
  pendingReason : PendingReason := .none
  runtimeFailed : Bool := false
  panicking : Bool := false
  timerRegistrations : TimerRegId → TimerRegistration := fun _ => {}
  tokens : TokenId → SelectToken := fun _ => {}
  sendRegistrations : SendRegId → ChannelRegistration V := fun _ => {}
  receiveRegistrations : ReceiveRegId → ChannelRegistration V := fun _ => {}
  channels : ChannelId → Option (ChannelControl V) := fun _ => none
  joins : FrameId → JoinState := fun _ => {}
  released : List V := []

namespace Runtime

variable {V : Type u}

/-- Overwrite one send registration. -/
def setSend (s : Runtime V) (r : SendRegId) (reg : ChannelRegistration V) : Runtime V :=
  { s with sendRegistrations := Function.update s.sendRegistrations r reg }

/-- Overwrite one receive registration. -/
def setReceive (s : Runtime V) (r : ReceiveRegId) (reg : ChannelRegistration V) :
    Runtime V :=
  { s with receiveRegistrations := Function.update s.receiveRegistrations r reg }

/-- Overwrite one timer registration. -/
def setTimer (s : Runtime V) (r : TimerRegId) (reg : TimerRegistration) : Runtime V :=
  { s with timerRegistrations := Function.update s.timerRegistrations r reg }

/-- Overwrite one select token. -/
def setToken (s : Runtime V) (t : TokenId) (token : SelectToken) : Runtime V :=
  { s with tokens := Function.update s.tokens t token }

/-- Overwrite one control block (`none` frees it). -/
def setChannel (s : Runtime V) (c : ChannelId) (control : Option (ChannelControl V)) :
    Runtime V :=
  { s with channels := Function.update s.channels c control }

/-- Overwrite the join fields of one child frame. -/
def setJoin (s : Runtime V) (f : FrameId) (join : JoinState) : Runtime V :=
  { s with joins := Function.update s.joins f join }

/-- Hand a value to the element type's release function. -/
def release (s : Runtime V) (v : Option V) : Runtime V :=
  { s with released := s.released ++ v.toList }

/-- `nomo_async_ready_enqueue` (host_async_executor_helpers.rs:4133–4149): the
result is nonzero (`false` here) when the queue is full. -/
def readyEnqueue (s : Runtime V) (task : Task) : Bool × Runtime V :=
  if s.ready.count = readyCapacity then
    (false, { s with readyQueueSaturations := s.readyQueueSaturations + 1 })
  else
    (true, { s with ready := s.ready.push task })

/-- `nomo_async_ready_dequeue` (4268–4284). -/
def readyDequeue (s : Runtime V) : Option Task × Runtime V :=
  if s.ready.count = 0 then
    (none, s)
  else
    (s.ready.front, { s with ready := s.ready.pop })

/-- Enqueue a task that has to be woken; a full queue fails the runtime
(`if (nomo_async_ready_enqueue(..) != 0) context->runtime_failed = 1u`). -/
def enqueueOrFail (s : Runtime V) (task : Option Task) : Runtime V :=
  match task with
  | none => s
  | some task =>
    match s.readyEnqueue task with
    | (true, s) => s
    | (false, s) => { s with runtimeFailed := true }

end Runtime

end Nomo.Async
