import Nomo.Async.Channel
import Nomo.Async.Executor

/-!
# What a program does to the runtime

The generated poll functions and the executor act on the runtime by calling its
operations one after another: there is one thread. `Operation` lists the
operations that reach the ready queue, the wait queues, the timers and the select
tokens, with the code the emitter writes around them for structured children
(host_async_executor_helpers.rs:2312–2379, 2545–2615, 5136–5165, 5525–5545).

`Legal` is what the emitted code makes sure of before it calls an operation: a
registration is started only when it is not in use, an arm of a select is
cancelled through its token, and it is resumed only after it has won.
-/

namespace Nomo.Async

open Nomo.Lib

universe u

namespace Runtime

variable {V : Type u}

/-! ## Structured children -/

/-- The structured spawn: the child's frame is initialised and enqueued; a full
queue completes the child at once, and the spawn reports `queue_full`
(5136–5165). -/
def structuredSpawn (s : Runtime V) (child : Task) : Runtime V :=
  match (s.setJoin child.frame {}).readyEnqueue child with
  | (true, s) => s
  | (false, s) => s.setJoin child.frame { structuredCompleted := true }

/-- The completion of a structured child: whoever joins it is claimed and woken
(2312–2361). -/
def structuredComplete (s : Runtime V) (child : FrameId) : Runtime V :=
  let join := s.joins child
  let s := s.setJoin child { join with structuredCompleted := true }
  match join.waiterSelectToken with
  | some t =>
    let s := s.setJoin child { s.joins child with waiterSelectToken := none, waiter := none }
    match s.selectClaim t join.waiterSelectArm with
    | (true, s) => s.selectWake t
    | (false, s) => s
  | none =>
    match join.waiter with
    | none => s
    | some task =>
      let s := s.enqueueOrFail (some task)
      s.setJoin child { s.joins child with waiter := none }

/-- A join that has to wait (5525–5545). -/
def joinWait (s : Runtime V) (child : FrameId) : Runtime V :=
  { s.setJoin child { s.joins child with waiter := s.current } with pendingReason := .join }

/-- A join arm of a select that has to wait (3019–3045). -/
def joinSelectWait (s : Runtime V) (child : FrameId) (t : TokenId) (arm : Nat) : Runtime V :=
  (s.setJoin child { s.joins child with
      waiter := s.current, waiterSelectToken := some t, waiterSelectArm := arm }).selectRegister
    t arm (.join child)

/-- One slot of the compaction: a slot of the cancelled frame is cleared, any
other is moved down to the `kept`-th place. -/
def cancelReadySlot (frame : FrameId) (acc : RingBuffer Task × Nat) (offset : Nat) :
    RingBuffer Task × Nat :=
  let (ring, kept) := acc
  let source := (ring.head + offset) % readyCapacity
  let destination := (ring.head + kept) % readyCapacity
  let task := (ring.slots[source]?).join
  if task.map (·.frame) = some frame then
    ({ ring with slots := ring.slots.set source none }, kept)
  else if destination = source then
    (ring, kept + 1)
  else
    ({ ring with slots := (ring.slots.set destination task).set source none }, kept + 1)

/-- `nomo_async_ready_cancel_frame` (4287–4314). -/
def readyCancelFrame (s : Runtime V) (frame : FrameId) : Runtime V :=
  let (ring, kept) := (List.range s.ready.count).foldl (cancelReadySlot frame) (s.ready, 0)
  { s with ready := { ring with count := kept, tail := (ring.head + kept) % readyCapacity } }

/-- The end of the cancel function of a child: nobody waits for it any more
(2605–2611). -/
def structuredCancelled (s : Runtime V) (child : FrameId) : Runtime V :=
  s.setJoin child { structuredCompleted := true }

/-! ## Polling -/

/-- Take the next task from the ready queue and make it the current one
(4633–4645, 4680–4686). -/
def pollNext (s : Runtime V) : Runtime V :=
  match s.readyDequeue with
  | (none, s) => s
  | (some task, s) => { s with current := some task, pendingReason := .none }

end Runtime

/-! ## Operations -/

/-- A call into the runtime. -/
inductive Operation (V : Type u)
  | pollRoot (root : Task)
  | pollNext
  | pollDone
  | yield (task : Task)
  | spawn (child : Task)
  | complete (child : FrameId)
  | joinWait (child : FrameId)
  | joinSelectWait (child : FrameId) (token : TokenId) (arm : Nat)
  | cancelFrame (frame : FrameId)
  | cancelled (child : FrameId)
  | channelNew (address : Option ChannelId) (elementSize capacity : Nat)
  | retainHandle (channel : ChannelId)
  | releaseHandle (channel : ChannelId)
  | trySend (channel : ChannelId) (value : V)
  | tryReceive (channel : ChannelId)
  | close (channel : ChannelId)
  | sendStart (r : SendRegId) (channel : ChannelId) (value : V)
      (selectToken : Option TokenId) (selectArm : Nat)
  | sendResume (r : SendRegId)
  | sendCancel (r : SendRegId)
  | receiveStart (r : ReceiveRegId) (channel : ChannelId)
      (selectToken : Option TokenId) (selectArm : Nat)
  | receiveResume (r : ReceiveRegId)
  | receiveCancel (r : ReceiveRegId)
  | selectInit (token : TokenId) (armCount : Nat)
  | selectRegister (token : TokenId) (arm : Nat) (target : CancelTarget)
  | selectImmediateWin (token : TokenId) (arm : Nat)
  | selectSuspend (token : TokenId)
  | selectComplete (token : TokenId) (winner : Nat)
  | selectCancel (token : TokenId)
  | timerStart (r : TimerRegId) (durationMillis now : Int)
      (selectToken : Option TokenId) (selectArm : Nat)
  | timerResume (r : TimerRegId)
  | timerDisarm (r : TimerRegId)
  | timerExpire (slot : Nat)
  | ioComplete (task : Task)

namespace Operation

variable {V : Type u}

/-- The runtime after an operation. -/
def apply : Operation V → Runtime V → Runtime V
  | pollRoot root, s => { s with current := some root, pendingReason := .none }
  | pollNext, s => s.pollNext
  | pollDone, s => { s with current := none }
  | yield task, s => (s.readyEnqueue task).2
  | spawn child, s => s.structuredSpawn child
  | complete child, s => s.structuredComplete child
  | joinWait child, s => s.joinWait child
  | joinSelectWait child t arm, s => s.joinSelectWait child t arm
  | cancelFrame frame, s => s.readyCancelFrame frame
  | cancelled child, s => s.structuredCancelled child
  | channelNew address size capacity, s => (s.channelNew address size capacity).2
  | retainHandle c, s => s.channelRetainHandle (some c)
  | releaseHandle c, s => s.channelReleaseHandle (some c)
  | trySend c v, s => (s.channelTrySend (some c) v).2
  | tryReceive c, s => (s.channelTryReceive (some c)).2
  | close c, s => s.channelClose (some c)
  | sendStart r c v t arm, s => (s.channelSendStart r (some c) v t arm).2.2
  | sendResume r, s => (s.channelSendResume r).2.2
  | sendCancel r, s => s.channelSendCancel r
  | receiveStart r c t arm, s => (s.channelReceiveStart r (some c) t arm).2.2
  | receiveResume r, s => (s.channelReceiveResume r).2.2
  | receiveCancel r, s => s.channelReceiveCancel r
  | selectInit t arms, s => s.selectInit t arms
  | selectRegister t arm target, s => s.selectRegister t arm target
  | selectImmediateWin t arm, s => (s.selectImmediateWin t arm).2
  | selectSuspend t, s => s.selectSuspend t
  | selectComplete t winner, s => s.selectComplete t winner
  | selectCancel t, s => s.selectCancel t
  | timerStart r duration now t arm, s => (s.timerStart r duration now t arm).2.2
  | timerResume r, s => (s.timerResume r).2.2
  | timerDisarm r, s => s.timerDisarm r
  | timerExpire slot, s => (s.fireTimer slot).2
  | ioComplete task, s => s.enqueueOrFail (some task)

/-- A registration of a select is cancelled and resumed by the select only:
resumed when an arm has won. -/
def ResumeLegal (s : Runtime V) (reg : ChannelRegistration V) : Prop :=
  ∀ t, reg.selectToken = some t → (s.tokens t).winner.isSome

/-- A registration enters a token under the arm it was started for. -/
def RegisterLegal (reg : ChannelRegistration V) (t : TokenId) (arm : Nat) : Prop :=
  reg.active = true ∧ reg.selectToken = some t ∧ reg.selectArm = arm

/-- A token holds registrations of its own select: one that is in use waits for
this token. -/
def CancelLegal (s : Runtime V) (t : TokenId) : Prop :=
  ∀ arm,
    (∀ r, (s.tokens t).registrations arm = some (.send r) →
      (s.sendRegistrations r).active = true →
      (s.sendRegistrations r).selectToken = some t) ∧
    (∀ r, (s.tokens t).registrations arm = some (.receive r) →
      (s.receiveRegistrations r).active = true →
      (s.receiveRegistrations r).selectToken = some t)

/-- What the emitted code makes sure of before an operation. -/
def Legal : Operation V → Runtime V → Prop
  | channelNew address _ _, s => ∀ c, address = some c → s.channels c = none
  | sendStart r _ _ _ _, s => (s.sendRegistrations r).active = false
  | receiveStart r _ _ _, s => (s.receiveRegistrations r).active = false
  | sendResume r, s => ResumeLegal s (s.sendRegistrations r)
  | receiveResume r, s => ResumeLegal s (s.receiveRegistrations r)
  | sendCancel r, s => (s.sendRegistrations r).selectToken = none
  | receiveCancel r, s => (s.receiveRegistrations r).selectToken = none
  | selectRegister t arm (.send r), s => RegisterLegal (s.sendRegistrations r) t arm
  | selectRegister t arm (.receive r), s => RegisterLegal (s.receiveRegistrations r) t arm
  | selectCancel t, s => CancelLegal s t
  | timerExpire _, s => s.ready.count = 0
  | _, _ => True

end Operation

/-- A run: legal operations, each of which also meets `P`, from one state to
another. -/
inductive Runs {V : Type u} (P : Operation V → Runtime V → Prop) :
    Runtime V → Runtime V → Prop
  | refl (s : Runtime V) : Runs P s s
  | step {s s' : Runtime V} (op : Operation V) :
      Runs P s s' → op.Legal s' → P op s' → Runs P s (op.apply s')

/-- **The invariant rule for runs**: what one legal step preserves, a run
preserves. -/
theorem Runs.invariant {V : Type u} {P : Operation V → Runtime V → Prop}
    {I : Runtime V → Prop}
    (hstep : ∀ op s, op.Legal s → P op s → I s → I (op.apply s))
    {s s' : Runtime V} (hrun : Runs P s s') (h : I s) : I s' := by
  induction hrun with
  | refl => exact h
  | step op _ hlegal hp ih => exact hstep op _ hlegal hp ih

end Nomo.Async
