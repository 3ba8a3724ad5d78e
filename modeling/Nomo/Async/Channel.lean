import Nomo.Async.Select

/-!
# Bounded channels

The operations of one channel (host_channel_helpers.rs:335–1092): a ring buffer,
a queue of senders that wait for room, and a queue of receivers that wait for a
value. A value that meets a waiting receiver is handed to it directly; a receive
that frees a slot promotes the first waiting sender; `close` wakes everybody.

A waiter that belongs to a `task.select` can only be served after its token has
been claimed for its arm. A waiter whose claim fails is stale and is unlinked.

The loops over the wait queues read the queue from the state again after each
step, because a claim may unlink further waiters. Each step removes the head of
the queue, so its length bounds the number of steps.
-/

namespace Nomo.Async

open Nomo.Lib

universe u

/-- `ChannelError`. -/
structure ChannelError where
  code : String
  message : String
deriving Repr, DecidableEq

/-- `ChannelTrySend<T>`. -/
inductive ChannelTrySend (V : Type u)
  | sent
  | full (value : V)
  | closed (value : V)
  | failed (error : ChannelError) (value : V)
deriving Repr, DecidableEq

/-- `ChannelTryReceive<T>`. -/
inductive ChannelTryReceive (V : Type u)
  | value (value : V)
  | empty
  | closed
deriving Repr, DecidableEq

/-- `Result<void, ChannelSendError<T>>`: an error returns the value. -/
inductive ChannelSendResult (V : Type u)
  | ok
  | err (error : ChannelError) (value : Option V)
deriving Repr, DecidableEq

/-- The error of an operation on a channel without a control block. -/
def runtimeUnavailable : ChannelError :=
  { code := "runtime_unavailable", message := "channel runtime is unavailable" }

/-- The error of a send on a closed channel. -/
def channelIsClosed : ChannelError :=
  { code := "closed", message := "channel is closed" }

/-- The largest number of slots of a channel. -/
def channelSlotLimit : Nat := 65536

/-- The largest number of bytes of a channel buffer. -/
def channelByteLimit : Nat := 67108864

/-- A fresh control block: one reference, no element, nobody waiting. -/
def ChannelControl.fresh {V : Type u} (capacity : Nat) : ChannelControl V :=
  { references := 1, closed := false, buffer := .empty capacity,
    sendQueue := [], receiveQueue := [] }

namespace Runtime

variable {V : Type u}

/-- `nomo_channel_new` for elements of `elementSize` bytes (269–331). `address`
is what the allocator returns, `none` when it fails. -/
def channelNew (s : Runtime V) (address : Option ChannelId) (elementSize capacity : Nat) :
    Except ChannelError ChannelId × Runtime V :=
  if capacity = 0 then
    (.error { code := "invalid_capacity", message := "channel capacity must be at least one" }, s)
  else if channelSlotLimit < capacity || channelByteLimit < capacity * elementSize then
    (.error { code := "capacity_limit",
              message := "channel capacity exceeds the bounded slot limit" }, s)
  else
    match address with
    | none =>
      (.error { code := "allocation", message := "channel storage allocation failed" }, s)
    | some c => (.ok c, s.setChannel c (some (.fresh capacity)))

/-! ## Claiming and waking waiters -/

/-- `nomo_channel_send_claim` (396–404). -/
def channelSendClaim (s : Runtime V) (r : SendRegId) : Bool × Runtime V :=
  match (s.sendRegistrations r).selectToken with
  | none => (true, s)
  | some t => s.selectClaim t (s.sendRegistrations r).selectArm

/-- `nomo_channel_receive_claim` (386–394). -/
def channelReceiveClaim (s : Runtime V) (r : ReceiveRegId) : Bool × Runtime V :=
  match (s.receiveRegistrations r).selectToken with
  | none => (true, s)
  | some t => s.selectClaim t (s.receiveRegistrations r).selectArm

/-- `nomo_channel_send_wake` (405–418) and `nomo_channel_receive_wake`
(419–432). -/
def channelWake (s : Runtime V) (reg : ChannelRegistration V) : Runtime V :=
  match reg.selectToken with
  | some t => s.selectWake t
  | none => s.enqueueOrFail reg.task

/-- The first sender that can be claimed, and the state after the claim. The
stale senders in front of it are unlinked. -/
def claimSender (c : ChannelId) : Nat → Runtime V → Option SendRegId × Runtime V
  | 0, s => (none, s)
  | fuel + 1, s =>
    match (s.channels c).bind (·.sendQueue.head?) with
    | none => (none, s)
    | some r =>
      match s.channelSendClaim r with
      | (true, s) => (some r, s)
      | (false, s) => claimSender c fuel (s.channelUnlinkSend c r)

/-- The first receiver that can be claimed, and the state after the claim. The
stale receivers in front of it are unlinked. -/
def claimReceiver (c : ChannelId) : Nat → Runtime V → Option ReceiveRegId × Runtime V
  | 0, s => (none, s)
  | fuel + 1, s =>
    match (s.channels c).bind (·.receiveQueue.head?) with
    | none => (none, s)
    | some r =>
      match s.channelReceiveClaim r with
      | (true, s) => (some r, s)
      | (false, s) => claimReceiver c fuel (s.channelUnlinkReceive c r)

/-- The number of waiting senders of a channel. -/
def sendWaiters (s : Runtime V) (c : ChannelId) : Nat :=
  ((s.channels c).map (·.sendQueue.length)).getD 0

/-- The number of waiting receivers of a channel. -/
def receiveWaiters (s : Runtime V) (c : ChannelId) : Nat :=
  ((s.channels c).map (·.receiveQueue.length)).getD 0

/-- Take the head of the send queue (`send_head = sender->next`). -/
def popSender (s : Runtime V) (c : ChannelId) : Runtime V :=
  match s.channels c with
  | none => s
  | some control => s.setChannel c (some { control with sendQueue := control.sendQueue.tail })

/-- Take the head of the receive queue. -/
def popReceiver (s : Runtime V) (c : ChannelId) : Runtime V :=
  match s.channels c with
  | none => s
  | some control =>
    s.setChannel c (some { control with receiveQueue := control.receiveQueue.tail })

/-- Append a value to the ring buffer. -/
def bufferPush (s : Runtime V) (c : ChannelId) (v : V) : Runtime V :=
  match s.channels c with
  | none => s
  | some control => s.setChannel c (some { control with buffer := control.buffer.push v })

/-- Remove the value at the head of the ring buffer. -/
def bufferPop (s : Runtime V) (c : ChannelId) : Runtime V :=
  match s.channels c with
  | none => s
  | some control => s.setChannel c (some { control with buffer := control.buffer.pop })

/-- Move the value of a claimed sender into the buffer and wake the sender. -/
def promoteClaimed (s : Runtime V) (c : ChannelId) (r : SendRegId) : Runtime V :=
  let s := s.popSender c
  let s := match (s.sendRegistrations r).value with
    | none => s
    | some v => s.bufferPush c v
  let reg := { s.sendRegistrations r with
    registered := false, valueOwned := false, ready := true, closed := false }
  let s := s.setSend r reg
  if reg.context then s.channelWake reg else s

/-- `nomo_channel_promote_sender` (484–523). -/
def channelPromoteSender (s : Runtime V) (c : ChannelId) : Runtime V :=
  match s.channels c with
  | none => s
  | some control =>
    if control.buffer.capacity ≤ control.buffer.count then
      s
    else
      match claimSender c (s.sendWaiters c) s with
      | (none, s) => s
      | (some r, s) => s.promoteClaimed c r

/-! ## Operations that never wait -/

/-- Hand a value to a claimed receiver and wake it. -/
def handOff (s : Runtime V) (c : ChannelId) (r : ReceiveRegId) (v : V) : Runtime V :=
  let s := s.popReceiver c
  let reg := { s.receiveRegistrations r with
    registered := false, value := some v, valueOwned := true, ready := true, closed := false }
  let s := s.setReceive r reg
  if reg.context then s.channelWake reg else s

/-- `nomo_channel_try_send` (531–639). -/
def channelTrySend (s : Runtime V) (channel : Option ChannelId) (v : V) :
    ChannelTrySend V × Runtime V :=
  match channel with
  | none => (.failed runtimeUnavailable v, s)
  | some c =>
    match s.channels c with
    | none => (.failed runtimeUnavailable v, s)
    | some control =>
      if control.closed then
        (.closed v, s)
      else
        match claimReceiver c (s.receiveWaiters c) s with
        | (some r, s) => (.sent, s.handOff c r v)
        | (none, s) =>
          if control.buffer.count = control.buffer.capacity then
            (.full v, s)
          else
            (.sent, s.bufferPush c v)

/-- `nomo_channel_try_receive` (641–700). -/
def channelTryReceive (s : Runtime V) (channel : Option ChannelId) :
    ChannelTryReceive V × Runtime V :=
  match channel with
  | none => (.closed, s)
  | some c =>
    match s.channels c with
    | none => (.closed, s)
    | some control =>
      if control.buffer.count = 0 then
        (if control.closed then .closed else .empty, s)
      else
        match control.buffer.front with
        | none => (.empty, s)
        | some v => (.value v, (s.bufferPop c).channelPromoteSender c)

/-- Wake every waiting sender with the closed flag. -/
def closeSenders (c : ChannelId) : Nat → Runtime V → Runtime V
  | 0, s => s
  | fuel + 1, s =>
    match (s.channels c).bind (·.sendQueue.head?) with
    | none => s
    | some r =>
      match s.channelSendClaim r with
      | (false, s) => closeSenders c fuel (s.channelUnlinkSend c r)
      | (true, s) =>
        let s := s.popSender c
        let reg := { s.sendRegistrations r with
          registered := false, ready := true, closed := true }
        closeSenders c fuel ((s.setSend r reg).channelWake reg)

/-- Wake every waiting receiver with the closed flag. -/
def closeReceivers (c : ChannelId) : Nat → Runtime V → Runtime V
  | 0, s => s
  | fuel + 1, s =>
    match (s.channels c).bind (·.receiveQueue.head?) with
    | none => s
    | some r =>
      match s.channelReceiveClaim r with
      | (false, s) => closeReceivers c fuel (s.channelUnlinkReceive c r)
      | (true, s) =>
        let s := s.popReceiver c
        let reg := { s.receiveRegistrations r with
          registered := false, ready := true, closed := true }
        closeReceivers c fuel ((s.setReceive r reg).channelWake reg)

/-- `nomo_channel_close` (702–770). -/
def channelClose (s : Runtime V) (channel : Option ChannelId) : Runtime V :=
  match channel with
  | none => s
  | some c =>
    match s.channels c with
    | none => s
    | some control =>
      if control.closed then
        s
      else
        let s := s.setChannel c (some { control with closed := true })
        let s := closeSenders c (s.sendWaiters c) s
        closeReceivers c (s.receiveWaiters c) s

/-! ## Operations that may wait -/

/-- Queue a send registration for a channel that is full. -/
def sendSuspend (s : Runtime V) (r : SendRegId) (c : ChannelId) (v : V)
    (selectToken : Option TokenId) (selectArm : Nat) : Runtime V :=
  let s := s.setSend r
    { control := some c, context := true, task := s.current, selectToken := selectToken,
      selectArm := selectArm, value := some v, valueOwned := true, registered := true,
      active := true }
  let s := match s.channels c with
    | none => s
    | some control =>
      s.setChannel c (some { control with sendQueue := control.sendQueue ++ [r] })
  { s.channelRetainHandle (some c) with pendingReason := .channel }

/-- `nomo_channel_send_start` (826–905). -/
def channelSendStart (s : Runtime V) (r : SendRegId) (channel : Option ChannelId) (v : V)
    (selectToken : Option TokenId) (selectArm : Nat) :
    Poll × Option (ChannelSendResult V) × Runtime V :=
  match (s.setSend r {}).channelTrySend channel v with
  | (.sent, s) => (.ready, some .ok, s)
  | (.closed v, s) => (.ready, some (.err channelIsClosed (some v)), s)
  | (.failed error v, s) => (.ready, some (.err error (some v)), s)
  | (.full v, s) =>
    match channel with
    | none => (.ready, some (.err runtimeUnavailable (some v)), s)
    | some c => (.pending, none, s.sendSuspend r c v selectToken selectArm)

/-- Give the reference of a finished registration back. -/
def finishSend (s : Runtime V) (r : SendRegId) : Runtime V :=
  let reg := s.sendRegistrations r
  let s := if reg.active then
      (s.setSend r { reg with active := false }).channelReleaseHandle reg.control
    else s
  s.setSend r { s.sendRegistrations r with selectToken := none }

/-- `nomo_channel_send_resume` (906–935). -/
def channelSendResume (s : Runtime V) (r : SendRegId) :
    Poll × Option (ChannelSendResult V) × Runtime V :=
  let reg := s.sendRegistrations r
  if !reg.ready then
    (.pending, none, { s with pendingReason := .channel })
  else if reg.closed then
    (.ready, some (.err channelIsClosed reg.value),
      (s.setSend r { reg with valueOwned := false }).finishSend r)
  else
    (.ready, some .ok, s.finishSend r)

/-- Queue a receive registration for a channel that is empty. -/
def receiveSuspend (s : Runtime V) (r : ReceiveRegId) (c : ChannelId)
    (selectToken : Option TokenId) (selectArm : Nat) : Runtime V :=
  let s := s.setReceive r
    { control := some c, context := true, task := s.current, selectToken := selectToken,
      selectArm := selectArm, registered := true, active := true }
  let s := match s.channels c with
    | none => s
    | some control =>
      s.setChannel c (some { control with receiveQueue := control.receiveQueue ++ [r] })
  { s.channelRetainHandle (some c) with pendingReason := .channel }

/-- `nomo_channel_receive_start` (965–1015). The result is an `Option<T>`. -/
def channelReceiveStart (s : Runtime V) (r : ReceiveRegId) (channel : Option ChannelId)
    (selectToken : Option TokenId) (selectArm : Nat) :
    Poll × Option (Option V) × Runtime V :=
  match (s.setReceive r {}).channelTryReceive channel with
  | (.value v, s) => (.ready, some (some v), s)
  | (.closed, s) => (.ready, some none, s)
  | (.empty, s) =>
    match channel with
    | none => (.ready, some none, s)
    | some c => (.pending, none, s.receiveSuspend r c selectToken selectArm)

/-- Give the reference of a finished registration back. -/
def finishReceive (s : Runtime V) (r : ReceiveRegId) : Runtime V :=
  let reg := s.receiveRegistrations r
  let s := if reg.active then
      (s.setReceive r { reg with active := false }).channelReleaseHandle reg.control
    else s
  s.setReceive r { s.receiveRegistrations r with selectToken := none }

/-- `nomo_channel_receive_resume` (1016–1050). -/
def channelReceiveResume (s : Runtime V) (r : ReceiveRegId) :
    Poll × Option (Option V) × Runtime V :=
  let reg := s.receiveRegistrations r
  if !reg.ready then
    (.pending, none, { s with pendingReason := .channel })
  else if reg.closed then
    (.ready, some none, s.finishReceive r)
  else
    (.ready, some reg.value, (s.setReceive r { reg with valueOwned := false }).finishReceive r)

end Runtime

end Nomo.Async
