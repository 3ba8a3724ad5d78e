import Nomo.Async.State

/-!
# Select tokens and the cancellation of registrations

A `task.select` waits through one token. Each waiting arm leaves a registration
in a channel queue, a timer slot or a child frame, and its pointer with a cancel
function in the token. Whoever can complete an arm first *claims* the token: the
claim fixes the winner and cancels the registrations of all other arms
(host_async_executor_helpers.rs:4151–4266). The cancel functions of the channel
registrations are those of host_channel_helpers.rs:910–1090.
-/

namespace Nomo.Async

universe u

namespace Runtime

variable {V : Type u}

/-! ## Handles and control blocks -/

/-- `nomo_channel_destroy`: release what is still buffered and free the control
block (host_channel_helpers.rs:170–199). -/
def channelDestroy (s : Runtime V) (c : ChannelId) (control : ChannelControl V) :
    Runtime V :=
  { s with released := s.released ++ control.buffer.contents }.setChannel c none

/-- `nomo_channel_retain_handle` (40–45). -/
def channelRetainHandle (s : Runtime V) (handle : Option ChannelId) : Runtime V :=
  match handle with
  | none => s
  | some c =>
    match s.channels c with
    | none => s
    | some control =>
      s.setChannel c (some { control with references := control.references + 1 })

/-- `nomo_channel_release_handle` (47–56): the last reference destroys the
control block. -/
def channelReleaseHandle (s : Runtime V) (handle : Option ChannelId) : Runtime V :=
  match handle with
  | none => s
  | some c =>
    match s.channels c with
    | none => s
    | some control =>
      if control.references = 0 then
        s
      else if control.references - 1 = 0 then
        s.channelDestroy c { control with references := control.references - 1 }
      else
        s.setChannel c (some { control with references := control.references - 1 })

/-! ## Cancelling one registration -/

/-- `nomo_channel_unlink_send` (430–455). -/
def channelUnlinkSend (s : Runtime V) (c : ChannelId) (r : SendRegId) : Runtime V :=
  match s.channels c with
  | none => s
  | some control =>
    if r ∈ control.sendQueue then
      (s.setChannel c (some { control with sendQueue := control.sendQueue.erase r })).setSend r
        { s.sendRegistrations r with registered := false }
    else
      s

/-- `nomo_channel_unlink_receive` (457–482). -/
def channelUnlinkReceive (s : Runtime V) (c : ChannelId) (r : ReceiveRegId) : Runtime V :=
  match s.channels c with
  | none => s
  | some control =>
    if r ∈ control.receiveQueue then
      (s.setChannel c (some { control with
          receiveQueue := control.receiveQueue.erase r })).setReceive r
        { s.receiveRegistrations r with registered := false }
    else
      s

/-- The unlinking step of a cancel function, taken when the registration is
still queued. -/
def unlinkSendIfRegistered (s : Runtime V) (r : SendRegId) : Runtime V :=
  match (s.sendRegistrations r).registered, (s.sendRegistrations r).control with
  | true, some c => s.channelUnlinkSend c r
  | _, _ => s

/-- The unlinking step of a cancel function, taken when the registration is
still queued. -/
def unlinkReceiveIfRegistered (s : Runtime V) (r : ReceiveRegId) : Runtime V :=
  match (s.receiveRegistrations r).registered, (s.receiveRegistrations r).control with
  | true, some c => s.channelUnlinkReceive c r
  | _, _ => s

/-- `nomo_channel_send_cancel`: unlink the registration, release the value it
still owns, and give its reference to the channel back (930–962). -/
def channelSendCancel (s : Runtime V) (r : SendRegId) : Runtime V :=
  if (s.sendRegistrations r).active then
    let s := s.unlinkSendIfRegistered r
    let reg := s.sendRegistrations r
    let s := if reg.valueOwned then s.release reg.value else s
    let s := s.setSend r { reg with valueOwned := false, active := false, selectToken := none }
    s.channelReleaseHandle reg.control
  else
    s

/-- `nomo_channel_receive_cancel` (1051–1084). -/
def channelReceiveCancel (s : Runtime V) (r : ReceiveRegId) : Runtime V :=
  if (s.receiveRegistrations r).active then
    let s := s.unlinkReceiveIfRegistered r
    let reg := s.receiveRegistrations r
    let s := if reg.valueOwned then s.release reg.value else s
    let s := s.setReceive r
      { reg with valueOwned := false, active := false, selectToken := none }
    s.channelReleaseHandle reg.control
  else
    s

/-- Whether a timer slot still belongs to a registration. -/
def timerOwns (s : Runtime V) (r : TimerRegId) (slot : TimerSlot) : Bool :=
  slot.occupied && slot.generation == (s.timerRegistrations r).generation
    && slot.registration == some r

/-- Free one timer slot. -/
def timerFree (s : Runtime V) (index : Nat) (slot : TimerSlot) : Runtime V :=
  { s with
    timers := s.timers.set index
      { slot with occupied := false, registration := none, task := none }
    liveTimers := s.liveTimers - 1 }

/-- `nomo_async_timer_disarm` (host_async_executor_helpers.rs:4443–4472). -/
def timerDisarm (s : Runtime V) (r : TimerRegId) : Runtime V :=
  let reg := s.timerRegistrations r
  if reg.armed then
    let s' := match s.timers[reg.slot]? with
      | none => s
      | some slot => if s.timerOwns r slot then s.timerFree reg.slot slot else s
    s'.setTimer r { reg with armed := false, expired := false, selectToken := none }
  else
    s.setTimer r { reg with expired := false, selectToken := none }

/-- The cancel function of a join arm: the child forgets its waiter
(2364–2379). -/
def joinSelectCancel (s : Runtime V) (child : FrameId) : Runtime V :=
  s.setJoin child { s.joins child with
    waiter := none, waiterSelectToken := none, waiterSelectArm := 0 }

/-- Call the cancel function of a registration (`cancel[arm](registrations[arm],
context)`). -/
def cancelRegistration (s : Runtime V) : CancelTarget → Runtime V
  | .send r => s.channelSendCancel r
  | .receive r => s.channelReceiveCancel r
  | .timer r => s.timerDisarm r
  | .join child => s.joinSelectCancel child

/-! ## Tokens -/

/-- `nomo_async_select_init` (4151–4163). -/
def selectInit (s : Runtime V) (t : TokenId) (armCount : Nat) : Runtime V :=
  s.setToken t { task := s.current, armCount := armCount, active := true }

/-- `nomo_async_select_register` (4165–4181): a token that is finished, or has a
winner already, is left as it is. -/
def selectRegister (s : Runtime V) (t : TokenId) (arm : Nat) (target : CancelTarget) :
    Runtime V :=
  let token := s.tokens t
  if !token.active || token.winner.isSome || token.armCount ≤ arm || selectMaxArms ≤ arm then
    s
  else
    s.setToken t { token with
      registrations := Function.update token.registrations arm (some target) }

/-- Cancel the registration of one arm and forget it. -/
def cancelArm (t : TokenId) (s : Runtime V) (arm : Nat) : Runtime V :=
  match (s.tokens t).registrations arm with
  | none => s
  | some target =>
    let s := s.cancelRegistration target
    s.setToken t { s.tokens t with
      registrations := Function.update (s.tokens t).registrations arm none }

/-- `nomo_async_select_claim` (4183–4206): fix the winner and cancel every other
arm. A token that is finished or already claimed refuses. -/
def selectClaim (s : Runtime V) (t : TokenId) (arm : Nat) : Bool × Runtime V :=
  let token := s.tokens t
  if !token.active || token.winner.isSome || token.armCount ≤ arm then
    (false, s)
  else
    let losers := (List.range token.armCount).filter (· ≠ arm)
    (true, losers.foldl (cancelArm t) (s.setToken t { token with winner := some arm }))

/-- `nomo_async_select_immediate_win` (4208–4217). -/
def selectImmediateWin (s : Runtime V) (t : TokenId) (arm : Nat) : Bool × Runtime V :=
  s.selectClaim t arm

/-- `nomo_async_select_suspend` (4219–4222). -/
def selectSuspend (s : Runtime V) (t : TokenId) : Runtime V :=
  { s.setToken t { s.tokens t with suspended := true } with pendingReason := .select }

/-- `nomo_async_select_wake` (4224–4236): enqueue the selecting task, once. -/
def selectWake (s : Runtime V) (t : TokenId) : Runtime V :=
  let token := s.tokens t
  if !token.active || !token.suspended || token.enqueued then
    s
  else
    (s.setToken t { token with enqueued := true }).enqueueOrFail token.task

/-- `nomo_async_select_complete` (4238–4251). -/
def selectComplete (s : Runtime V) (t : TokenId) (winner : Nat) : Runtime V :=
  let token := s.tokens t
  if !token.active || token.winner ≠ some winner then
    s
  else
    s.setToken t { token with
      registrations := Function.update token.registrations winner none
      active := false, suspended := false, enqueued := false }

/-- `nomo_async_select_cancel` (4253–4266): cancel every arm that is still
registered. -/
def selectCancel (s : Runtime V) (t : TokenId) : Runtime V :=
  if (s.tokens t).active then
    let s := (List.range (s.tokens t).armCount).foldl (cancelArm t) s
    s.setToken t { s.tokens t with active := false, suspended := false, enqueued := false }
  else
    s

end Runtime

end Nomo.Async
