import Nomo.Async.Select

/-!
# The current-thread executor

Timers, the wait for the next event and the run loop
(host_async_executor_helpers.rs:4317–4710). The loop polls the task at the front
of the ready queue until the queue, the timer table and the reactor are all
empty.

The generated poll functions, the monotonic clock and the reactor are the `Host`
the loop runs on: functions on a world `σ` of their own, which may change the
runtime as they please. The loop and the wait are not bounded by anything in the
source, so they take fuel here and return `none` when it runs out.
-/

namespace Nomo.Async

universe u v

/-- `INT64_MAX`. -/
def int64Max : Int := 9223372036854775807

/-- What the executor is linked with: the clock, the reactor and the poll
functions of the program. `reactorWait` reports failure and whether it handled a
completion. -/
structure Host (V : Type u) (σ : Type v) where
  clock : σ → Int × σ
  reactorWait : σ → Runtime V → Int → (Bool × Bool) × Runtime V × σ
  poll : Task → σ → Runtime V → Poll × Runtime V × σ

namespace Runtime

variable {V : Type u}

/-! ## Timers -/

/-- The first free timer slot. -/
def freeTimerSlot (s : Runtime V) : Option Nat :=
  s.timers.findIdx? (!·.occupied)

/-- The generation of the next registration; it skips zero when it wraps. -/
def bumpTimerGeneration (generation : Nat) : Nat :=
  if (generation + 1) % 2 ^ 32 = 0 then 1 else (generation + 1) % 2 ^ 32

/-- `now + duration`, saturated. -/
def timerDeadline (now durationMillis : Int) : Int :=
  if durationMillis > int64Max - now then int64Max else now + durationMillis

/-- Arm a registration in a free slot. -/
def timerArm (s : Runtime V) (r : TimerRegId) (slot : Nat) (deadline : Int)
    (selectToken : Option TokenId) (selectArm : Nat) : Runtime V :=
  let generation := bumpTimerGeneration s.nextTimerGeneration
  { s.setTimer r { slot := slot, generation := generation, deadlineMillis := deadline,
                   selectToken := selectToken, selectArm := selectArm, armed := true } with
    nextTimerGeneration := generation
    timers := s.timers.set slot
      { registration := some r, task := s.current, deadlineMillis := deadline,
        generation := generation, occupied := true }
    liveTimers := s.liveTimers + 1 }

/-- `nomo_async_timer_start` (4317–4373). -/
def timerStart (s : Runtime V) (r : TimerRegId) (durationMillis now : Int)
    (selectToken : Option TokenId) (selectArm : Nat) : Poll × TimerOutcome × Runtime V :=
  if durationMillis ≤ 0 then
    (.ready, .ok, s)
  else if (s.timerRegistrations r).armed || (s.timerRegistrations r).expired then
    (.ready, .runtimeError, s)
  else
    match s.freeTimerSlot with
    | none => (.ready, .limit, s)
    | some slot =>
      (.pending, .none,
        { s.timerArm r slot (timerDeadline now durationMillis) selectToken selectArm with
          pendingReason := .timer })

/-- `nomo_async_timer_resume` (4375–4392). -/
def timerResume (s : Runtime V) (r : TimerRegId) : Poll × TimerOutcome × Runtime V :=
  let reg := s.timerRegistrations r
  if reg.expired then
    (.ready, .ok, s.setTimer r { reg with expired := false, selectToken := none })
  else if reg.armed then
    (.pending, .none, { s with pendingReason := .timer })
  else
    (.ready, .runtimeError, s)

/-- One comparison of the scan for the earliest timer: least deadline first,
least generation among equals. -/
def earlierTimer (timers : List TimerSlot) (selected : Option Nat) (index : Nat) :
    Option Nat :=
  match timers[index]? with
  | none => selected
  | some candidate =>
    if candidate.occupied then
      match selected.bind (timers[·]?) with
      | none => some index
      | some best =>
        if candidate.deadlineMillis < best.deadlineMillis
            || (candidate.deadlineMillis == best.deadlineMillis
              && candidate.generation < best.generation) then
          some index
        else
          selected
    else
      selected

/-- The slot `nomo_async_wait_next` waits for. -/
def selectedTimer (s : Runtime V) : Option Nat :=
  (List.range timerCapacity).foldl (earlierTimer s.timers) none

/-- The deadline in a timer slot. -/
def slotDeadline (s : Runtime V) (slot : Nat) : Int :=
  ((s.timers[slot]?).map (·.deadlineMillis)).getD 0

/-- Fire an expired timer: claim its select or enqueue its task
(4601–4631). `false` is a nonzero return. -/
def fireTimer (s : Runtime V) (index : Nat) : Bool × Runtime V :=
  match s.timers[index]? with
  | none => (false, s)
  | some slot =>
    match slot.registration with
    | none => (false, s)
    | some r =>
      let reg := s.timerRegistrations r
      if !reg.armed || reg.generation ≠ slot.generation then
        (false, s)
      else
        let claim := match reg.selectToken with
          | none => (true, s)
          | some t => s.selectClaim t reg.selectArm
        if !claim.1 then
          (false, { claim.2 with runtimeFailed := true })
        else
          let s := claim.2.setTimer r
            { claim.2.timerRegistrations r with armed := false, expired := true }
          let s := s.timerFree index slot
          match reg.selectToken with
          | some t =>
            let s := s.selectWake t
            (!s.runtimeFailed, s)
          | none =>
            match slot.task with
            | none => (true, s)
            | some task => s.readyEnqueue task

/-- Nothing is queued, armed or registered: the condition on which the run loop
ends. -/
def idle (s : Runtime V) : Bool :=
  s.ready.count == 0 && s.liveTimers == 0 && s.liveRegistrations == 0

end Runtime

namespace Host

variable {V : Type u} {σ : Type v}

/-- How the inner loop of `nomo_async_wait_next` ends. -/
inductive Wait
  | expired
  | completed
  | failed
deriving Repr, DecidableEq

/-- The inner loop of `nomo_async_wait_next` (4572–4600): sleep in the reactor
for at most a minute at a time until the deadline or a completion. -/
def waitLoop (host : Host V σ) (selected : Option Nat) :
    Nat → Runtime V → σ → Option (Wait × Runtime V × σ)
  | 0, _, _ => none
  | fuel + 1, s, w =>
    let (now, w) := match selected with
      | none => (0, w)
      | some _ => host.clock w
    let due : Bool := match selected with
      | none => false
      | some slot => s.slotDeadline slot ≤ now
    if due then
      some (.expired, s, w)
    else
      let remaining : Int := match selected with
        | none => -1
        | some slot => min (s.slotDeadline slot - now) 60000
      match host.reactorWait w s remaining with
      | ((true, _), s, w) => some (.failed, { s with runtimeFailed := true }, w)
      | ((false, true), s, w) => some (.completed, s, w)
      | ((false, false), s, w) =>
        match selected with
        | none => some (.failed, { s with runtimeFailed := true }, w)
        | some slot =>
          let (now, w) := host.clock w
          if s.slotDeadline slot ≤ now then
            some (.expired, s, w)
          else
            waitLoop host selected fuel s w

/-- `nomo_async_wait_next` (4549–4631). `false` is a nonzero return. -/
def waitNext (host : Host V σ) (fuel : Nat) (s : Runtime V) (w : σ) :
    Option (Bool × Runtime V × σ) :=
  match s.selectedTimer with
  | none =>
    if s.liveRegistrations = 0 then
      some (false, s, w)
    else
      (host.waitLoop none fuel s w).map fun
        | (.completed, s, w) => (!s.runtimeFailed, s, w)
        | (_, s, w) => (false, s, w)
  | some index =>
    (host.waitLoop (some index) fuel s w).map fun
      | (.completed, s, w) => (!s.runtimeFailed, s, w)
      | (.failed, s, w) => (false, s, w)
      | (.expired, s, w) => let (ok, s) := s.fireTimer index; (ok, s, w)

/-- `nomo_async_poll_task` (4633–4645). -/
def pollTask (host : Host V σ) (task : Task) (s : Runtime V) (w : σ) :
    Poll × Runtime V × σ :=
  match host.poll task w { s with current := some task, pendingReason := .none } with
  | (status, s, w) => (status, { s with current := none }, w)

/-- The reasons for which a pending task is left to whoever will wake it. -/
def waitsForWake : PendingReason → Bool
  | .timer | .join | .channel | .select | .io => true
  | _ => false

/-- What the loop does with a pending task: a yielding task is enqueued again, a
task that waits is left alone. `none` is a return of 1. -/
def requeue (s : Runtime V) (task : Task) : Option (Runtime V) :=
  match s.pendingReason with
  | .yield =>
    match s.readyEnqueue task with
    | (true, s) => some s
    | (false, _) => none
  | reason => if waitsForWake reason then some s else none

/-- One poll of a run: which task was polled and what its poll function
returned. -/
structure PollEvent where
  task : Task
  status : Poll
deriving Repr, DecidableEq

/-- The state at one evaluation of the condition of the run loop: the polls so
far and the runtime. -/
structure LoopHead (V : Type u) where
  polls : List PollEvent
  runtime : Runtime V

/-- A finished run: the value returned (`0` is `ok`), the polls made, and the
loop heads passed. -/
structure Run (V : Type u) where
  ok : Bool
  polls : List PollEvent
  heads : List (LoopHead V)

/-- The loop of `nomo_async_executor_run_root` (4671–4709), from a state in which
the last poll returned `status`. -/
def runLoop (host : Host V σ) : Nat → Poll → List PollEvent → List (LoopHead V) →
    Runtime V → σ → Option (Run V)
  | 0, _, _, _, _, _ => none
  | fuel + 1, status, polls, heads, s, w =>
    let heads := heads ++ [{ polls := polls, runtime := s }]
    if s.idle then
      some { ok := status = .ready, polls := polls, heads := heads }
    else
      let waited := if s.ready.count = 0 then host.waitNext fuel s w else some (true, s, w)
      match waited with
      | none => none
      | some (false, _, _) => some { ok := false, polls := polls, heads := heads }
      | some (true, s, w) =>
        if s.ready.count = 0 then
          runLoop host fuel status polls heads s w
        else
          match s.readyDequeue with
          | (none, _) => some { ok := false, polls := polls, heads := heads }
          | (some task, s) =>
            match host.pollTask task s w with
            | (status, s, w) =>
              let polls := polls ++ [{ task := task, status := status }]
              if s.runtimeFailed || s.panicking then
                some { ok := false, polls := polls, heads := heads }
              else
                match status with
                | .ready => runLoop host fuel .ready polls heads s w
                | .pending =>
                  match requeue s task with
                  | none => some { ok := false, polls := polls, heads := heads }
                  | some s => runLoop host fuel .pending polls heads s w

/-- `nomo_async_executor_run_root` (4647–4710). -/
def executorRunRoot (host : Host V σ) (fuel : Nat) (root : Task) (s : Runtime V) (w : σ) :
    Option (Run V) :=
  match host.pollTask root s w with
  | (status, s, w) =>
    let polls := [{ task := root, status := status }]
    if s.runtimeFailed || s.panicking then
      some { ok := false, polls := polls, heads := [] }
    else
      match status with
      | .ready => some { ok := true, polls := polls, heads := [] }
      | .pending =>
        match requeue s root with
        | none => some { ok := false, polls := polls, heads := [] }
        | some s => host.runLoop fuel .pending polls [] s w

end Host

end Nomo.Async
