import Nomo.Lib.Labelled
import Nomo.Lib.RingBuffer

/-!
# The resolver pool

One worker thread that looks names up for the owner of the pool (host_async_blocking_pool_helpers.rs on
Unix): the owner submits a job into a free slot and its slot into a queue; the worker takes a slot from
the queue, looks its name up, and puts it into a second queue; the owner is woken, takes the slot from
there and calls the job's callback, which takes the result.

What happens under the lock is one step. What the owner does without the lock (the wake registration) only
the owner sees. The owner's functions may be called from a callback, that is between two rounds of the
loop of `completion_wake`. A lock, a registration, the pool's initialization may fail.
-/

namespace Nomo.Blocking

open Nomo.Lib

/-! ## Data -/

/-- `NOMO_ASYNC_BLOCKING_POOL_QUEUE_CAPACITY`. -/
abbrev queueCapacity : ℕ := 16

/-- `NOMO_ASYNC_RESOLVER_MAX_ADDRESSES`. -/
def maxAddresses : ℕ := 16

/-- A slot of the job table. -/
abbrev Slot := Fin queueCapacity

/-- `nomo_async_blocking_job_state`. -/
inductive JobState
  | free
  | queued
  | running
  | completedQueued
  | completedDelivered
  | cancelledRunning
  | cancelledQueued
deriving DecidableEq, Repr

/-- The addresses of a job, and its `resolver_status`. -/
structure Resolution where
  addresses : List (List UInt8)
  resolverStatus : ℤ
deriving DecidableEq, Repr

/-- `nomo_async_resolver_job`. A pointer is a number, and 0 is `NULL`. -/
structure Job where
  generation : ℕ
  state : JobState
  host : String
  port : String
  resolution : Resolution
  owner : ℕ
  complete : ℕ
deriving DecidableEq, Repr

/-- Where the worker thread is: at the head of its loop, in `getaddrinfo` with its copies of the name and
the port, before it writes to the wake pipe, or at its end. -/
inductive Worker
  | idle
  | resolving (slot : Slot) (host port : String)
  | signalling
  | exited
deriving DecidableEq, Repr

/-- `nomo_async_resolver_pool`. -/
structure Pool where
  jobs : Slot → Job
  queue : RingBuffer Slot
  completions : RingBuffer Slot
  nextGeneration : ℕ
  activeJobs : ℕ
  stopping : Bool
  wakeActive : Bool
  worker : Worker

def noResolution : Resolution where
  addresses := []
  resolverStatus := 0

/-- A job that is all zero. -/
def Job.zero : Job where
  generation := 0
  state := .free
  host := ""
  port := ""
  resolution := noResolution
  owner := 0
  complete := 0

/-- A pool after `initialize`. -/
def Pool.fresh : Pool where
  jobs _ := .zero
  queue := .empty queueCapacity
  completions := .empty queueCapacity
  nextGeneration := 0
  activeJobs := 0
  stopping := false
  wakeActive := false
  worker := .idle

/-! ## What `getaddrinfo` gives -/

/-- `ai_family`. -/
inductive Family
  | inet
  | inet6
  | other
deriving DecidableEq, Repr

/-- An entry of the list that `getaddrinfo` gives; an address that is `NULL` is none. -/
structure Candidate where
  family : Family
  address : Option (List UInt8)
deriving DecidableEq, Repr

/-- `sizeof(struct sockaddr_storage)`. -/
def storageSize : ℕ := 128

/-- The address of an entry, if the worker keeps it. -/
def Candidate.usable (candidate : Candidate) : Option (List UInt8) :=
  match candidate.address with
  | none => none
  | some address =>
    if candidate.family ≠ .inet ∧ candidate.family ≠ .inet6 then none
    else if storageSize < address.length then none
    else some address

/-- What the worker makes of what `getaddrinfo` gives. -/
def resolve (resolverStatus : ℤ) (candidates : List Candidate) : Resolution where
  addresses := if resolverStatus = 0 then (candidates.filterMap Candidate.usable).take maxAddresses else []
  resolverStatus := resolverStatus

/-! ## Jobs -/

/-- What is asked for in `submit`. The callback is not `NULL`. -/
structure Request where
  host : String
  port : ℤ
  owner : ℕ
  complete : ℕ
  complete_ne : complete ≠ 0

/-- `snprintf(job->port, sizeof(job->port), "%" PRId64, port)`. -/
def portText (port : ℤ) : String := String.ofList ((toString port).toList.take 15)

/-- A job that was submitted: what it is for, and the generation by which it is known. -/
structure Ticket where
  generation : ℕ
  host : String
  port : String
  owner : ℕ
  complete : ℕ
deriving DecidableEq, Repr

namespace Pool

/-- A write to a job. -/
def setJob (pool : Pool) (slot : Slot) (job : Job) : Pool :=
  { pool with jobs := Function.update pool.jobs slot job }

/-- `nomo_async_resolver_pool_release_job_locked`. -/
def release (pool : Pool) (slot : Slot) : Pool :=
  { pool.setJob slot
      { generation := (pool.jobs slot).generation
        state := .free
        host := ""
        port := ""
        resolution := noResolution
        owner := 0
        complete := 0 } with
    activeJobs := if 0 < pool.activeJobs then pool.activeJobs - 1 else pool.activeJobs }

/-! ## Submitting -/

/-- `nomo_async_resolver_pool_ensure_wake_registration`, none where it fails. -/
def ensureWakeRegistration (pool : Pool) (registered : Bool) : Option Pool :=
  if pool.wakeActive then some pool
  else if registered then some { pool with wakeActive := true }
  else none

/-- The first slot that is free. -/
def selectSlot (pool : Pool) : Option Slot :=
  (List.finRange queueCapacity).find? fun slot => (pool.jobs slot).state = .free

/-- The generation after another one; 0 is left out. -/
def generationAfter (generation : ℕ) : ℕ :=
  if (generation + 1) % 2 ^ 32 = 0 then 1 else (generation + 1) % 2 ^ 32

/-- The locked part of `submit`; none is its status 2. -/
def submit (pool : Pool) (request : Request) : Option (Slot × ℕ × Pool) :=
  match pool.selectSlot with
  | none => none
  | some selected =>
    if pool.queue.count = queueCapacity then none
    else
      let generation := generationAfter pool.nextGeneration
      some (selected, generation,
        { pool.setJob selected
            { generation := generation
              state := .queued
              host := request.host
              port := portText request.port
              resolution := noResolution
              owner := request.owner
              complete := request.complete } with
          nextGeneration := generation
          queue := pool.queue.push selected
          activeJobs := pool.activeJobs + 1 })

/-! ## Taking and cancelling -/

/-- The locked part of `take`. -/
def take (pool : Pool) (slot : Slot) (generation : ℕ) : Option (Resolution × Pool) :=
  if (pool.jobs slot).generation ≠ generation ∨ (pool.jobs slot).state ≠ .completedDelivered then none
  else some ((pool.jobs slot).resolution, pool.release slot)

/-- The loop that takes the queue apart: what is kept, whether the selected slot was found, and the queue
after it. -/
def takeApart (selected : Slot) : ℕ → RingBuffer Slot → Bool → List Slot × Bool × RingBuffer Slot
  | 0, queue, removed => ([], removed, queue)
  | rounds + 1, queue, removed =>
    match queue.front with
    | none => ([], removed, queue)
    | some slot =>
      if slot = selected && !removed then takeApart selected rounds queue.pop true
      else
        let rest := takeApart selected rounds queue.pop removed
        (slot :: rest.1, rest.2)

/-- `nomo_async_resolver_pool_remove_queued_locked`; false is its status 1. -/
def removeQueued (pool : Pool) (selected : Slot) : Bool × Pool :=
  let apart := takeApart selected pool.queue.count pool.queue false
  (apart.2.1, { pool with queue := apart.1.foldl RingBuffer.push apart.2.2.rewind })

/-- The locked part of `cancel` where the generation is the job's: whether it cancels. -/
def cancel (pool : Pool) (slot : Slot) : Bool × Pool :=
  match (pool.jobs slot).state with
  | .queued =>
    let removed := pool.removeQueued slot
    (true, if removed.1 then removed.2.release slot else removed.2)
  | .running =>
    (true, pool.setJob slot { pool.jobs slot with state := .cancelledRunning, owner := 0, complete := 0 })
  | .completedQueued =>
    (true, pool.setJob slot { pool.jobs slot with state := .cancelledQueued, owner := 0, complete := 0 })
  | .completedDelivered => (true, pool.release slot)
  | .free | .cancelledRunning | .cancelledQueued => (false, pool)

/-- The end of `maybe_idle` and the end of `completion_wake`: the registration goes with the last job. -/
def maybeIdle (pool : Pool) : Pool :=
  if pool.activeJobs = 0 then { pool with wakeActive := false } else pool

/-! ## The worker -/

/-- The worker takes a slot from the queue. -/
def dequeue (pool : Pool) (slot : Slot) : Pool :=
  if (pool.jobs slot).state = .queued then
    { pool.setJob slot { pool.jobs slot with state := .running } with
      queue := pool.queue.pop
      worker := .resolving slot (pool.jobs slot).host (pool.jobs slot).port }
  else { pool with queue := pool.queue.pop }

/-- What the worker makes of a job whose name was looked up. -/
def finishJob (job : Job) (resolution : Resolution) : Job :=
  match job.state with
  | .running => { job with resolution := resolution, state := .completedQueued }
  | .cancelledRunning => { job with state := .cancelledQueued }
  | _ => job

/-- The locked part after the lookup; false is that there is no room, where the worker ends. -/
def finish (pool : Pool) (slot : Slot) (resolution : Resolution) : Bool × Pool :=
  let finished := pool.setJob slot (finishJob (pool.jobs slot) resolution)
  if pool.completions.count = queueCapacity then (false, { finished with worker := .exited })
  else (true, { finished with completions := pool.completions.push slot, worker := .signalling })

/-! ## Completions -/

/-- A round of the loop of `completion_wake`, for the slot in front. -/
def deliver (pool : Pool) (slot : Slot) : Pool :=
  let popped := { pool with completions := pool.completions.pop }
  match (pool.jobs slot).state with
  | .completedQueued => popped.setJob slot { pool.jobs slot with state := .completedDelivered }
  | .cancelledQueued => popped.release slot
  | _ => popped

end Pool

/-! ## Steps -/

/-- What the owner is in the middle of: nothing, `submit` after the registration, `take` or `cancel`
before `maybe_idle`, the end of `completion_wake`, or `shutdown` while it joins the worker. -/
inductive Call
  | none
  | submitting (request : Request)
  | idling
  | rearming
  | joining

/-- The pool, where `blocking_pool` is not `NULL`, and its owner; `draining` is that the owner is in the
loop of `completion_wake`. -/
structure System where
  pool : Option Pool
  draining : Bool
  call : Call

def System.initial : System where
  pool := none
  draining := false
  call := .none

/-- What a step shows. -/
inductive Label
  | submitRefused (status : ℕ)
  | submitting
  | submitted (slot : Slot) (ticket : Ticket)
  | takeRefused (slot generation : ℕ)
  | taken (slot : Slot) (generation : ℕ) (resolution : Resolution)
  | cancelIgnored (slot generation : ℕ)
  | cancelled (slot : Slot) (generation : ℕ)
  | idled
  | wakes
  | called (slot : Slot) (generation owner complete : ℕ)
  | released (slot : Slot)
  | dropped (slot : Slot)
  | drained
  | rearmed
  | dequeued (slot : Slot) (host port : String)
  | skipped (slot : Slot)
  | finished (slot : Slot) (host port : String) (resolution : Resolution)
  | overflowed (slot : Slot)
  | signalled
  | workerExited
  | runtimeFailed
  | stopping
  | shutDown
deriving DecidableEq

/-- The label of a round of `completion_wake`: the callback is called if there is one. -/
def deliverLabel (pool : Pool) (slot : Slot) : Label :=
  match (pool.jobs slot).state with
  | .completedQueued =>
    if (pool.jobs slot).complete ≠ 0 then
      .called slot (pool.jobs slot).generation (pool.jobs slot).owner (pool.jobs slot).complete
    else .dropped slot
  | .cancelledQueued => .released slot
  | _ => .dropped slot

/-- The label of the worker's dequeue. -/
def dequeueLabel (pool : Pool) (slot : Slot) : Label :=
  if (pool.jobs slot).state = .queued then .dequeued slot (pool.jobs slot).host (pool.jobs slot).port
  else .skipped slot

/-- The steps of the owner, outside and inside the loop of `completion_wake`, and of the worker. -/
inductive Step : System → Label → System → Prop
  | initializeFailed {draining : Bool} :
      Step ⟨none, draining, .none⟩ (.submitRefused 1) ⟨none, draining, .none⟩
  | registerFailed {pool : Option Pool} {draining : Bool} :
      (pool.getD .fresh).ensureWakeRegistration false = none →
      Step ⟨pool, draining, .none⟩ (.submitRefused 1) ⟨some (pool.getD .fresh), draining, .none⟩
  | register {pool : Option Pool} {pool' : Pool} {draining registered : Bool} {request : Request} :
      (pool.getD .fresh).ensureWakeRegistration registered = some pool' →
      Step ⟨pool, draining, .none⟩ .submitting ⟨some pool', draining, .submitting request⟩
  | submitLockFailed {pool : Option Pool} {draining : Bool} {request : Request} :
      Step ⟨pool, draining, .submitting request⟩ (.submitRefused 1) ⟨pool, draining, .none⟩
  | saturated {pool : Pool} {draining : Bool} {request : Request} :
      pool.submit request = none →
      Step ⟨some pool, draining, .submitting request⟩ (.submitRefused 2) ⟨some pool, draining, .none⟩
  | submit {pool pool' : Pool} {draining : Bool} {request : Request} {slot : Slot} {generation : ℕ} :
      pool.submit request = some (slot, generation, pool') →
      Step ⟨some pool, draining, .submitting request⟩
        (.submitted slot { generation := generation
                           host := request.host
                           port := portText request.port
                           owner := request.owner
                           complete := request.complete })
        ⟨some pool', draining, .none⟩
  | takeRefused {pool : Option Pool} {draining locked : Bool} {slot generation : ℕ} :
      (∀ pool', pool = some pool' → locked = true →
        ∀ h : slot < queueCapacity, pool'.take ⟨slot, h⟩ generation = none) →
      Step ⟨pool, draining, .none⟩ (.takeRefused slot generation) ⟨pool, draining, .none⟩
  | take {pool pool' : Pool} {draining : Bool} {slot : Slot} {generation : ℕ} {resolution : Resolution} :
      pool.take slot generation = some (resolution, pool') →
      Step ⟨some pool, draining, .none⟩ (.taken slot generation resolution)
        ⟨some pool', draining, .idling⟩
  | cancelRefused {pool : Option Pool} {draining locked : Bool} {slot generation : ℕ} :
      (∀ pool', pool = some pool' → locked = true →
        ∀ h : slot < queueCapacity, (pool'.jobs ⟨slot, h⟩).generation ≠ generation) →
      Step ⟨pool, draining, .none⟩ (.cancelIgnored slot generation) ⟨pool, draining, .none⟩
  | cancelTooLate {pool : Pool} {draining : Bool} {slot : Slot} {generation : ℕ} :
      (pool.jobs slot).generation = generation → (pool.cancel slot).1 = false →
      Step ⟨some pool, draining, .none⟩ (.cancelIgnored slot generation)
        ⟨some (pool.cancel slot).2, draining, .idling⟩
  | cancel {pool : Pool} {draining : Bool} {slot : Slot} {generation : ℕ} :
      (pool.jobs slot).generation = generation → (pool.cancel slot).1 = true →
      Step ⟨some pool, draining, .none⟩ (.cancelled slot generation)
        ⟨some (pool.cancel slot).2, draining, .idling⟩
  | idle {pool : Pool} {draining : Bool} :
      Step ⟨some pool, draining, .idling⟩ .idled ⟨some pool.maybeIdle, draining, .none⟩
  | idleLockFailed {pool : Option Pool} {draining : Bool} :
      Step ⟨pool, draining, .idling⟩ .runtimeFailed ⟨pool, draining, .none⟩
  | wake {pool : Pool} : pool.wakeActive = true →
      Step ⟨some pool, false, .none⟩ .wakes ⟨some pool, true, .none⟩
  | deliver {pool : Pool} {slot : Slot} : 0 < pool.completions.count →
      pool.completions.front = some slot →
      Step ⟨some pool, true, .none⟩ (deliverLabel pool slot) ⟨some (pool.deliver slot), true, .none⟩
  | drained {pool : Pool} : pool.completions.count = 0 →
      Step ⟨some pool, true, .none⟩ .drained ⟨some pool, true, .rearming⟩
  | rearm {pool : Pool} :
      Step ⟨some pool, true, .rearming⟩ .rearmed ⟨some pool.maybeIdle, false, .none⟩
  | rearmFailed {pool : Pool} : pool.activeJobs ≠ 0 →
      Step ⟨some pool, true, .rearming⟩ .runtimeFailed ⟨some pool, false, .none⟩
  | drainLockFailed {pool : Option Pool} {call : Call} : (call = .none ∨ call = .rearming) →
      Step ⟨pool, true, call⟩ .runtimeFailed ⟨pool, false, .none⟩
  | dequeue {pool : Pool} {draining : Bool} {call : Call} {slot : Slot} : pool.worker = .idle →
      0 < pool.queue.count → pool.queue.front = some slot →
      Step ⟨some pool, draining, call⟩ (dequeueLabel pool slot)
        ⟨some (pool.dequeue slot), draining, call⟩
  | finish {pool : Pool} {draining : Bool} {call : Call} {slot : Slot} {host port : String}
      {resolverStatus : ℤ} {candidates : List Candidate} : pool.worker = .resolving slot host port →
      (pool.finish slot (resolve resolverStatus candidates)).1 = true →
      Step ⟨some pool, draining, call⟩ (.finished slot host port (resolve resolverStatus candidates))
        ⟨some (pool.finish slot (resolve resolverStatus candidates)).2, draining, call⟩
  | overflow {pool : Pool} {draining : Bool} {call : Call} {slot : Slot} {host port : String}
      {resolverStatus : ℤ} {candidates : List Candidate} : pool.worker = .resolving slot host port →
      (pool.finish slot (resolve resolverStatus candidates)).1 = false →
      Step ⟨some pool, draining, call⟩ (.overflowed slot)
        ⟨some (pool.finish slot (resolve resolverStatus candidates)).2, draining, call⟩
  | signal {pool : Pool} {draining : Bool} {call : Call} : pool.worker = .signalling →
      Step ⟨some pool, draining, call⟩ .signalled ⟨some { pool with worker := .idle }, draining, call⟩
  | workerStops {pool : Pool} {draining : Bool} {call : Call} : pool.worker = .idle →
      pool.stopping = true → pool.queue.count = 0 →
      Step ⟨some pool, draining, call⟩ .workerExited
        ⟨some { pool with worker := .exited }, draining, call⟩
  | workerLockFailed {pool : Pool} {draining : Bool} {call : Call} : pool.worker ≠ .signalling →
      pool.worker ≠ .exited →
      Step ⟨some pool, draining, call⟩ .workerExited
        ⟨some { pool with worker := .exited }, draining, call⟩
  | stop {pool : Pool} {locked : Bool} :
      Step ⟨some pool, false, .none⟩ .stopping
        ⟨some { pool with stopping := locked || pool.stopping }, false, .joining⟩
  | shutDown {pool : Pool} : pool.worker = .exited →
      Step ⟨some pool, false, .joining⟩ .shutDown ⟨none, false, .none⟩

end Nomo.Blocking
