import Nomo.Blocking.Operations

/-!
# The resolver pool follows the lives of its slots

Each step of the owner and of the worker keeps the pool valid, shows what each slot's life allows, and
leads where that life leads (`follows`).
-/

namespace Nomo.Blocking

open Nomo.Lib

section

variable {pool pool' : Pool} {draining draining' : Bool} {call call' : Call} {slot other : Slot} {job : Job}
  {label : Label} {generation : ℕ}

/-! ## Lives of jobs -/

theorem life_free (h : job.state = .free) : job.life = .free := by rw [Job.life, h]

theorem life_queued (h : job.state = .queued) : job.life = .queued job.ticket := by rw [Job.life, h]

theorem life_running (h : job.state = .running) : job.life = .running job.ticket := by rw [Job.life, h]

theorem life_completed (h : job.state = .completedQueued) :
    job.life = .completed job.ticket job.resolution := by
  rw [Job.life, h]

theorem life_delivered (h : job.state = .completedDelivered) :
    job.life = .delivered job.ticket job.resolution := by
  rw [Job.life, h]

theorem life_cancelledRunning (h : job.state = .cancelledRunning) : job.life = .cancelledRunning := by
  rw [Job.life, h]

theorem life_cancelledQueued (h : job.state = .cancelledQueued) : job.life = .cancelledQueued := by
  rw [Job.life, h]

/-! ## Steps of one kind -/

theorem valid_some (h : pool'.Valid) (hcall : ∀ request, call' ≠ .submitting request) :
    System.Valid ⟨some pool', draining', call'⟩ where
  pool other hother := by
    cases hother
    exact h
  submitting request hrequest := absurd hrequest (hcall request)

theorem follows_same (hlabel : label.slot = none) (hshutDown : label ≠ .shutDown) (h : pool'.Valid)
    (hcall : ∀ request, call' ≠ .submitting request) (hjobs : pool'.jobs = pool.jobs) :
    Follows ⟨some pool, draining, call⟩ label ⟨some pool', draining', call'⟩ :=
  .of_none hlabel hshutDown (valid_some h hcall) fun slot => by
    show (pool'.jobs slot).life = (pool.jobs slot).life
    rw [hjobs]

theorem follows_write (hlabel : label.slot = some slot)
    (hvalid : System.Valid ⟨some pool', draining', call'⟩)
    (hjobs : pool'.jobs = Function.update pool.jobs slot job)
    (hanswers : (pool.jobs slot).life.Answers label)
    (hlife : job.life = (pool.jobs slot).life.next label) :
    Follows ⟨some pool, draining, call⟩ label ⟨some pool', draining', call'⟩ := by
  refine .of_own hlabel hvalid hanswers ?_ fun other hne => ?_
  · show (pool'.jobs slot).life = (pool.jobs slot).life.next label
    rw [hjobs, Function.update_self, hlife]
  · show (pool'.jobs other).life = (pool.jobs other).life
    rw [hjobs, Function.update_of_ne hne]

theorem System.Valid.of_some (h : System.Valid ⟨some pool, draining, call⟩) : pool.Valid := h.pool pool rfl

/-! ## The owner -/

theorem follows_submit {request : Request} (hs : System.Valid ⟨some pool, draining, .submitting request⟩)
    (hsubmit : pool.submit request = some (slot, generation, pool')) :
    Follows ⟨some pool, draining, .submitting request⟩
      (.submitted slot { generation := generation
                         host := request.host
                         port := portText request.port
                         owner := request.owner
                         complete := request.complete })
      ⟨some pool', draining, .none⟩ := by
  obtain ⟨_, hsome, hwake⟩ := hs.submitting request rfl
  cases hsome
  have hvalid := hs.of_some.submit hwake hsubmit
  obtain ⟨hfree, job, hqueued, hticket, rfl⟩ := Pool.submit_some hsubmit
  refine follows_write rfl (valid_some hvalid nofun) rfl ?_ ?_
  · exact life_free hfree
  · rw [life_queued hqueued, hticket]
    rfl

theorem follows_take {resolution : Resolution} (hs : System.Valid ⟨some pool, draining, .none⟩)
    (htake : pool.take slot generation = some (resolution, pool')) :
    Follows ⟨some pool, draining, .none⟩ (.taken slot generation resolution)
      ⟨some pool', draining, .idling⟩ := by
  obtain ⟨hgeneration, hstate, rfl, rfl⟩ := Pool.take_some htake
  refine follows_write rfl (valid_some (hs.of_some.release_delivered hstate) nofun) rfl ?_ rfl
  rw [life_delivered hstate]
  exact ⟨_, rfl, hgeneration.symm⟩

theorem follows_cancel (hs : System.Valid ⟨some pool, draining, .none⟩)
    (hgeneration : (pool.jobs slot).generation = generation) (hcancel : (pool.cancel slot).1 = true) :
    Follows ⟨some pool, draining, .none⟩ (.cancelled slot generation)
      ⟨some (pool.cancel slot).2, draining, .idling⟩ := by
  have hpool := hs.of_some
  have hvalid : System.Valid ⟨some (pool.cancel slot).2, draining, .idling⟩ :=
    valid_some hpool.cancel nofun
  cases hstate : (pool.jobs slot).state with
  | queued =>
    obtain ⟨hfound, queue, hqueue, -⟩ := Pool.removeQueued_eq hpool hstate
    have heq : (pool.cancel slot).2 = { pool with queue := queue }.release slot := by
      unfold Pool.cancel
      simp only [hstate, hfound, if_true, hqueue]
    rw [heq] at hvalid ⊢
    refine follows_write rfl hvalid rfl ?_ ?_
    · rw [life_queued hstate]
      exact ⟨_, hgeneration.symm, .inl rfl⟩
    · rw [life_queued hstate]
      rfl
  | running =>
    have heq : (pool.cancel slot).2 = pool.setJob slot
        { pool.jobs slot with state := .cancelledRunning, owner := 0, complete := 0 } := by
      unfold Pool.cancel
      simp only [hstate]
    rw [heq] at hvalid ⊢
    refine follows_write rfl hvalid rfl ?_ ?_
    · rw [life_running hstate]
      exact ⟨_, hgeneration.symm, .inr (.inl rfl)⟩
    · rw [life_running hstate]
      rfl
  | completedQueued =>
    have heq : (pool.cancel slot).2 = pool.setJob slot
        { pool.jobs slot with state := .cancelledQueued, owner := 0, complete := 0 } := by
      unfold Pool.cancel
      simp only [hstate]
    rw [heq] at hvalid ⊢
    refine follows_write rfl hvalid rfl ?_ ?_
    · rw [life_completed hstate]
      exact ⟨_, hgeneration.symm, .inr (.inr (.inl ⟨_, rfl⟩))⟩
    · rw [life_completed hstate]
      rfl
  | completedDelivered =>
    have heq : (pool.cancel slot).2 = pool.release slot := by
      unfold Pool.cancel
      simp only [hstate]
    rw [heq] at hvalid ⊢
    refine follows_write rfl hvalid rfl ?_ ?_
    · rw [life_delivered hstate]
      exact ⟨_, hgeneration.symm, .inr (.inr (.inr ⟨_, rfl⟩))⟩
    · rw [life_delivered hstate]
      rfl
  | free | cancelledRunning | cancelledQueued =>
    unfold Pool.cancel at hcancel
    simp [hstate] at hcancel

theorem cancel_too_late (hcancel : (pool.cancel slot).1 = false) : (pool.cancel slot).2 = pool := by
  unfold Pool.cancel at hcancel ⊢
  cases hstate : (pool.jobs slot).state with
  | queued | running | completedQueued | completedDelivered => simp [hstate] at hcancel
  | free | cancelledRunning | cancelledQueued => rfl

theorem follows_deliver (hs : System.Valid ⟨some pool, true, .none⟩) (hpos : 0 < pool.completions.count)
    (hfront : pool.completions.front = some slot) :
    Follows ⟨some pool, true, .none⟩ (deliverLabel pool slot) ⟨some (pool.deliver slot), true, .none⟩ := by
  have hpool := hs.of_some
  have hvalid : System.Valid ⟨some (pool.deliver slot), true, .none⟩ :=
    valid_some (hpool.deliver hpos hfront) nofun
  rcases hpool.completions.of_front hpos hfront with hstate | hstate
  · have hcomplete := hpool.callback slot (.inr (.inr hstate))
    have hlabel : deliverLabel pool slot = .called slot (pool.jobs slot).generation
        (pool.jobs slot).owner (pool.jobs slot).complete := by
      unfold deliverLabel
      simp only [hstate, ne_eq, hcomplete, not_false_eq_true, if_true]
    have heq : pool.deliver slot = { pool with completions := pool.completions.pop }.setJob slot
        { pool.jobs slot with state := .completedDelivered } := by
      unfold Pool.deliver
      simp only [hstate]
    rw [hlabel]
    rw [heq] at hvalid ⊢
    refine follows_write rfl hvalid rfl ?_ ?_
    · rw [life_completed hstate]
      exact ⟨_, _, rfl, rfl, rfl, rfl⟩
    · rw [life_completed hstate]
      rfl
  · have hlabel : deliverLabel pool slot = .released slot := by
      unfold deliverLabel
      simp only [hstate]
    have heq : pool.deliver slot = { pool with completions := pool.completions.pop }.release slot := by
      unfold Pool.deliver
      simp only [hstate]
    rw [hlabel]
    rw [heq] at hvalid ⊢
    exact follows_write rfl hvalid rfl (life_cancelledQueued hstate) rfl

/-! ## The worker -/

theorem valid_worker (hs : System.Valid ⟨some pool, draining, call⟩) (h : pool'.Valid)
    (hwake : pool'.wakeActive = pool.wakeActive) : System.Valid ⟨some pool', draining, call⟩ where
  pool other hother := by
    cases hother
    exact h
  submitting request hrequest := by
    obtain ⟨_, hsome, hactive⟩ := hs.submitting request hrequest
    cases hsome
    exact ⟨pool', rfl, hwake.trans hactive⟩

theorem follows_dequeue (hs : System.Valid ⟨some pool, draining, call⟩) (hworker : pool.worker = .idle)
    (hpos : 0 < pool.queue.count) (hfront : pool.queue.front = some slot) :
    Follows ⟨some pool, draining, call⟩ (dequeueLabel pool slot)
      ⟨some (pool.dequeue slot), draining, call⟩ := by
  have hpool := hs.of_some
  have hstate := Pool.dequeue_queued hpool hpos hfront
  have hvalid := hpool.dequeue hworker hpos hfront
  rw [Pool.dequeue, if_pos hstate] at hvalid ⊢
  rw [dequeueLabel, if_pos hstate]
  refine follows_write rfl (valid_worker hs hvalid rfl) rfl ?_ ?_
  · rw [life_queued hstate]
    exact ⟨_, rfl, rfl, rfl⟩
  · rw [life_queued hstate]
    rfl

theorem follows_finish {host port : String} {resolution : Resolution}
    (hs : System.Valid ⟨some pool, draining, call⟩) (hworker : pool.worker = .resolving slot host port) :
    Follows ⟨some pool, draining, call⟩ (.finished slot host port resolution)
      ⟨some (pool.finish slot resolution).2, draining, call⟩ := by
  have hpool := hs.of_some
  have hvalid : (pool.finish slot resolution).2.Valid := hpool.finish hworker
  rw [Pool.finish_eq hpool hworker] at hvalid ⊢
  refine follows_write rfl (valid_worker hs hvalid rfl) rfl ?_ ?_
  · rcases hpool.resolving slot host port hworker with ⟨hstate, hhost, hport⟩ | hstate
    · rw [life_running hstate]
      exact .inl ⟨_, rfl, hhost, hport⟩
    · rw [life_cancelledRunning hstate]
      exact .inr rfl
  · rcases hpool.resolving slot host port hworker with ⟨hstate, -, -⟩ | hstate
    · rw [life_running hstate, Pool.finishJob, hstate]
      rfl
    · rw [life_cancelledRunning hstate, Pool.finishJob, hstate]
      rfl

theorem valid_exited (h : pool.Valid) : { pool with worker := .exited }.Valid :=
  { h with
    busy := fun _ _ => .inl rfl
    resolving := fun _ _ _ => nofun }

theorem valid_signalled (h : pool.Valid) (hworker : pool.worker = .signalling) :
    { pool with worker := .idle }.Valid :=
  { h with
    busy := fun slot hbusy => by
      rcases h.busy slot hbusy with hexited | ⟨_, _, hresolving⟩
      · rw [hworker] at hexited
        cases hexited
      · rw [hworker] at hresolving
        cases hresolving
    resolving := fun _ _ _ => nofun }

end

/-! ## Steps and runs -/

theorem valid_getD {pool : Option Pool} {draining : Bool} {call : Call}
    (hs : System.Valid ⟨pool, draining, call⟩) : (pool.getD .fresh).Valid := by
  cases pool with
  | none => exact Pool.valid_fresh
  | some pool => exact hs.of_some

theorem lifeOf_getD (pool : Option Pool) {draining : Bool} {call : Call} {slot : Slot} :
    System.lifeOf ⟨some (pool.getD .fresh), draining, call⟩ slot =
      System.lifeOf ⟨pool, draining, call⟩ slot := by
  cases pool with
  | none | some pool => rfl

theorem ensureWakeRegistration_some {pool pool' : Pool} {registered : Bool} (h : pool.Valid)
    (hensure : pool.ensureWakeRegistration registered = some pool') :
    pool'.Valid ∧ pool'.jobs = pool.jobs ∧ pool'.wakeActive = true := by
  unfold Pool.ensureWakeRegistration at hensure
  split at hensure
  · rename_i hactive
    cases hensure
    exact ⟨h, rfl, hactive⟩
  · split at hensure
    · cases hensure
      exact ⟨{ h with wake := fun _ => rfl }, rfl, rfl⟩
    · cases hensure

/-- **Every step follows the lives of the slots.** -/
theorem follows {system system' : System} {label : Label} (hs : system.Valid)
    (hstep : Step system label system') : Follows system label system' := by
  cases hstep with
  | initializeFailed | takeRefused | cancelRefused => exact .of_none rfl nofun hs fun _ => rfl
  | registerFailed => exact .of_none rfl nofun (valid_some (valid_getD hs) nofun) fun _ => lifeOf_getD _
  | @register pool pool' draining registered request hensure =>
    obtain ⟨hvalid, hjobs, hwake⟩ := ensureWakeRegistration_some (valid_getD hs) hensure
    refine .of_none rfl nofun ⟨?_, fun _ _ => ⟨_, rfl, hwake⟩⟩ fun slot => ?_
    · intro other hother
      cases hother
      exact hvalid
    · have hsame : (pool'.jobs slot).life = ((pool.getD .fresh).jobs slot).life := by rw [hjobs]
      exact hsame.trans (lifeOf_getD pool)
  | submitLockFailed =>
    exact .of_none rfl nofun ⟨hs.pool, nofun⟩ fun _ => rfl
  | saturated | wake | drained | rearmFailed => exact follows_same rfl nofun hs.of_some nofun rfl
  | submit hsubmit => exact follows_submit hs hsubmit
  | take htake => exact follows_take hs htake
  | cancelTooLate _ hcancel =>
    rw [cancel_too_late hcancel]
    exact follows_same rfl nofun hs.of_some nofun rfl
  | cancel hgeneration hcancel => exact follows_cancel hs hgeneration hcancel
  | idle | rearm =>
    refine follows_same rfl nofun hs.of_some.maybeIdle nofun ?_
    unfold Pool.maybeIdle
    split <;> rfl
  | idleLockFailed | drainLockFailed => exact .of_none rfl nofun ⟨hs.pool, nofun⟩ fun _ => rfl
  | deliver hpos hfront => exact follows_deliver hs hpos hfront
  | dequeue hworker hpos hfront => exact follows_dequeue hs hworker hpos hfront
  | finish hworker => exact follows_finish hs hworker
  | overflow hworker hfull =>
    rw [Pool.finish_eq hs.of_some hworker] at hfull
    cases hfull
  | signal hworker =>
    exact .of_none rfl nofun (valid_worker hs (valid_signalled hs.of_some hworker) rfl) fun _ => rfl
  | workerStops => exact .of_none rfl nofun (valid_worker hs (valid_exited hs.of_some) rfl) fun _ => rfl
  | workerLockFailed =>
    exact .of_none rfl nofun (valid_worker hs (valid_exited hs.of_some) rfl) fun _ => rfl
  | @stop pool locked =>
    have hvalid : { pool with stopping := locked || pool.stopping }.Valid := { hs.of_some with }
    exact follows_same rfl nofun hvalid nofun rfl
  | shutDown =>
    refine ⟨⟨nofun, nofun⟩, fun _ _ => trivial, fun slot => ?_⟩
    rw [lifetime.next_own (.inr rfl)]
    rfl

theorem valid_initial : System.initial.Valid where
  pool _ h := by cases h
  submitting _ h := by cases h

variable {labels : List Label} {system : System}

theorem legal (h : Run Step .initial labels system) (slot : Slot) :
    (lifetime slot).Legal .free labels ∧ system.lifeOf slot = (lifetime slot).after .free labels :=
  Automaton.Follows.legal (fun _ _ _ => follows) h valid_initial slot

theorem valid_of_run (h : Run Step .initial labels system) : system.Valid :=
  Automaton.Follows.invariant (fun _ _ _ => follows) h valid_initial

end Nomo.Blocking
