import Nomo.Blocking.Life

/-!
# The operations of the resolver pool

Each operation of the owner and of the worker keeps the pool valid, and takes the life of its slot to where
the life of a slot goes.
-/

namespace Nomo.Blocking

open Nomo.Lib

namespace Pool

variable {pool pool' : Pool} {slot other : Slot} {job : Job} {generation : ℕ} {request : Request}
  {resolution : Resolution} {host port : String}

theorem valid_fresh : fresh.Valid where
  queue := ⟨RingBuffer.wf_empty (by norm_num), rfl, fun _ => rfl⟩
  completions := ⟨RingBuffer.wf_empty (by norm_num), rfl, fun _ => rfl⟩
  busy _ h := by rcases h with h | h <;> cases h
  resolving _ _ _ h := by cases h
  callback _ h := by rcases h with h | h | h <;> cases h
  active := rfl
  wake h := absurd h (Nat.lt_irrefl 0)

/-! ## Rings and writes -/

theorem holds_same {ring : RingBuffer Slot} {R : JobState → Prop} [DecidablePred R]
    (h : Holds ring fun other => R (pool.jobs other).state) (hR : R job.state ↔ R (pool.jobs slot).state) :
    Holds ring fun other => R (Function.update pool.jobs slot job other).state :=
  h.congr fun _ => update_same hR

theorem holds_push {ring : RingBuffer Slot} {R : JobState → Prop} [DecidablePred R]
    (h : Holds ring fun other => R (pool.jobs other).state) (hslot : ¬ R (pool.jobs slot).state)
    (hjob : R job.state) :
    Holds (ring.push slot) fun other => R (Function.update pool.jobs slot job other).state :=
  h.push hslot fun _ => update_insert hjob

theorem holds_pop {ring : RingBuffer Slot} {R : JobState → Prop} [DecidablePred R]
    (h : Holds ring fun other => R (pool.jobs other).state) (hpos : 0 < ring.count)
    (hfront : ring.front = some slot) (hjob : ¬ R job.state) :
    Holds ring.pop fun other => R (Function.update pool.jobs slot job other).state :=
  h.pop hpos hfront fun _ => update_erase hjob

theorem Valid.not_resolving (h : pool.Valid) (hbusy : ¬ (pool.jobs slot).state.Busy) :
    pool.worker ≠ .resolving slot host port := by
  intro hworker
  rcases h.resolving slot host port hworker with ⟨hstate, -⟩ | hstate
  · exact hbusy (.inl hstate)
  · exact hbusy (.inr hstate)

/-! ## Submitting -/

theorem submit_some (h : pool.submit request = some (slot, generation, pool')) :
    (pool.jobs slot).state = .free ∧ ∃ job : Job, job.state = .queued ∧
      job.ticket = { generation := generation, host := request.host, port := portText request.port,
                     owner := request.owner, complete := request.complete } ∧
      pool' = { pool.setJob slot job with
        nextGeneration := generation
        queue := pool.queue.push slot
        activeJobs := pool.activeJobs + 1 } := by
  unfold submit at h
  cases hselect : pool.selectSlot with
  | none =>
    rw [hselect] at h
    cases h
  | some selected =>
    rw [hselect] at h
    have hfree : (pool.jobs selected).state = .free := by simpa using List.find?_some hselect
    dsimp only at h
    split at h
    · cases h
    · cases h
      exact ⟨hfree, _, rfl, rfl, rfl⟩

theorem Valid.submit (h : pool.Valid) (hwake : pool.wakeActive = true)
    (hsubmit : pool.submit request = some (slot, generation, pool')) : pool'.Valid := by
  obtain ⟨hfree, job, hqueued, hticket, rfl⟩ := submit_some hsubmit
  have hcomplete : job.complete ≠ 0 := by
    rw [show job.complete = request.complete from congrArg Ticket.complete hticket]
    exact request.complete_ne
  refine h.update rfl ?_ ?_ ?_ ?_ (.inl rfl) (fun _ => hcomplete) ?_ fun _ => hwake
  · exact holds_push (R := (· = .queued)) h.queue (by simp [hfree]) hqueued
  · exact holds_same h.completions (by simp [JobState.Done, hqueued, hfree])
  · rintro (hrunning | hcancelled)
    · exact absurd (hqueued.symm.trans hrunning) (by decide)
    · exact absurd (hqueued.symm.trans hcancelled) (by decide)
  · intro host port hworker
    exact absurd hworker (h.not_resolving (by simp [JobState.Busy, hfree]))
  · rw [card_active_insert rfl hfree (by simp [hqueued]), ← h.active]

/-! ## Releasing, taking and cancelling -/

/-- A slot that neither ring holds and the worker does not have is released. -/
theorem Valid.release (h : pool.Valid) {base : Pool} (hjobs : base.jobs = pool.jobs)
    (hworker : base.worker = pool.worker) (hcount : base.activeJobs = pool.activeJobs)
    (hwake : base.wakeActive = pool.wakeActive)
    (hqueue : Holds base.queue fun other => other ≠ slot ∧ (pool.jobs other).state = .queued)
    (hcompletions : Holds base.completions fun other => other ≠ slot ∧ (pool.jobs other).state.Done)
    (hused : (pool.jobs slot).state ≠ .free) (hbusy : ¬ (pool.jobs slot).state.Busy) :
    (base.release slot).Valid := by
  have hpos := h.pos slot hused
  have hcard : (base.release slot).active.card + 1 = pool.active.card :=
    card_active_erase (by rw [← hjobs]; rfl) hused rfl
  have hactive : (base.release slot).activeJobs = pool.activeJobs - 1 := by
    show (if 0 < base.activeJobs then base.activeJobs - 1 else base.activeJobs) = _
    rw [hcount, if_pos hpos]
  refine h.update (by rw [← hjobs]; rfl) ?_ ?_ ?_ ?_ (.inl hworker) ?_ ?_ ?_
  · exact hqueue.congr fun _ => update_erase (R := (· = .queued)) nofun
  · exact hcompletions.congr fun _ => update_erase (R := JobState.Done) (by rintro (h | h) <;> cases h)
  · rintro (h | h) <;> cases h
  · intro host port hresolving
    exact absurd (hworker.symm.trans hresolving) (h.not_resolving hbusy)
  · rintro (h | h | h) <;> cases h
  · rw [hactive, h.active]
    omega
  · intro _
    show base.wakeActive = true
    rw [hwake]
    exact h.wake hpos

theorem Valid.release_delivered (h : pool.Valid)
    (hstate : (pool.jobs slot).state = .completedDelivered) : (pool.release slot).Valid := by
  refine h.release rfl rfl rfl rfl (h.queue.congr fun other => ?_) (h.completions.congr fun other => ?_)
    (by simp [hstate]) (by simp [JobState.Busy, hstate])
  · refine and_iff_right_of_imp ?_
    rintro hqueued rfl
    simp [hstate] at hqueued
  · refine and_iff_right_of_imp ?_
    rintro hdone rfl
    simp [JobState.Done, hstate] at hdone

theorem take_some (h : pool.take slot generation = some (resolution, pool')) :
    (pool.jobs slot).generation = generation ∧ (pool.jobs slot).state = .completedDelivered ∧
      resolution = (pool.jobs slot).resolution ∧ pool' = pool.release slot := by
  unfold take at h
  split at h
  · cases h
  · rename_i hnot
    cases h
    rw [not_or, not_not, not_not] at hnot
    exact ⟨hnot.1, hnot.2, rfl, rfl⟩

theorem removeQueued_eq (h : pool.Valid) (hstate : (pool.jobs slot).state = .queued) :
    (pool.removeQueued slot).1 = true ∧
      ∃ queue, (pool.removeQueued slot).2 = { pool with queue := queue } ∧
        Holds queue fun other => other ≠ slot ∧ (pool.jobs other).state = .queued := by
  obtain ⟨hkept, hfound, hwf, hcapacity⟩ := @takeApart_eq slot _ h.queue.wf false
  have hmem : slot ∈ pool.queue.contents := h.queue.mem.mpr hstate
  refine ⟨?_, _, rfl, ?_⟩
  · show (takeApart slot pool.queue.count pool.queue false).2.1 = true
    rw [hfound]
    simpa using hmem
  have hroom : (takeApart slot pool.queue.count pool.queue false).2.2.rewind.count +
      (takeApart slot pool.queue.count pool.queue false).1.length ≤
        (takeApart slot pool.queue.count pool.queue false).2.2.rewind.capacity := by
    have hlength : (pool.queue.contents.erase slot).length ≤ pool.queue.contents.length :=
      List.length_erase_le
    rw [RingBuffer.length_contents h.queue.wf] at hlength
    have hcount := h.queue.wf.count_le
    rw [hkept, RingBuffer.capacity_rewind, hcapacity]
    show 0 + (pool.queue.contents.erase slot).length ≤ pool.queue.slots.length
    omega
  obtain ⟨hwf', hcontents, hcapacity'⟩ := RingBuffer.foldl_push (RingBuffer.wf_rewind hwf) hroom
  refine ⟨hwf', ?_, fun other => ?_⟩
  · rw [hcapacity', RingBuffer.capacity_rewind, hcapacity, h.queue.capacity]
  rw [hcontents, RingBuffer.contents_rewind, List.nil_append, hkept]
  show (pool.queue.contents.erase slot).count other = _
  rw [List.count_erase, h.queue.count]
  by_cases heq : other = slot
  · subst heq
    simp [hstate]
  · have hne : ¬ slot = other := fun h => heq h.symm
    simp [heq, hne]

theorem Valid.cancel (h : pool.Valid) : (pool.cancel slot).2.Valid := by
  unfold Pool.cancel
  cases hstate : (pool.jobs slot).state with
  | queued =>
    obtain ⟨hfound, queue, hqueue, hholds⟩ := removeQueued_eq h hstate
    show (if (pool.removeQueued slot).1 then (pool.removeQueued slot).2.release slot
      else (pool.removeQueued slot).2).Valid
    rw [hfound, hqueue, if_pos rfl]
    refine h.release rfl rfl rfl rfl hholds (h.completions.congr fun other => ?_) (by simp [hstate])
      (by simp [JobState.Busy, hstate])
    refine and_iff_right_of_imp ?_
    rintro hdone rfl
    simp [JobState.Done, hstate] at hdone
  | running =>
    refine h.write rfl ?_ ?_ (fun _ => h.busy slot (.inl hstate)) (fun _ _ _ => .inr rfl) (.inl rfl)
      ?_ rfl rfl (by simp [hstate]) nofun
    · exact holds_same (R := (· = .queued)) h.queue (by simp [hstate])
    · exact holds_same h.completions (by simp [JobState.Done, hstate])
    · rintro (h | h | h) <;> cases h
  | completedQueued =>
    have hbusy : ¬ (pool.jobs slot).state.Busy := by simp [JobState.Busy, hstate]
    refine h.write rfl ?_ ?_ ?_ (fun _ _ hworker => absurd hworker (h.not_resolving hbusy)) (.inl
      rfl) ?_ rfl rfl (by simp [hstate]) nofun
    · exact holds_same (R := (· = .queued)) h.queue (by simp [hstate])
    · exact holds_same h.completions (by simp [JobState.Done, hstate])
    · rintro (h | h) <;> cases h
    · rintro (h | h | h) <;> cases h
  | completedDelivered => exact h.release_delivered hstate
  | free | cancelledRunning | cancelledQueued => exact h

theorem Valid.maybeIdle (h : pool.Valid) : pool.maybeIdle.Valid := by
  unfold Pool.maybeIdle
  split
  · rename_i hidle
    exact { h with wake := fun hpos => absurd hidle (Nat.pos_iff_ne_zero.mp hpos) }
  · exact h

/-! ## The worker -/

theorem dequeue_queued (h : pool.Valid) (hpos : 0 < pool.queue.count)
    (hfront : pool.queue.front = some slot) : (pool.jobs slot).state = .queued :=
  h.queue.of_front hpos hfront

theorem Valid.spares (h : pool.Valid) (hworker : pool.worker = .idle) :
    Spares pool slot (.resolving slot host port) where
  busy other _ hbusy := by
    rcases h.busy other hbusy with hexited | ⟨_, _, hresolving⟩
    · rw [hworker] at hexited
      cases hexited
    · rw [hworker] at hresolving
      cases hresolving
  resolving other _ _ hne heq := by
    cases heq
    exact hne rfl

theorem Valid.dequeue (h : pool.Valid) (hworker : pool.worker = .idle) (hpos : 0 < pool.queue.count)
    (hfront : pool.queue.front = some slot) : (pool.dequeue slot).Valid := by
  have hstate := dequeue_queued h hpos hfront
  rw [Pool.dequeue, if_pos hstate]
  refine h.write rfl ?_ ?_ (fun _ => .inr ⟨_, _, rfl⟩) ?_ (.inr (h.spares hworker)) (fun _ =>
    h.callback slot (.inl hstate)) rfl rfl (by simp [hstate]) nofun
  · exact holds_pop (R := (· = .queued)) h.queue hpos hfront nofun
  · exact holds_same h.completions (by simp [JobState.Done, hstate])
  · intro host port hresolving
    cases hresolving
    exact .inl ⟨rfl, rfl, rfl⟩

theorem finish_room (h : pool.Valid) (hworker : pool.worker = .resolving slot host port) :
    pool.completions.count < queueCapacity := by
  suffices hslot : ¬ (pool.jobs slot).state.Done from h.completions.room hslot
  rcases h.resolving slot host port hworker with ⟨hstate, -⟩ | hstate
  all_goals simp [JobState.Done, hstate]

theorem finish_eq (h : pool.Valid) (hworker : pool.worker = .resolving slot host port) :
    pool.finish slot resolution = (true,
      { pool.setJob slot (finishJob (pool.jobs slot) resolution) with
        completions := pool.completions.push slot
        worker := .signalling }) := by
  have hroom := finish_room h hworker
  rw [finish, if_neg (by omega)]

theorem Valid.finish (h : pool.Valid) (hworker : pool.worker = .resolving slot host port) :
    (pool.finish slot resolution).2.Valid := by
  have hothers : Spares pool slot .signalling := by
    refine ⟨fun other hne hbusy => ?_, fun _ _ _ _ => nofun⟩
    rcases h.busy other hbusy with hexited | ⟨_, _, hresolving⟩
    · rw [hworker] at hexited
      cases hexited
    · rw [hworker] at hresolving
      cases hresolving
      exact hne rfl
  rw [finish_eq h hworker]
  rcases h.resolving slot host port hworker with ⟨hstate, -⟩ | hstate
  · have hjob : finishJob (pool.jobs slot) resolution =
        { pool.jobs slot with resolution := resolution, state := .completedQueued } := by
      rw [finishJob, hstate]
    rw [hjob]
    refine h.write rfl ?_ ?_ ?_ nofun (.inr hothers) (fun _ => h.callback slot (.inr (.inl hstate)))
      rfl rfl (by simp [hstate]) nofun
    · exact holds_same (R := (· = .queued)) h.queue (by simp [hstate])
    · exact holds_push h.completions (by simp [JobState.Done, hstate]) (.inl rfl)
    · rintro (h | h) <;> cases h
  · have hjob : finishJob (pool.jobs slot) resolution =
        { pool.jobs slot with state := .cancelledQueued } := by
      rw [finishJob, hstate]
    rw [hjob]
    refine h.write rfl ?_ ?_ ?_ nofun (.inr hothers) ?_ rfl rfl (by simp [hstate]) nofun
    · exact holds_same (R := (· = .queued)) h.queue (by simp [hstate])
    · exact holds_push h.completions (by simp [JobState.Done, hstate]) (.inr rfl)
    · rintro (h | h) <;> cases h
    · rintro (h | h | h) <;> cases h

/-! ## Completions -/

theorem Valid.deliver (h : pool.Valid) (hpos : 0 < pool.completions.count)
    (hfront : pool.completions.front = some slot) : (pool.deliver slot).Valid := by
  have hdone := h.completions.of_front hpos hfront
  unfold Pool.deliver
  rcases hdone with hstate | hstate
  · have hbusy : ¬ (pool.jobs slot).state.Busy := by simp [JobState.Busy, hstate]
    rw [hstate]
    refine h.write rfl ?_ ?_ ?_ (fun _ _ hworker => absurd hworker (h.not_resolving hbusy)) (.inl
      rfl) ?_ rfl rfl (by simp [hstate]) nofun
    · exact holds_same (R := (· = .queued)) h.queue (by simp [hstate])
    · exact holds_pop h.completions hpos hfront (by rintro (h | h) <;> cases h)
    · rintro (h | h) <;> cases h
    · rintro (h | h | h) <;> cases h
  · rw [hstate]
    refine h.release rfl rfl rfl rfl (h.queue.congr fun other => ?_) ?_ (by simp [hstate])
      (by simp [JobState.Busy, hstate])
    · refine and_iff_right_of_imp ?_
      rintro hqueued rfl
      simp [hstate] at hqueued
    · exact h.completions.pop hpos hfront fun _ => Iff.rfl

end Pool

end Nomo.Blocking
