import Nomo.Blocking.Pool

/-!
# What the resolver pool keeps

The queue holds the slots of the queued jobs and the completions those of the jobs that the worker is
done with, each once; the job that the worker looks up is running, or was cancelled while it ran; the
count of active jobs is the number of slots that are not free; and as long as there is one, the wake
registration is active.
-/

namespace Nomo.Blocking

open Nomo.Lib

/-- The worker is done with a job whose completion was not processed. -/
def JobState.Done (state : JobState) : Prop := state = .completedQueued ∨ state = .cancelledQueued

instance (state : JobState) : Decidable state.Done :=
  inferInstanceAs (Decidable (_ ∨ _))

/-- The worker looks the job's name up. -/
def JobState.Busy (state : JobState) : Prop := state = .running ∨ state = .cancelledRunning

instance (state : JobState) : Decidable state.Busy :=
  inferInstanceAs (Decidable (_ ∨ _))

/-- The job's callback is still to be called. -/
def JobState.Awaited (state : JobState) : Prop :=
  state = .queued ∨ state = .running ∨ state = .completedQueued

/-- A ring that holds the slots whose jobs have a property, each once. -/
structure Holds (ring : RingBuffer Slot) (P : Slot → Prop) [DecidablePred P] : Prop where
  wf : ring.WF
  capacity : ring.capacity = queueCapacity
  count : ∀ slot, ring.contents.count slot = if P slot then 1 else 0

namespace Pool

/-- The slots that are not free. -/
def active (pool : Pool) : Finset Slot := Finset.univ.filter fun slot => (pool.jobs slot).state ≠ .free

/-- What always holds of the pool. -/
structure Valid (pool : Pool) : Prop where
  queue : Holds pool.queue fun slot => (pool.jobs slot).state = .queued
  completions : Holds pool.completions fun slot => (pool.jobs slot).state.Done
  busy : ∀ slot, (pool.jobs slot).state.Busy →
    pool.worker = .exited ∨ ∃ host port, pool.worker = .resolving slot host port
  resolving : ∀ slot host port, pool.worker = .resolving slot host port →
    ((pool.jobs slot).state = .running ∧ host = (pool.jobs slot).host ∧ port = (pool.jobs slot).port) ∨
      (pool.jobs slot).state = .cancelledRunning
  callback : ∀ slot, (pool.jobs slot).state.Awaited → (pool.jobs slot).complete ≠ 0
  active : pool.activeJobs = pool.active.card
  wake : 0 < pool.activeJobs → pool.wakeActive = true

end Pool

/-! ## Rings -/

namespace Holds

variable {ring : RingBuffer Slot} {P Q : Slot → Prop} [DecidablePred P] [DecidablePred Q] {slot : Slot}

theorem mem (h : Holds ring P) : slot ∈ ring.contents ↔ P slot := by
  rw [← List.count_pos_iff, h.count]
  by_cases hP : P slot
  all_goals simp [hP]

theorem nodup (h : Holds ring P) : ring.contents.Nodup := by
  rw [List.nodup_iff_count_le_one]
  intro slot
  rw [h.count]
  split <;> omega

theorem congr (h : Holds ring P) (hPQ : ∀ slot, Q slot ↔ P slot) : Holds ring Q where
  wf := h.wf
  capacity := h.capacity
  count slot := by
    rw [h.count]
    exact if_congr (hPQ slot).symm rfl rfl

theorem room (h : Holds ring P) (hslot : ¬ P slot) : ring.count < queueCapacity := by
  have hnodup : (slot :: ring.contents).Nodup :=
    List.nodup_cons.mpr ⟨fun hmem => hslot (h.mem.mp hmem), h.nodup⟩
  have hle := hnodup.length_le_card
  rw [List.length_cons, RingBuffer.length_contents h.wf, Fintype.card_fin] at hle
  omega

theorem le (h : Holds ring P) : ring.count ≤ queueCapacity := h.capacity ▸ h.wf.count_le

theorem push (h : Holds ring P) (hslot : ¬ P slot)
    (hQ : ∀ other, Q other ↔ other = slot ∨ P other) : Holds (ring.push slot) Q := by
  have hroom : ring.count < ring.slots.length := by
    have hlt := h.room hslot
    rw [← h.capacity] at hlt
    exact hlt
  refine ⟨RingBuffer.wf_push h.wf hroom slot, by rw [RingBuffer.capacity_push, h.capacity], fun other => ?_⟩
  rw [RingBuffer.contents_push h.wf hroom, List.count_append, h.count, List.count_singleton]
  by_cases heq : other = slot
  · subst heq
    simp [hslot, (hQ other).mpr (.inl rfl)]
  have hsame : Q other ↔ P other := by
    rw [hQ]
    exact or_iff_right heq
  have hne : ¬ slot = other := fun h => heq h.symm
  simp [hsame, hne]

theorem pop (h : Holds ring P) (hpos : 0 < ring.count) (hfront : ring.front = some slot)
    (hQ : ∀ other, Q other ↔ other ≠ slot ∧ P other) : Holds ring.pop Q := by
  refine ⟨RingBuffer.wf_pop h.wf hpos, by rw [RingBuffer.capacity_pop, h.capacity], fun other => ?_⟩
  have hcount := h.count other
  rw [RingBuffer.contents_pop h.wf hpos hfront, List.count_cons] at hcount
  by_cases heq : other = slot
  · subst heq
    have hnot : ¬ Q other := fun hmem => ((hQ other).mp hmem).1 rfl
    rw [if_neg hnot]
    simp only [beq_self_eq_true, if_true] at hcount
    split at hcount <;> omega
  · have hsame : Q other ↔ P other := by
      rw [hQ]
      exact and_iff_right heq
    have hne : ¬ slot = other := fun h => heq h.symm
    simpa [hsame, hne] using hcount

theorem of_front (h : Holds ring P) (hpos : 0 < ring.count) (hfront : ring.front = some slot) : P slot := by
  rw [← h.mem, RingBuffer.contents_pop h.wf hpos hfront]
  exact List.mem_cons_self

end Holds

/-- What taking a queue apart leaves: all but the first place of the selected slot, in their order. -/
theorem takeApart_eq {selected : Slot} {queue : RingBuffer Slot} (h : queue.WF) (removed : Bool) :
    (Pool.takeApart selected queue.count queue removed).1 =
        (if removed then queue.contents else queue.contents.erase selected) ∧
      (Pool.takeApart selected queue.count queue removed).2.1 =
        (removed || decide (selected ∈ queue.contents)) ∧
      (Pool.takeApart selected queue.count queue removed).2.2.WF ∧
      (Pool.takeApart selected queue.count queue removed).2.2.capacity = queue.capacity := by
  generalize hrounds : queue.count = rounds
  induction rounds generalizing queue removed with
  | zero =>
    have hnil : queue.contents = [] := by
      rw [← List.length_eq_zero_iff, RingBuffer.length_contents h, hrounds]
    rw [Pool.takeApart, hnil]
    exact ⟨by simp, by simp, h, rfl⟩
  | succ rounds ih =>
    have hpos : 0 < queue.count := by omega
    obtain ⟨slot, hfront⟩ := RingBuffer.front_isSome h hpos
    have hcontents := RingBuffer.contents_pop h hpos hfront
    have hpop : queue.pop.count = rounds := by
      rw [RingBuffer.count_pop]
      omega
    rw [Pool.takeApart, hfront]
    by_cases hselected : (slot = selected && !removed) = true
    · simp only [hselected, if_true]
      obtain ⟨rfl, hremoved⟩ : slot = selected ∧ removed = false := by simpa using hselected
      obtain ⟨hkept, hfound, hwf, hcapacity⟩ := ih (RingBuffer.wf_pop h hpos) true hpop
      refine ⟨?_, ?_, hwf, by rw [hcapacity, RingBuffer.capacity_pop]⟩
      · rw [hkept, hcontents, hremoved]
        simp
      · rw [hfound, hcontents]
        simp
    simp only [hselected]
    obtain ⟨hkept, hfound, hwf, hcapacity⟩ := ih (RingBuffer.wf_pop h hpos) removed hpop
    refine ⟨?_, ?_, hwf, by rw [← RingBuffer.capacity_pop queue, ← hcapacity]; rfl⟩
    · show slot :: (Pool.takeApart selected rounds queue.pop removed).1 = _
      rw [hkept, hcontents]
      cases removed with
      | true => rfl
      | false =>
        have hne : ¬ slot = selected := by simpa using hselected
        simp [hne]
    · show (Pool.takeApart selected rounds queue.pop removed).2.1 = _
      rw [hfound, hcontents]
      cases removed with
      | true => rfl
      | false =>
        have hne : ¬ slot = selected := by simpa using hselected
        have hne' : ¬ selected = slot := fun heq => hne heq.symm
        simp [hne']

namespace Pool

variable {pool pool' : Pool} {slot other : Slot} {job : Job}

/-! ## Writes to a job -/

section

variable {R : JobState → Prop}

theorem update_insert (hR : R job.state) :
    R (Function.update pool.jobs slot job other).state ↔ other = slot ∨ R (pool.jobs other).state := by
  by_cases heq : other = slot
  · subst heq
    simp [hR]
  · simp [heq]

theorem update_erase (hR : ¬ R job.state) :
    R (Function.update pool.jobs slot job other).state ↔ other ≠ slot ∧ R (pool.jobs other).state := by
  by_cases heq : other = slot
  · subst heq
    simp [hR]
  · simp [heq]

theorem update_same (hR : R job.state ↔ R (pool.jobs slot).state) :
    R (Function.update pool.jobs slot job other).state ↔ R (pool.jobs other).state := by
  by_cases heq : other = slot
  · subst heq
    simp [hR]
  · simp [heq]

end

/-! ## Active slots -/

@[simp] theorem mem_active : slot ∈ pool.active ↔ (pool.jobs slot).state ≠ .free := by
  simp [active]

theorem card_active_insert (hjobs : pool'.jobs = Function.update pool.jobs slot job)
    (hfree : (pool.jobs slot).state = .free) (hjob : job.state ≠ .free) :
    pool'.active.card = pool.active.card + 1 := by
  have heq : pool'.active = insert slot pool.active := by
    ext other
    rw [mem_active, hjobs, Finset.mem_insert, mem_active]
    exact update_insert (R := (· ≠ .free)) hjob
  rw [heq, Finset.card_insert_of_notMem (by simp [hfree])]

theorem card_active_erase (hjobs : pool'.jobs = Function.update pool.jobs slot job)
    (hused : (pool.jobs slot).state ≠ .free) (hjob : job.state = .free) :
    pool'.active.card + 1 = pool.active.card := by
  have heq : pool'.active = pool.active.erase slot := by
    ext other
    rw [mem_active, hjobs, Finset.mem_erase, mem_active]
    exact update_erase (R := (· ≠ .free)) (by simpa using hjob)
  have hmem : slot ∈ pool.active := by simpa using hused
  rw [heq, Finset.card_erase_add_one hmem]

theorem card_active_same (hjobs : pool'.jobs = Function.update pool.jobs slot job)
    (hused : (pool.jobs slot).state ≠ .free) (hjob : job.state ≠ .free) :
    pool'.active.card = pool.active.card := by
  have heq : pool'.active = pool.active := by
    ext other
    rw [mem_active, hjobs, mem_active]
    exact update_same (R := (· ≠ .free)) (iff_of_true hjob hused)
  rw [heq]

theorem Valid.pos (h : pool.Valid) (slot : Slot) (hused : (pool.jobs slot).state ≠ .free) : 0 < pool.activeJobs := by
  rw [h.active, Finset.card_pos]
  exact ⟨slot, by simpa using hused⟩

/-! ## Changes that keep the pool valid -/

/-- The worker is busy with no other job, before and after. -/
structure Spares (pool : Pool) (slot : Slot) (worker : Worker) : Prop where
  busy : ∀ other, other ≠ slot → ¬ (pool.jobs other).state.Busy
  resolving : ∀ other host port, other ≠ slot → worker ≠ .resolving other host port

variable (h : pool.Valid) (hjobs : pool'.jobs = Function.update pool.jobs slot job)
  (hqueue : Holds pool'.queue fun other => (Function.update pool.jobs slot job other).state = .queued)
  (hcompletions : Holds pool'.completions
    fun other => (Function.update pool.jobs slot job other).state.Done)
  (hbusy : job.state.Busy →
    pool'.worker = .exited ∨ ∃ host port, pool'.worker = .resolving slot host port)
  (hresolving : ∀ host port, pool'.worker = .resolving slot host port →
    (job.state = .running ∧ host = job.host ∧ port = job.port) ∨ job.state = .cancelledRunning)
  (hothers : pool'.worker = pool.worker ∨ Spares pool slot pool'.worker)
  (hcallback : job.state.Awaited → job.complete ≠ 0)

include h hjobs hqueue hcompletions hbusy hresolving hothers hcallback

/-- A write to one job, with the rings, the worker and the counters that go with it. -/
theorem Valid.update (hactive : pool'.activeJobs = pool'.active.card)
    (hwake : 0 < pool'.activeJobs → pool'.wakeActive = true) : pool'.Valid where
  queue := by
    rw [hjobs]
    exact hqueue
  completions := by
    rw [hjobs]
    exact hcompletions
  busy other hother := by
    rw [hjobs] at hother
    by_cases heq : other = slot
    · subst heq
      rw [Function.update_self] at hother
      exact hbusy hother
    · rw [Function.update_of_ne heq] at hother
      rcases hothers with hworker | hspares
      · rw [hworker]
        exact h.busy other hother
      · exact absurd hother (hspares.busy other heq)
  resolving other host port hother := by
    rw [hjobs]
    by_cases heq : other = slot
    · subst heq
      rw [Function.update_self]
      exact hresolving host port hother
    · rw [Function.update_of_ne heq]
      rcases hothers with hworker | hspares
      · exact h.resolving other host port (hworker.symm.trans hother)
      · exact absurd hother (hspares.resolving other host port heq)
  callback other hother := by
    rw [hjobs] at hother ⊢
    by_cases heq : other = slot
    · subst heq
      rw [Function.update_self] at hother ⊢
      exact hcallback hother
    · rw [Function.update_of_ne heq] at hother ⊢
      exact h.callback other hother
  active := hactive
  wake := hwake

theorem Valid.write (hcount : pool'.activeJobs = pool.activeJobs)
    (hwake : pool'.wakeActive = pool.wakeActive) (hused : (pool.jobs slot).state ≠ .free)
    (hjob : job.state ≠ .free) : pool'.Valid := by
  refine h.update hjobs hqueue hcompletions hbusy hresolving hothers hcallback ?_ fun _ => ?_
  · rw [hcount, h.active, card_active_same hjobs hused hjob]
  · rw [hwake]
    exact h.wake (h.pos slot hused)

end Pool

end Nomo.Blocking
