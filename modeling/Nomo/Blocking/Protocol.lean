import Nomo.Blocking.Following

/-!
# The protocol of the resolver pool

What is shown about a slot after a submission, until the slot gets another job, is the beginning of one of
few courses (`Course`): the job is taken from the queue, looked up, handed to its callback and taken, or
it is cancelled somewhere on the way. `jobs_protocol` is what follows for every run of the owner and the worker.
-/

namespace Nomo.Blocking

open Nomo.Lib

/-! ## Courses of a job -/

section

variable (slot : Slot) (ticket : Ticket)

/-- The worker takes the job from the queue. -/
def Ticket.dequeued : Label := .dequeued slot ticket.host ticket.port

/-- The worker is done with the job. -/
def Ticket.finished (resolution : Resolution) : Label :=
  .finished slot ticket.host ticket.port resolution

/-- The job's callback is called. -/
def Ticket.called : Label := .called slot ticket.generation ticket.owner ticket.complete

/-- The job's result is taken. -/
def Ticket.taken (resolution : Resolution) : Label := .taken slot ticket.generation resolution

/-- The job is cancelled. -/
def Ticket.cancelled : Label := .cancelled slot ticket.generation

/-- What is shown about a job that was submitted, and the life of its slot then. -/
inductive Course : List Label → Life → Prop
  | queued : Course [] (.queued ticket)
  | running : Course [ticket.dequeued slot] (.running ticket)
  | completed (resolution : Resolution) :
      Course [ticket.dequeued slot, ticket.finished slot resolution] (.completed ticket resolution)
  | delivered (resolution : Resolution) :
      Course [ticket.dequeued slot, ticket.finished slot resolution, ticket.called slot]
        (.delivered ticket resolution)
  | taken (resolution : Resolution) :
      Course [ticket.dequeued slot, ticket.finished slot resolution, ticket.called slot,
        ticket.taken slot resolution] .free
  | cancelledQueued : Course [ticket.cancelled slot] .free
  | cancelledRunning : Course [ticket.dequeued slot, ticket.cancelled slot] .cancelledRunning
  | cancelledFinished (host port : String) (resolution : Resolution) :
      Course [ticket.dequeued slot, ticket.cancelled slot, .finished slot host port resolution]
        .cancelledQueued
  | cancelledFinishedReleased (host port : String) (resolution : Resolution) :
      Course [ticket.dequeued slot, ticket.cancelled slot, .finished slot host port resolution,
        .released slot] .free
  | cancelledCompleted (resolution : Resolution) :
      Course [ticket.dequeued slot, ticket.finished slot resolution, ticket.cancelled slot]
        .cancelledQueued
  | cancelledCompletedReleased (resolution : Resolution) :
      Course [ticket.dequeued slot, ticket.finished slot resolution, ticket.cancelled slot,
        .released slot] .free
  | cancelledDelivered (resolution : Resolution) :
      Course [ticket.dequeued slot, ticket.finished slot resolution, ticket.called slot,
        ticket.cancelled slot] .free

end

/-! ## What is shown where -/

section

variable {slot : Slot} {ticket : Ticket} {life : Life} {label : Label} {past labels : List Label}
  {resolution : Resolution}

section

-- The equations of these definitions are generated once, before the proofs that need them.
attribute [local simp] Label.slot

end

/-- What may be shown about the slot in each life. -/
inductive Shown (slot : Slot) : Life → Label → Prop
  | submitted (ticket : Ticket) : Shown slot .free (.submitted slot ticket)
  | dequeued (ticket : Ticket) : Shown slot (.queued ticket) (ticket.dequeued slot)
  | finished (ticket : Ticket) (resolution : Resolution) :
      Shown slot (.running ticket) (ticket.finished slot resolution)
  | discarded (host port : String) (resolution : Resolution) :
      Shown slot .cancelledRunning (.finished slot host port resolution)
  | called (ticket : Ticket) (resolution : Resolution) :
      Shown slot (.completed ticket resolution) (ticket.called slot)
  | taken (ticket : Ticket) (resolution : Resolution) :
      Shown slot (.delivered ticket resolution) (ticket.taken slot resolution)
  | released : Shown slot .cancelledQueued (.released slot)
  | cancelQueued (ticket : Ticket) : Shown slot (.queued ticket) (ticket.cancelled slot)
  | cancelRunning (ticket : Ticket) : Shown slot (.running ticket) (ticket.cancelled slot)
  | cancelCompleted (ticket : Ticket) (resolution : Resolution) :
      Shown slot (.completed ticket resolution) (ticket.cancelled slot)
  | cancelDelivered (ticket : Ticket) (resolution : Resolution) :
      Shown slot (.delivered ticket resolution) (ticket.cancelled slot)

theorem shown (hown : label.slot = some slot) (hanswers : life.Answers label) :
    Shown slot life label := by
  cases label with
  | submitted _ ticket =>
    cases hown
    cases hanswers
    exact .submitted ticket
  | dequeued =>
    cases hown
    obtain ⟨ticket, rfl, rfl, rfl⟩ := hanswers
    exact .dequeued ticket
  | finished _ host port resolution =>
    cases hown
    rcases hanswers with ⟨ticket, rfl, rfl, rfl⟩ | rfl
    · exact .finished ticket resolution
    · exact .discarded host port resolution
  | called =>
    cases hown
    obtain ⟨ticket, resolution, rfl, rfl, rfl, rfl⟩ := hanswers
    exact .called ticket resolution
  | taken _ _ resolution =>
    cases hown
    obtain ⟨ticket, rfl, rfl⟩ := hanswers
    exact .taken ticket resolution
  | released =>
    cases hown
    cases hanswers
    exact .released
  | cancelled =>
    cases hown
    obtain ⟨ticket, rfl, rfl | rfl | ⟨resolution, rfl⟩ | ⟨resolution, rfl⟩⟩ := hanswers
    · exact .cancelQueued ticket
    · exact .cancelRunning ticket
    · exact .cancelCompleted ticket resolution
    · exact .cancelDelivered ticket resolution
  | dropped | skipped | overflowed => exact absurd hanswers id
  | _ => cases hown

/-- A label about the slot, other than a submission, goes on with the course. -/
theorem Course.step (h : Course slot ticket past life) (hown : label.slot = some slot)
    (hsubmitted : ∀ ticket, label ≠ .submitted slot ticket) (hanswers : life.Answers label) :
    Course slot ticket (past ++ [label]) (life.next label) := by
  have hshown := shown hown hanswers
  cases h with
  | queued =>
    cases hshown with
    | dequeued => exact .running
    | cancelQueued => exact .cancelledQueued
  | running =>
    cases hshown with
    | finished _ resolution => exact .completed resolution
    | cancelRunning => exact .cancelledRunning
  | completed resolution =>
    cases hshown with
    | called => exact .delivered resolution
    | cancelCompleted => exact .cancelledCompleted resolution
  | delivered resolution =>
    cases hshown with
    | taken => exact .taken resolution
    | cancelDelivered => exact .cancelledDelivered resolution
  | cancelledRunning =>
    cases hshown with
    | discarded host port resolution => exact .cancelledFinished host port resolution
  | cancelledFinished host port resolution =>
    cases hshown
    exact .cancelledFinishedReleased host port resolution
  | cancelledCompleted resolution =>
    cases hshown
    exact .cancelledCompletedReleased resolution
  | taken | cancelledQueued | cancelledFinishedReleased | cancelledCompletedReleased
    | cancelledDelivered =>
    cases hshown with
    | submitted ticket => exact absurd rfl (hsubmitted ticket)

/-- The slot keeps its job: it gets no other one, and the pool is not shut down. -/
def KeepsJob (slot : Slot) (labels : List Label) : Prop :=
  ∀ label ∈ labels, (∀ ticket, label ≠ .submitted slot ticket) ∧ label ≠ .shutDown

/-- What is shown about the slot. -/
def shownOf (slot : Slot) (labels : List Label) : List Label :=
  labels.filter fun label => label.slot = some slot

theorem Course.run (h : Course slot ticket past life) (hkeeps : KeepsJob slot labels)
    (hlegal : (lifetime slot).Legal life labels) :
    Course slot ticket (past ++ shownOf slot labels) ((lifetime slot).after life labels) := by
  induction labels generalizing past life with
  | nil => rwa [shownOf, List.filter_nil, List.append_nil]
  | cons label labels ih =>
    obtain ⟨⟨hsubmitted, hshutDown⟩, hrest⟩ := List.forall_mem_cons.mp hkeeps
    obtain ⟨hallows, hafter⟩ := hlegal
    rw [Automaton.after_cons]
    by_cases hown : label.slot = some slot
    · rw [lifetime.next_own (.inl hown)] at hafter ⊢
      have hnext := ih (h.step hown hsubmitted (hallows (.inl hown))) hrest hafter
      rw [List.append_assoc, List.singleton_append] at hnext
      rw [shownOf, List.filter_cons_of_pos (by simpa using hown)]
      exact hnext
    · have hnot : ¬ label.About slot := not_or.mpr ⟨hown, hshutDown⟩
      rw [lifetime.next_other hnot] at hafter ⊢
      rw [shownOf, List.filter_cons_of_neg (by simpa using hown)]
      exact ih h hrest hafter

theorem course (hkeeps : KeepsJob slot labels) (hlegal : (lifetime slot).Legal (.queued ticket) labels) :
    Course slot ticket (shownOf slot labels) ((lifetime slot).after (.queued ticket) labels) := by
  have hstart : Course slot ticket [] (.queued ticket) := .queued
  exact hstart.run hkeeps hlegal

/-! ## What the courses have in common -/

/-- A callback of the slot's job is called. -/
def Label.calls (slot : Slot) : Label → Bool
  | .called other _ _ _ => other = slot
  | _ => false

/-- A result is taken from the slot. -/
def Label.takes (slot : Slot) : Label → Bool
  | .taken other _ _ => other = slot
  | _ => false

theorem countP_calls : (shownOf slot labels).countP (Label.calls slot) = labels.countP (Label.calls slot) := by
  rw [shownOf, List.countP_filter]
  refine List.countP_congr fun label _ => ?_
  cases label <;> simp [Label.calls, Label.slot]

theorem countP_takes : (shownOf slot labels).countP (Label.takes slot) = labels.countP (Label.takes slot) := by
  rw [shownOf, List.countP_filter]
  refine List.countP_congr fun label _ => ?_
  cases label <;> simp [Label.takes, Label.slot]

theorem mem_shownOf (hown : label.slot = some slot) : label ∈ shownOf slot labels ↔ label ∈ labels := by
  simp [shownOf, hown]

namespace Course

variable (h : Course slot ticket past life)

include h

theorem calls_le : past.countP (Label.calls slot) ≤ 1 := by
  cases h <;> simp [Label.calls, Ticket.dequeued, Ticket.finished, Ticket.called, Ticket.taken,
    Ticket.cancelled]

theorem takes_le : past.countP (Label.takes slot) ≤ 1 := by
  cases h <;> simp [Label.takes, Ticket.dequeued, Ticket.finished, Ticket.called, Ticket.taken,
    Ticket.cancelled]

theorem called_eq {generation owner complete : ℕ} (hmem : .called slot generation owner complete ∈ past) :
    generation = ticket.generation ∧ owner = ticket.owner ∧ complete = ticket.complete := by
  cases h <;> simp [Ticket.dequeued, Ticket.finished, Ticket.called, Ticket.taken, Ticket.cancelled] at hmem
  all_goals exact hmem

theorem settled (hlife : life = .free) : ticket.cancelled slot ∈ past ∨
    (past.countP (Label.calls slot) = 1 ∧ past.countP (Label.takes slot) = 1) := by
  cases h with
  | taken resolution =>
    refine .inr ⟨?_, ?_⟩
    · simp [Label.calls, Ticket.dequeued, Ticket.finished, Ticket.called, Ticket.taken]
    · simp [Label.takes, Ticket.dequeued, Ticket.finished, Ticket.called, Ticket.taken]
  | cancelledQueued | cancelledFinishedReleased | cancelledCompletedReleased | cancelledDelivered =>
    exact .inl (by simp)
  | _ => cases hlife

theorem on_its_way : ticket.cancelled slot ∈ past ∨ past.countP (Label.calls slot) = 1 ∨
    life = .queued ticket ∨ life = .running ticket ∨ ∃ resolution, life = .completed ticket resolution := by
  cases h with
  | queued => exact .inr (.inr (.inl rfl))
  | running => exact .inr (.inr (.inr (.inl rfl)))
  | completed resolution => exact .inr (.inr (.inr (.inr ⟨resolution, rfl⟩)))
  | delivered resolution | taken resolution =>
    refine .inr (.inl ?_)
    simp [Label.calls, Ticket.dequeued, Ticket.finished, Ticket.called, Ticket.taken]
  | _ => exact .inl (by simp)

theorem delivered_mem {other : Ticket} {resolution : Resolution}
    (hlife : life = .delivered other resolution) :
    other = ticket ∧ ticket.finished slot resolution ∈ past ∧ ticket.called slot ∈ past := by
  cases h with
  | delivered resolution =>
    cases hlife
    exact ⟨rfl, by simp, by simp⟩
  | _ => cases hlife

end Course

/-! ## The protocol -/

/-- What holds of a job, from what is shown after its submission. -/
structure JobLaw (slot : Slot) (ticket : Ticket) (since : List Label) : Prop where
  /-- Its callback is called at most once, with its own owner and generation. -/
  calledOnce : since.countP (Label.calls slot) ≤ 1
  called : ∀ generation owner complete, .called slot generation owner complete ∈ since →
    generation = ticket.generation ∧ owner = ticket.owner ∧ complete = ticket.complete
  /-- Its result is taken at most once, after its callback was called; it is what the lookup of its name
  gave. -/
  takenOnce : since.countP (Label.takes slot) ≤ 1
  taken : ∀ before after generation resolution,
    since = before ++ .taken slot generation resolution :: after → generation = ticket.generation ∧
      .finished slot ticket.host ticket.port resolution ∈ before ∧
      .called slot ticket.generation ticket.owner ticket.complete ∈ before
  /-- After a cancellation neither happens. -/
  cancelled : ∀ before after generation, since = before ++ .cancelled slot generation :: after →
    generation = ticket.generation ∧ after.countP (Label.calls slot) = 0 ∧
      after.countP (Label.takes slot) = 0

/-- A job is on its way: it is in the queue, or the worker has it, or its completion is to be processed. -/
def Pool.Has (pool : Pool) (slot : Slot) (ticket : Ticket) : Prop :=
  (pool.jobs slot).ticket = ticket ∧
    (((pool.jobs slot).state = .queued ∧ slot ∈ pool.queue.contents) ∨
      ((pool.jobs slot).state = .running ∧
        (pool.worker = .exited ∨ pool.worker = .resolving slot ticket.host ticket.port)) ∨
      ((pool.jobs slot).state = .completedQueued ∧ slot ∈ pool.completions.contents))

/-- What holds of a run. -/
structure Protocol (labels : List Label) (system : System) : Prop where
  job : ∀ before since after slot ticket, labels = before ++ .submitted slot ticket :: (since ++ after) →
    KeepsJob slot since → JobLaw slot ticket since
  /-- A slot gets another job only after its job was cancelled, or handed over and taken. -/
  replaced : ∀ before since after slot ticket ticket',
    labels = before ++ .submitted slot ticket :: (since ++ .submitted slot ticket' :: after) →
    KeepsJob slot since → .cancelled slot ticket.generation ∈ since ∨
      (since.countP (Label.calls slot) = 1 ∧ since.countP (Label.takes slot) = 1)
  /-- No job is lost: it was cancelled, or handed over, or it is on its way. -/
  kept : ∀ before since slot ticket, labels = before ++ .submitted slot ticket :: since →
    KeepsJob slot since → .cancelled slot ticket.generation ∈ since ∨
      since.countP (Label.calls slot) = 1 ∨ ∃ pool, system.pool = some pool ∧ pool.Has slot ticket
  /-- No slot gets another job while the worker has its job. -/
  busy : ∀ before between after slot host port ticket,
    labels = before ++ .dequeued slot host port :: (between ++ .submitted slot ticket :: after) →
    .shutDown ∉ between → ∃ host port resolution, .finished slot host port resolution ∈ between
  /-- The rings never overflow, and the worker never finds one full. -/
  rings : ∀ pool, system.pool = some pool → pool.queue.count ≤ 16 ∧ pool.completions.count ≤ 16
  overflowed : ∀ slot, .overflowed slot ∉ labels
  /-- The active jobs are counted, and while there is one the wake registration is active. -/
  active : ∀ pool, system.pool = some pool →
    pool.activeJobs = (Finset.univ.filter fun slot => (pool.jobs slot).state ≠ .free).card
  wake : ∀ pool, system.pool = some pool → 0 < pool.activeJobs → pool.wakeActive = true

section

variable {before between after : List Label}

theorem legal_submitted
    (hlegal : (lifetime slot).Legal life (before ++ .submitted slot ticket :: after)) :
    (lifetime slot).Legal (.queued ticket) after :=
  (lifetime.split hlegal (.inl rfl)).2

theorem quiet {life : Life} (hlife : life = .free ∨ life = .cancelledRunning ∨ life = .cancelledQueued)
    (hkeeps : KeepsJob slot labels) (hlegal : (lifetime slot).Legal life labels) :
    labels.countP (Label.calls slot) = 0 ∧ labels.countP (Label.takes slot) = 0 := by
  induction labels generalizing life with
  | nil => exact ⟨rfl, rfl⟩
  | cons label labels ih =>
    obtain ⟨⟨hsubmitted, hshutDown⟩, hrest⟩ := List.forall_mem_cons.mp hkeeps
    obtain ⟨hallows, hafter⟩ := hlegal
    by_cases hown : label.slot = some slot
    · have hshown := shown hown (hallows (.inl hown))
      rw [lifetime.next_own (.inl hown)] at hafter
      rcases hlife with rfl | rfl | rfl
      · cases hshown with
        | submitted ticket => exact absurd rfl (hsubmitted ticket)
      · cases hshown
        exact ih (.inr (.inr rfl)) hrest hafter
      · cases hshown
        exact ih (.inl rfl) hrest hafter
    · have hnot : ¬ label.About slot := not_or.mpr ⟨hown, hshutDown⟩
      rw [lifetime.next_other hnot] at hafter
      have hcalls : ¬ Label.calls slot label = true := by
        intro hcalls
        cases label <;> simp [Label.calls, Label.slot] at hcalls hown
        exact hown hcalls
      have htakes : ¬ Label.takes slot label = true := by
        intro htakes
        cases label <;> simp [Label.takes, Label.slot] at htakes hown
        exact hown htakes
      rw [List.countP_cons_of_neg hcalls, List.countP_cons_of_neg htakes]
      exact ih hlife hrest hafter

/-- A cancellation is of the slot's job, and takes it to a life of a cancelled job. -/
theorem cancelled_life {generation : ℕ} (h : Course slot ticket past life)
    (hanswers : life.Answers (.cancelled slot generation)) :
    generation = ticket.generation ∧ (life.next (.cancelled slot generation) = .free ∨
      life.next (.cancelled slot generation) = .cancelledRunning ∨
      life.next (.cancelled slot generation) = .cancelledQueued) := by
  obtain ⟨other, rfl, hlife⟩ := hanswers
  cases h with
  | queued | delivered =>
    rcases hlife with h | h | ⟨_, h⟩ | ⟨_, h⟩ <;> cases h
    exact ⟨rfl, .inl rfl⟩
  | running =>
    rcases hlife with h | h | ⟨_, h⟩ | ⟨_, h⟩ <;> cases h
    exact ⟨rfl, .inr (.inl rfl)⟩
  | completed =>
    rcases hlife with h | h | ⟨_, h⟩ | ⟨_, h⟩ <;> cases h
    exact ⟨rfl, .inr (.inr rfl)⟩
  | _ => rcases hlife with h | h | ⟨_, h⟩ | ⟨_, h⟩ <;> cases h

theorem KeepsJob.left (h : KeepsJob slot (before ++ after)) : KeepsJob slot before :=
  fun label hmem => h label (List.mem_append_left _ hmem)

theorem KeepsJob.right (h : KeepsJob slot (before ++ label :: after)) : KeepsJob slot after :=
  fun other hmem => h other (List.mem_append_right _ (List.mem_cons_of_mem _ hmem))

/-- **What is shown after a submission keeps the law of the job.** -/
theorem jobLaw (hkeeps : KeepsJob slot labels)
    (hlegal : (lifetime slot).Legal (.queued ticket) labels) : JobLaw slot ticket labels where
  calledOnce := by
    rw [← countP_calls]
    exact (course hkeeps hlegal).calls_le
  called generation owner complete hmem :=
    (course hkeeps hlegal).called_eq ((mem_shownOf rfl).mpr hmem)
  takenOnce := by
    rw [← countP_takes]
    exact (course hkeeps hlegal).takes_le
  taken before after generation resolution hlabels := by
    subst hlabels
    obtain ⟨hanswers, -⟩ := lifetime.split hlegal (.inl rfl)
    have hbefore := course hkeeps.left (Automaton.legal_append_iff.mp hlegal).1
    obtain ⟨other, hlife, hgeneration⟩ := hanswers
    obtain ⟨rfl, hfinished, hcalled⟩ := hbefore.delivered_mem hlife
    exact ⟨hgeneration, (mem_shownOf rfl).mp hfinished, (mem_shownOf rfl).mp hcalled⟩
  cancelled before after generation hlabels := by
    subst hlabels
    obtain ⟨hanswers, hafter⟩ := lifetime.split hlegal (.inl rfl)
    have hbefore := course hkeeps.left (Automaton.legal_append_iff.mp hlegal).1
    obtain ⟨hgeneration, hlife⟩ := cancelled_life hbefore hanswers
    exact ⟨hgeneration, quiet hlife hkeeps.right hafter⟩

theorem busy_after (hlabels : (∀ host port resolution, .finished slot host port resolution ∉ labels) ∧
      .shutDown ∉ labels) (hlegal : (lifetime slot).Legal (.running ticket) labels) :
    (lifetime slot).after (.running ticket) labels = .running ticket ∨
      (lifetime slot).after (.running ticket) labels = .cancelledRunning := by
  refine lifetime.keeps (fun life => life = .running ticket ∨ life = .cancelledRunning)
    (fun label hmem habout life hlife hanswers => ?_) hlegal (.inl rfl)
  have hown : label.slot = some slot :=
    habout.resolve_right fun heq => hlabels.2 (heq ▸ hmem)
  have hshown := shown hown hanswers
  rcases hlife with rfl | rfl
  · cases hshown with
    | finished => exact absurd hmem (hlabels.1 _ _ _)
    | cancelRunning => exact .inr rfl
  · cases hshown
    exact absurd hmem (hlabels.1 _ _ _)

variable {system : System}

theorem has_of_life (hs : system.Valid) (hlife : system.lifeOf slot = .queued ticket ∨
      system.lifeOf slot = .running ticket ∨
      ∃ resolution, system.lifeOf slot = .completed ticket resolution) :
    ∃ pool, system.pool = some pool ∧ pool.Has slot ticket := by
  unfold System.lifeOf at hlife
  cases hpool : system.pool with
  | none =>
    rw [hpool] at hlife
    rcases hlife with h | h | ⟨_, h⟩ <;> cases h
  | some pool =>
    rw [hpool] at hlife
    have hvalid := hs.pool pool hpool
    refine ⟨pool, rfl, ?_⟩
    unfold Job.life at hlife
    cases hstate : (pool.jobs slot).state with
    | queued =>
      simp only [hstate, Life.queued.injEq, reduceCtorEq, exists_false, or_false] at hlife
      exact ⟨hlife, .inl ⟨hstate, hvalid.queue.mem.mpr hstate⟩⟩
    | running =>
      simp only [hstate, Life.running.injEq, reduceCtorEq, exists_false, or_false, false_or] at hlife
      refine ⟨hlife, .inr (.inl ⟨hstate, ?_⟩)⟩
      rcases hvalid.busy slot (.inl hstate) with hexited | ⟨host, port, hworker⟩
      · exact .inl hexited
      rcases hvalid.resolving slot host port hworker with ⟨-, rfl, rfl⟩ | hcancelled
      · rw [← hlife]
        exact .inr hworker
      · rw [hstate] at hcancelled
        cases hcancelled
    | completedQueued =>
      simp only [hstate, Life.completed.injEq, reduceCtorEq, false_or] at hlife
      obtain ⟨_, hticket, -⟩ := hlife
      exact ⟨hticket, .inr (.inr ⟨hstate, hvalid.completions.mem.mpr (.inl hstate)⟩)⟩
    | free | completedDelivered | cancelledRunning | cancelledQueued =>
      simp [hstate] at hlife

/-- A name that is looked up. -/
def sample : Request where
  host := "a"
  port := 80
  owner := 7
  complete := 9
  complete_ne := by decide

end

end

end Nomo.Blocking
