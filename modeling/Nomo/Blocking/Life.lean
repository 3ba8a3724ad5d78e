import Nomo.Blocking.Valid

/-!
# The life of a slot

What a slot of the job table stands for, whatever else goes on: no job, a job at one of the stages between
its submission and the result that is taken, or one that was cancelled while the worker had it. `lifetime`
is the automaton of what is shown about one slot.
-/

namespace Nomo.Blocking

open Nomo.Lib

/-! ## The automaton -/

/-- What a slot stands for. -/
inductive Life
  | free
  | queued (ticket : Ticket)
  | running (ticket : Ticket)
  | completed (ticket : Ticket) (resolution : Resolution)
  | delivered (ticket : Ticket) (resolution : Resolution)
  | cancelledRunning
  | cancelledQueued
deriving DecidableEq

/-- The slot that a label is about. What is refused is about none; a shutdown is about all. -/
def Label.slot : Label → Option Slot
  | .submitted slot _ | .taken slot _ _ | .cancelled slot _ | .called slot _ _ _ => some slot
  | .released slot | .dropped slot | .dequeued slot _ _ | .skipped slot => some slot
  | .finished slot _ _ _ | .overflowed slot => some slot
  | .submitRefused _ | .submitting | .takeRefused .. | .cancelIgnored .. | .idled | .wakes => none
  | .drained | .rearmed | .signalled | .workerExited | .runtimeFailed | .stopping | .shutDown => none

/-- A label is about a slot. -/
def Label.About (slot : Slot) (label : Label) : Prop := label.slot = some slot ∨ label = .shutDown

instance (slot : Slot) : DecidablePred (Label.About slot) := fun label =>
  inferInstanceAs (Decidable (label.slot = some slot ∨ label = .shutDown))

/-- What may be shown about a slot. -/
def Life.Answers (life : Life) : Label → Prop
  | .submitted .. => life = .free
  | .dequeued _ host port => ∃ ticket, life = .queued ticket ∧ host = ticket.host ∧ port = ticket.port
  | .finished _ host port _ =>
    (∃ ticket, life = .running ticket ∧ host = ticket.host ∧ port = ticket.port) ∨
      life = .cancelledRunning
  | .called _ generation owner complete => ∃ ticket resolution, life = .completed ticket resolution ∧
      generation = ticket.generation ∧ owner = ticket.owner ∧ complete = ticket.complete
  | .released _ => life = .cancelledQueued
  | .taken _ generation resolution => ∃ ticket, life = .delivered ticket resolution ∧
      generation = ticket.generation
  | .cancelled _ generation => ∃ ticket, generation = ticket.generation ∧
      (life = .queued ticket ∨ life = .running ticket ∨
        (∃ resolution, life = .completed ticket resolution) ∨
        ∃ resolution, life = .delivered ticket resolution)
  | .dropped _ | .skipped _ | .overflowed _ => False
  | .submitRefused _ | .submitting | .takeRefused .. | .cancelIgnored .. | .idled | .wakes => True
  | .drained | .rearmed | .signalled | .workerExited | .runtimeFailed | .stopping | .shutDown => True

/-- Where it leads. -/
def Life.next (life : Life) : Label → Life
  | .submitted _ ticket => .queued ticket
  | .dequeued .. => match life with
    | .queued ticket => .running ticket
    | life => life
  | .finished _ _ _ resolution => match life with
    | .running ticket => .completed ticket resolution
    | .cancelledRunning => .cancelledQueued
    | life => life
  | .called .. => match life with
    | .completed ticket resolution => .delivered ticket resolution
    | life => life
  | .cancelled .. => match life with
    | .running _ => .cancelledRunning
    | .completed .. => .cancelledQueued
    | _ => .free
  | .released _ | .taken .. | .shutDown => .free
  | .dropped _ | .skipped _ | .overflowed _ => life
  | .submitRefused _ | .submitting | .takeRefused .. | .cancelIgnored .. | .idled | .wakes => life
  | .drained | .rearmed | .signalled | .workerExited | .runtimeFailed | .stopping => life

/-- The automaton of one slot. -/
def lifetime (slot : Slot) : Automaton Life Label :=
  Automaton.component (Label.About slot) Life.Answers Life.next

namespace lifetime

variable {slot : Slot} {life : Life} {label : Label} {labels labels' : List Label}

theorem next_own (h : label.About slot) : (lifetime slot).next life label = life.next label :=
  Automaton.component_next_own h

theorem next_other (h : ¬ label.About slot) : (lifetime slot).next life label = life :=
  Automaton.component_next_other h

theorem keeps (kept : Life → Prop) (hstep : ∀ label ∈ labels, label.About slot →
      ∀ life, kept life → life.Answers label → kept (life.next label))
    (hlegal : (lifetime slot).Legal life labels) (hlife : kept life) :
    kept ((lifetime slot).after life labels) :=
  Automaton.component_keeps kept hstep hlegal hlife

theorem split (hlegal : (lifetime slot).Legal life (labels ++ label :: labels'))
    (hown : label.About slot) :
    ((lifetime slot).after life labels).Answers label ∧
      (lifetime slot).Legal (((lifetime slot).after life labels).next label) labels' :=
  Automaton.component_split hlegal hown

end lifetime

/-! ## The pool's lives -/

/-- The ticket of a job. -/
def Job.ticket (job : Job) : Ticket where
  generation := job.generation
  host := job.host
  port := job.port
  owner := job.owner
  complete := job.complete

/-- The life of a slot with a job. -/
def Job.life (job : Job) : Life :=
  match job.state with
  | .free => .free
  | .queued => .queued job.ticket
  | .running => .running job.ticket
  | .completedQueued => .completed job.ticket job.resolution
  | .completedDelivered => .delivered job.ticket job.resolution
  | .cancelledRunning => .cancelledRunning
  | .cancelledQueued => .cancelledQueued

/-- The life of a slot. -/
def System.lifeOf (system : System) (slot : Slot) : Life :=
  match system.pool with
  | none => .free
  | some pool => (pool.jobs slot).life

/-- What always holds. A `submit` under way has the wake registration. -/
structure System.Valid (system : System) : Prop where
  pool : ∀ pool, system.pool = some pool → pool.Valid
  submitting : ∀ request, system.call = .submitting request →
    ∃ pool, system.pool = some pool ∧ pool.wakeActive = true

/-- A step keeps the system valid and shows, for each slot, what its life allows. -/
abbrev Follows : System → Label → System → Prop :=
  Automaton.Follows System.Valid System.lifeOf lifetime

namespace Follows

variable {system system' : System} {label : Label} {slot : Slot}

theorem of_own (hlabel : label.slot = some slot) (hvalid : system'.Valid)
    (hanswers : (system.lifeOf slot).Answers label)
    (hown : system'.lifeOf slot = (system.lifeOf slot).next label)
    (hother : ∀ other, other ≠ slot → system'.lifeOf other = system.lifeOf other) :
    Follows system label system' where
  keeps := hvalid
  allows other h := by
    have heq : other = slot := by
      rcases h with h | rfl
      · exact Option.some.inj (h.symm.trans hlabel)
      · cases hlabel
    rw [heq]
    exact hanswers
  leads other := by
    by_cases heq : other = slot
    · rw [heq, lifetime.next_own (.inl hlabel), hown]
    have hne : ¬ label.About other := by
      rintro (h | rfl)
      · exact heq (Option.some.inj (h.symm.trans hlabel))
      · cases hlabel
    rw [lifetime.next_other hne, hother other heq]

theorem of_none (hlabel : label.slot = none) (hshutDown : label ≠ .shutDown) (hvalid : system'.Valid)
    (hsame : ∀ slot, system'.lifeOf slot = system.lifeOf slot) : Follows system label system' := by
  have hnot : ∀ slot, ¬ label.About slot := by
    rintro slot (h | h)
    · rw [hlabel] at h
      cases h
    · exact hshutDown h
  refine ⟨hvalid, fun slot h => absurd h (hnot slot), fun slot => ?_⟩
  rw [lifetime.next_other (hnot slot), hsame slot]

end Follows

end Nomo.Blocking
