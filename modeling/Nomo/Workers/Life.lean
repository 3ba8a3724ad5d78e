import Nomo.Workers.Registry

/-!
# The life of a handle

What a handle stands for, whatever else goes on: a task that was never started, one that runs, one that
has ended with a result, or one that is gone. `lifetime` is the automaton of what is shown about one
handle, and `follows` says that the registry's steps show what it allows: the registry with its up to 64
tasks is, for each handle, this automaton.
-/

namespace Nomo.Workers

open Nomo.Lib

/-! ## The automaton -/

/-- What a handle stands for; `joining` says that the owner waits for it. -/
inductive Life
  | unborn
  | running (cancelRequested joining : Bool)
  | ended (result : Except TaskError TaskJoin) (joining : Bool)
  | gone
deriving DecidableEq

/-- The handle that a label is about. -/
def Label.handle : Label → Option ℕ
  | .spawnFailed _ => none
  | .registered handle | .startFailed handle | .threadCreated handle | .spawned handle => some handle
  | .asked handle _ | .completed handle _ _ | .joined handle _ _ | .waits handle _ => some handle
  | .waitsAgain handle _ | .waited handle _ _ | .cancelled handle _ | .closed handle _ => some handle

/-- The result of a task that has ended with an outcome. -/
def ending (cancelRequested : Bool) (outcome : Outcome) (output : Option (List UInt8)) :
    Except TaskError TaskJoin :=
  if cancelRequested then .ok .cancelled
  else match outcome with
    | .outputTooLarge => .error outputLimit
    | .outputNotCopied => .error outputResource
    | .cancelled => .ok .cancelled
    | .completed => .ok (.completed (output.getD []))

/-- What may be shown about a handle. -/
def Life.Answers (life : Life) : Label → Prop
  | .registered _ => life = .unborn
  | .startFailed _ => life = .running false false
  | .completed .. => ∃ cancelRequested joining, life = .running cancelRequested joining
  | .asked _ answer => match life with
    | .running cancelRequested _ => answer = cancelRequested
    | .ended result _ => (answer = true ↔ result = .ok .cancelled)
    | .unborn | .gone => answer = false
  | .joined _ timeoutMillis result =>
    if maxJoinTimeout < timeoutMillis then result = .error timeoutTooLong
    else match life with
      | .running _ joining => joining = false ∧ (result = .ok .timeout ∨ result = .error noClock)
      | .ended last joining => joining = false ∧ result = last
      | .unborn | .gone => result = .error handleClosed
  | .waits _ timeoutMillis =>
    timeoutMillis ≤ maxJoinTimeout ∧ ∃ cancelRequested, life = .running cancelRequested false
  | .waited _ timeoutMillis result =>
    timeoutMillis ≤ maxJoinTimeout ∧ match life with
      | .running _ joining => joining = true ∧ (result = .ok .timeout ∨ result = .error noWait)
      | .ended last joining => joining = true ∧ (result = last ∨ result = .error noWait)
      | .unborn | .gone => False
  | .cancelled _ result => match life with
    | .running .. | .ended .. => result = .ok ()
    | .unborn | .gone => result = .error handleClosed
  | .closed _ result => match life with
    | .running .. => result = .error stillRunning
    | .ended .. => result = .ok ()
    | .unborn | .gone => result = .error handleClosed
  | .spawnFailed _ | .threadCreated _ | .spawned _ | .waitsAgain .. => True

/-- Where it leads. -/
def Life.next (life : Life) : Label → Life
  | .registered _ => .running false false
  | .startFailed _ => .gone
  | .completed _ outcome output => match life with
    | .running cancelRequested joining => .ended (ending cancelRequested outcome output) joining
    | life => life
  | .waits .. => match life with
    | .running cancelRequested _ => .running cancelRequested true
    | life => life
  | .waited .. => match life with
    | .running cancelRequested _ => .running cancelRequested false
    | .ended result _ => .ended result false
    | life => life
  | .cancelled .. => match life with
    | .running _ joining => .running true joining
    | life => life
  | .closed .. => match life with
    | .ended .. => .gone
    | life => life
  | .spawnFailed _ | .threadCreated _ | .spawned _ | .asked .. | .joined .. | .waitsAgain .. => life

/-- The automaton of one handle. -/
def lifetime (handle : ℕ) : Automaton Life Label :=
  Automaton.component (fun label => label.handle = some handle) Life.Answers Life.next

namespace lifetime

variable {handle : ℕ} {life : Life} {label : Label} {labels labels' : List Label}

theorem next_own (h : label.handle = some handle) :
    (lifetime handle).next life label = life.next label :=
  Automaton.component_next_own h

theorem next_other (h : label.handle ≠ some handle) : (lifetime handle).next life label = life :=
  Automaton.component_next_other h

theorem keeps (kept : Life → Prop) (hstep : ∀ label ∈ labels, label.handle = some handle →
      ∀ life, kept life → life.Answers label → kept (life.next label))
    (hlegal : (lifetime handle).Legal life labels) (hlife : kept life) :
    kept ((lifetime handle).after life labels) :=
  Automaton.component_keeps kept hstep hlegal hlife

theorem split (hlegal : (lifetime handle).Legal life (labels ++ label :: labels'))
    (hown : label.handle = some handle) :
    ((lifetime handle).after life labels).Answers label ∧
      (lifetime handle).Legal (((lifetime handle).after life labels).next label) labels' :=
  Automaton.component_split hlegal hown

end lifetime

/-! ## The registry's lives -/

/-- The owner waits for a handle. -/
def Owner.joins (owner : Owner) (handle : ℕ) : Bool :=
  match owner with
  | .waiting waited _ => waited = handle
  | _ => false

namespace TaskState

/-- The life of a task in the registry. -/
def life (task : TaskState) (joining : Bool) : Life :=
  if task.finished then .ended task.result joining else .running task.cancelRequested joining

end TaskState

/-- The handles below this one were given out. -/
def Registry.issued (registry : Registry) : ℕ :=
  if registry.nextHandle = 0 then 2 ^ 64 else registry.nextHandle

namespace System

/-- The life of a handle. A handle that was given out and is not found is gone. -/
def lifeOf (system : System) (handle : ℕ) : Life :=
  match system.registry.find handle with
  | some task => task.life (system.owner.joins handle)
  | none => if handle < system.registry.issued then .gone else .unborn

variable {system : System} {handle : ℕ} {task : TaskState}

theorem lifeOf_found (h : system.registry.find handle = some task) :
    system.lifeOf handle = task.life (system.owner.joins handle) := by
  rw [lifeOf, h]

theorem lifeOf_absent (h : system.registry.find handle = none) :
    system.lifeOf handle = if handle < system.registry.issued then .gone else .unborn := by
  rw [lifeOf, h]

end System

/-! ## What the registry keeps -/

/-- What always holds of the registry. -/
structure Registry.Valid (registry : Registry) : Prop where
  live : registry.liveCount = registry.tasks.length
  bounded : registry.tasks.length ≤ maxLive
  distinct : (registry.tasks.map TaskState.handle).Nodup
  issued : ∀ task ∈ registry.tasks, task.handle < registry.issued
  word : registry.nextHandle < 2 ^ 64
  created : ∀ task ∈ registry.tasks, task.finished = true → task.threadCreated = true
  outcome : ∀ task ∈ registry.tasks, task.finished = true →
    (task.cancelRequested = true ↔ task.outcome = .cancelled)

/-- What always holds where the owner is. -/
def Owner.Valid (registry : Registry) : Owner → Prop
  | .idle | .started _ => True
  | .starting handle => ∃ task, registry.find handle = some task ∧ task.threadCreated = false ∧
      task.cancelRequested = false
  | .waiting handle timeoutMillis => timeoutMillis ≤ maxJoinTimeout ∧ (registry.find handle).isSome

/-- What always holds. -/
structure System.Valid (system : System) : Prop where
  registry : system.registry.Valid
  owner : system.owner.Valid system.registry

theorem valid_initial : System.initial.Valid where
  registry :=
    { live := rfl
      bounded := Nat.zero_le _
      distinct := List.nodup_nil
      issued := by simp [System.initial, Registry.empty]
      word := by simp [System.initial, Registry.empty]
      created := by simp [System.initial, Registry.empty]
      outcome := by simp [System.initial, Registry.empty] }
  owner := trivial

namespace Registry

variable {registry registry' : Registry} {handle handle' : ℕ} {task : TaskState} {input : List UInt8}
  {f : TaskState → TaskState}

/-! ### Changes of a task -/

theorem find_modify (hf : ∀ task, (f task).handle = task.handle) :
    (registry.modify handle f).find handle' =
      if handle' = handle then (registry.find handle').map f else registry.find handle' :=
  Keyed.find_modify hf

@[simp] theorem issued_modify : (registry.modify handle f).issued = registry.issued := rfl

/-- A change that keeps the handle, and what is known of a task, keeps the registry valid. -/
theorem Valid.modify (h : registry.Valid) (hf : ∀ task, (f task).handle = task.handle)
    (hcreated : ∀ task ∈ registry.tasks, task.handle = handle →
      (f task).finished = true → (f task).threadCreated = true)
    (houtcome : ∀ task ∈ registry.tasks, task.handle = handle →
      (f task).finished = true → ((f task).cancelRequested = true ↔ (f task).outcome = .cancelled)) :
    (registry.modify handle f).Valid where
  live := by
    rw [Registry.modify, Keyed.length_modify]
    exact h.live
  bounded := by
    rw [Registry.modify, Keyed.length_modify]
    exact h.bounded
  distinct := by
    rw [Registry.modify, Keyed.map_modify hf]
    exact h.distinct
  issued task hmem := by
    rw [issued_modify]
    rcases Keyed.mem_modify hmem with hbefore | ⟨before, hbefore, -, rfl⟩
    · exact h.issued task hbefore
    · rw [hf]
      exact h.issued before hbefore
  word := h.word
  created task hmem hfinished := by
    rcases Keyed.mem_modify hmem with hbefore | ⟨before, hbefore, hhandle, rfl⟩
    · exact h.created task hbefore hfinished
    · exact hcreated before hbefore hhandle hfinished
  outcome task hmem hfinished := by
    rcases Keyed.mem_modify hmem with hbefore | ⟨before, hbefore, hhandle, rfl⟩
    · exact h.outcome task hbefore hfinished
    · exact houtcome before hbefore hhandle hfinished

/-! ### Removals -/

theorem remove_of_found (h : registry.Valid) (hfound : (registry.find handle).isSome) :
    registry.remove handle =
      { registry with
        tasks := Keyed.remove TaskState.handle registry.tasks handle
        liveCount := registry.liveCount - 1 } := by
  have hlength := Keyed.length_remove hfound
  have hpos : 0 < registry.liveCount := by
    rw [h.live]
    omega
  rw [Registry.remove, if_pos hfound, if_pos hpos]

theorem Valid.find_remove (h : registry.Valid) :
    (registry.remove handle).find handle' =
      if handle' = handle then none else registry.find handle' := by
  rw [Registry.remove]
  split
  · exact Keyed.find_remove h.distinct
  rename_i hnone
  by_cases heq : handle' = handle
  · subst heq
    rw [if_pos rfl]
    simpa using hnone
  · rw [if_neg heq]

@[simp] theorem issued_remove : (registry.remove handle).issued = registry.issued := by
  rw [Registry.remove]
  split <;> rfl

theorem Valid.remove (h : registry.Valid) (hfound : (registry.find handle).isSome) :
    (registry.remove handle).Valid := by
  have hlength := Keyed.length_remove hfound
  have hsub : ∀ task ∈ (registry.remove handle).tasks, task ∈ registry.tasks := by
    rw [remove_of_found h hfound]
    exact fun task hmem => Keyed.mem_of_mem_remove hmem
  have hlive := h.live
  have hbounded := h.bounded
  constructor
  · rw [remove_of_found h hfound]
    show registry.liveCount - 1 = (Keyed.remove TaskState.handle registry.tasks handle).length
    omega
  · rw [remove_of_found h hfound]
    show (Keyed.remove TaskState.handle registry.tasks handle).length ≤ maxLive
    omega
  · rw [remove_of_found h hfound]
    exact Keyed.nodup_remove h.distinct
  · intro task hmem
    rw [issued_remove]
    exact h.issued task (hsub task hmem)
  · rw [remove_of_found h hfound]
    exact h.word
  · exact fun task hmem => h.created task (hsub task hmem)
  · exact fun task hmem => h.outcome task (hsub task hmem)

/-! ### Registrations -/

theorem register_ok (h : registry.register input = .ok (handle, registry')) :
    registry.liveCount < maxLive ∧ registry.nextHandle ≠ 0 ∧ handle = registry.nextHandle ∧
      ∃ task : TaskState, task.handle = handle ∧ task.cancelRequested = false ∧
        task.finished = false ∧ task.threadCreated = false ∧
        registry' = { tasks := task :: registry.tasks
                      nextHandle := (registry.nextHandle + 1) % 2 ^ 64
                      liveCount := registry.liveCount + 1 } := by
  unfold register at h
  split at h
  · cases h
  split at h
  · cases h
  · rename_i hlive hnext
    cases h
    exact ⟨by omega, hnext, rfl, _, rfl, rfl, rfl, rfl, rfl⟩

theorem issued_register (h : registry.Valid) (hok : registry.register input = .ok (handle, registry')) :
    handle = registry.issued ∧ registry'.issued = registry.issued + 1 := by
  obtain ⟨-, hnext, rfl, task, -, -, -, -, rfl⟩ := register_ok hok
  have hword := h.word
  refine ⟨by rw [issued, if_neg hnext], ?_⟩
  show (if (registry.nextHandle + 1) % 2 ^ 64 = 0 then 2 ^ 64 else (registry.nextHandle + 1) % 2 ^ 64) = _
  rw [issued, if_neg hnext]
  by_cases hlast : registry.nextHandle + 1 = 2 ^ 64
  · rw [hlast, Nat.mod_self, if_pos rfl]
  · rw [Nat.mod_eq_of_lt (by omega), if_neg (by omega)]

theorem Valid.register (h : registry.Valid) (hok : registry.register input = .ok (handle, registry')) :
    registry'.Valid := by
  obtain ⟨hhandle, hissued⟩ := issued_register h hok
  obtain ⟨hlive, -, -, task, htask, -, hfinished, -, rfl⟩ := register_ok hok
  have hcount := h.live
  constructor
  · show registry.liveCount + 1 = registry.tasks.length + 1
    omega
  · show registry.tasks.length + 1 ≤ maxLive
    omega
  · show ((task :: registry.tasks).map TaskState.handle).Nodup
    rw [List.map_cons, List.nodup_cons]
    refine ⟨fun hmem => ?_, h.distinct⟩
    obtain ⟨other, hother, heq⟩ := List.mem_map.mp hmem
    have hlt := h.issued other hother
    omega
  · intro other hmem
    rw [hissued]
    rcases List.mem_cons.mp hmem with rfl | hmem
    · omega
    · have hlt := h.issued other hmem
      omega
  · exact Nat.mod_lt _ (by norm_num)
  · intro other hmem hdone
    rcases List.mem_cons.mp hmem with rfl | hmem
    · rw [hfinished] at hdone
      cases hdone
    · exact h.created other hmem hdone
  · intro other hmem hdone
    rcases List.mem_cons.mp hmem with rfl | hmem
    · rw [hfinished] at hdone
      cases hdone
    · exact h.outcome other hmem hdone

end Registry

end Nomo.Workers
