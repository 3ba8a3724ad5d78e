import Nomo.Workers.Following

/-!
# The protocol of isolated workers

What holds in every run of the owner and the workers (`protocol`): how many tasks are live, that no handle
is given out twice, what a cancellation does to the joins after it, that an end once reported stays, and
what a close needs and what it leaves behind.

Each law is read off the life of a handle. A law of the form "after this, always" is a kind of life that
the labels in between keep (`lifetime.keeps`).
-/

namespace Nomo.Workers

open Nomo.Lib

/-! ## What labels say -/

/-- A `join` returns a result. -/
inductive Reports (handle timeoutMillis : ℕ) (result : Except TaskError TaskJoin) : Label → Prop
  | joined : Reports handle timeoutMillis result (.joined handle timeoutMillis result)
  | waited : Reports handle timeoutMillis result (.waited handle timeoutMillis result)

/-- The worker has recorded its completion. -/
def Completed (handle : ℕ) (labels : List Label) : Prop :=
  ∃ outcome output, .completed handle outcome output ∈ labels

/-- The handle was closed. -/
def Closed (handle : ℕ) (labels : List Label) : Prop := .closed handle (.ok ()) ∈ labels

/-- What is said of a handle that was closed. A `join` looks at its timeout first. -/
structure SaysClosed (handle : ℕ) (label : Label) : Prop where
  join : ∀ timeoutMillis result, Reports handle timeoutMillis result label →
    result = .error (if maxJoinTimeout < timeoutMillis then timeoutTooLong else handleClosed)
  cancel : ∀ result, label = .cancelled handle result → result = .error handleClosed
  close : ∀ result, label = .closed handle result → result = .error handleClosed
  asked : ∀ answer, label = .asked handle answer → answer = false

/-- The handle that a registration gives out. -/
def Label.registeredHandle : Label → Option ℕ
  | .registered handle => some handle
  | _ => none

/-- The handle that a `spawn` returns. -/
def Label.spawnedHandle : Label → Option ℕ
  | .spawned handle => some handle
  | _ => none

/-! ## Lives that are kept -/

section

variable {handle : ℕ} {life : Life} {label : Label} {labels : List Label}
  {result : Except TaskError TaskJoin}

theorem not_ended_next (hlife : ∀ result joining, life ≠ .ended result joining)
    (hlabel : ∀ outcome output, label ≠ .completed handle outcome output)
    (hown : label.handle = some handle) :
    ∀ result joining, life.next label ≠ .ended result joining := by
  intro result joining
  cases label with
  | completed other outcome output =>
    cases hown
    exact absurd rfl (hlabel outcome output)
  | waits | waited | cancelled | closed =>
    cases life with
    | ended last waiting => exact absurd rfl (hlife last waiting)
    | unborn | running | gone => nofun
  | registered | startFailed => nofun
  | spawnFailed | threadCreated | spawned | asked | joined | waitsAgain => exact hlife result joining

theorem running_next {joining : Bool} (hanswers : (Life.running true joining).Answers label)
    (hlabel : ∀ outcome output, label ≠ .completed handle outcome output)
    (hown : label.handle = some handle) :
    ∃ joining', (Life.running true joining).next label = .running true joining' := by
  cases label with
  | completed other outcome output =>
    cases hown
    exact absurd rfl (hlabel outcome output)
  | registered | startFailed => cases hanswers
  | waits | waited | cancelled | closed | spawnFailed | threadCreated | spawned | asked | joined
      | waitsAgain => exact ⟨_, rfl⟩

/-- A life that has ended stays so until the handle is closed; the owner waits no more once it has
stopped waiting. -/
theorem ended_next {joining : Bool} (hanswers : (Life.ended result joining).Answers label)
    (hlabel : label ≠ .closed handle (.ok ())) (hown : label.handle = some handle) :
    ∃ joining', (Life.ended result joining).next label = .ended result joining' ∧
      (joining = false → joining' = false) := by
  cases label with
  | closed other close =>
    cases hown
    cases hanswers
    exact absurd rfl hlabel
  | registered | startFailed => cases hanswers
  | waited => exact ⟨_, rfl, fun _ => rfl⟩
  | completed | waits | cancelled | spawnFailed | threadCreated | spawned | asked | joined
      | waitsAgain => exact ⟨_, rfl, id⟩

theorem gone_next (hanswers : Life.gone.Answers label) : Life.gone.next label = .gone := by
  cases label with
  | registered => cases hanswers
  | startFailed | completed | waits | waited | cancelled | closed | spawnFailed | threadCreated
      | spawned | asked | joined | waitsAgain => rfl

/-! ## Lives after labels -/

theorem not_ended_after (hlegal : (lifetime handle).Legal life labels)
    (hlife : ∀ result joining, life ≠ .ended result joining) (hlabels : ¬ Completed handle labels) :
    ∀ result joining, (lifetime handle).after life labels ≠ .ended result joining :=
  lifetime.keeps (fun life => ∀ result joining, life ≠ .ended result joining)
    (fun _ hmem hown _ hkeeps _ => not_ended_next hkeeps
      (fun outcome output heq => hlabels ⟨outcome, output, heq ▸ hmem⟩) hown) hlegal hlife

theorem running_after {joining : Bool} (hlegal : (lifetime handle).Legal (.running true joining) labels)
    (hlabels : ¬ Completed handle labels) :
    ∃ joining', (lifetime handle).after (.running true joining) labels = .running true joining' :=
  lifetime.keeps (fun life => ∃ joining', life = .running true joining')
    (fun _ hmem hown _ hkeeps hanswers => by
      obtain ⟨joining', rfl⟩ := hkeeps
      exact running_next hanswers (fun outcome output heq => hlabels ⟨outcome, output, heq ▸ hmem⟩) hown)
    hlegal ⟨joining, rfl⟩

/-- Until it is closed, a cancelled task runs on or has ended as cancelled. -/
theorem cancelled_after {joining : Bool} (hlegal : (lifetime handle).Legal (.running true joining) labels)
    (hlabels : ¬ Closed handle labels) :
    ∃ joining', (lifetime handle).after (.running true joining) labels = .running true joining' ∨
      (lifetime handle).after (.running true joining) labels = .ended (.ok .cancelled) joining' := by
  refine lifetime.keeps (fun life => ∃ joining', life = .running true joining' ∨
    life = .ended (.ok .cancelled) joining') (fun label hmem hown life hkeeps hanswers => ?_) hlegal
    ⟨joining, .inl rfl⟩
  obtain ⟨joining', rfl | rfl⟩ := hkeeps
  · by_cases hcompleted : ∃ outcome output, label = .completed handle outcome output
    · obtain ⟨outcome, output, rfl⟩ := hcompleted
      exact ⟨joining', .inr rfl⟩
    · obtain ⟨joining'', hnext⟩ := running_next hanswers
        (fun outcome output heq => hcompleted ⟨outcome, output, heq⟩) hown
      exact ⟨joining'', .inl hnext⟩
  · have hlabel : label ≠ .closed handle (.ok ()) := fun heq => hlabels (by rwa [Closed, ← heq])
    obtain ⟨joining'', hnext, -⟩ := ended_next hanswers hlabel hown
    exact ⟨joining'', .inr hnext⟩

theorem ended_after {joining : Bool} (hlegal : (lifetime handle).Legal (.ended result joining) labels)
    (hlabels : ¬ Closed handle labels) :
    ∃ joining', (lifetime handle).after (.ended result joining) labels = .ended result joining' ∧
      (joining = false → joining' = false) :=
  lifetime.keeps (fun life =>
      ∃ joining', life = .ended result joining' ∧ (joining = false → joining' = false))
    (fun _ hmem hown _ hkeeps hanswers => by
      obtain ⟨joining', rfl, hjoining⟩ := hkeeps
      have hlabel : _ ≠ Label.closed handle (.ok ()) := fun heq => hlabels (by rwa [Closed, ← heq])
      obtain ⟨joining'', hnext, hjoining'⟩ := ended_next hanswers hlabel hown
      exact ⟨joining'', hnext, hjoining' ∘ hjoining⟩)
    hlegal ⟨joining, rfl, id⟩

theorem gone_after (hlegal : (lifetime handle).Legal .gone labels) :
    (lifetime handle).after .gone labels = .gone :=
  lifetime.keeps (fun life => life = .gone)
    (fun _ _ _ _ hkeeps hanswers => by
      subst hkeeps
      exact gone_next hanswers) hlegal rfl

end

/-! ## Legal sequences -/

section

variable {handle : ℕ} {life : Life} {before between after : List Label} {first later : Label}

/-- A cancellation that succeeds before the worker has recorded its completion meets a running task. -/
theorem cancelled_running (hlife : ∀ result joining, life ≠ .ended result joining)
    (hlegal : (lifetime handle).Legal life (before ++ .cancelled handle (.ok ()) :: after))
    (hbefore : ¬ Completed handle before) :
    ∃ joining, (lifetime handle).Legal (.running true joining) after := by
  obtain ⟨hanswers, hafter⟩ := lifetime.split hlegal rfl
  have hnot := not_ended_after (Automaton.legal_append_iff.mp hlegal).1 hlife hbefore
  cases hwhere : (lifetime handle).after life before with
  | unborn | gone =>
    rw [hwhere] at hanswers
    cases hanswers
  | ended result joining => exact absurd hwhere (hnot result joining)
  | running cancelRequested joining =>
    rw [hwhere] at hafter
    exact ⟨joining, hafter⟩

theorem cancelled_ended {joining : Bool} {outcome : Outcome} {output : Option (List UInt8)}
    (hlegal : (lifetime handle).Legal (.running true joining)
      (before ++ .completed handle outcome output :: after)) (hbefore : ¬ Closed handle before) :
    ∃ joining', (lifetime handle).Legal (.ended (.ok .cancelled) joining') after := by
  obtain ⟨hanswers, hafter⟩ := lifetime.split hlegal rfl
  obtain ⟨joining', hwhere | hwhere⟩ :=
    cancelled_after (Automaton.legal_append_iff.mp hlegal).1 hbefore
  · rw [hwhere] at hafter
    exact ⟨joining', hafter⟩
  · rw [hwhere] at hanswers
    obtain ⟨_, _, hrunning⟩ := hanswers
    cases hrunning

theorem closed_ended (hanswers : life.Answers (.closed handle (.ok ()))) :
    ∃ result joining, life = .ended result joining := by
  cases life with
  | ended result joining => exact ⟨result, joining, rfl⟩
  | unborn | running | gone => cases hanswers

theorem Reports.own {timeoutMillis : ℕ} {result : Except TaskError TaskJoin}
    (h : Reports handle timeoutMillis result later) : later.handle = some handle := by
  cases h <;> rfl

theorem reports_running {cancelRequested joining : Bool} {timeoutMillis : ℕ}
    {result : Except TaskError TaskJoin} (hreports : Reports handle timeoutMillis result later)
    (htimeout : timeoutMillis ≤ maxJoinTimeout)
    (hanswers : (Life.running cancelRequested joining).Answers later) :
    result = .ok .timeout ∨ result = .error noClock ∨ result = .error noWait := by
  cases hreports with
  | joined =>
    obtain ⟨-, hresult⟩ := (if_neg (Nat.not_lt.mpr htimeout)).mp hanswers
    rcases hresult with rfl | rfl
    · exact .inl rfl
    · exact .inr (.inl rfl)
  | waited =>
    obtain ⟨-, -, hresult⟩ := hanswers
    rcases hresult with rfl | rfl
    · exact .inl rfl
    · exact .inr (.inr rfl)

theorem reports_ended {joining : Bool} {timeoutMillis : ℕ} {last result : Except TaskError TaskJoin}
    (hreports : Reports handle timeoutMillis result later) (htimeout : timeoutMillis ≤ maxJoinTimeout)
    (hanswers : (Life.ended last joining).Answers later) :
    result = last ∨
      (joining = true ∧ later = .waited handle timeoutMillis result ∧ result = .error noWait) := by
  cases hreports with
  | joined => exact .inl ((if_neg (Nat.not_lt.mpr htimeout)).mp hanswers).2
  | waited =>
    obtain ⟨-, hjoining, hresult⟩ := hanswers
    rcases hresult with hlast | hfailed
    · exact .inl hlast
    · exact .inr ⟨hjoining, rfl, hfailed⟩

/-- A `join` that reports an end meets a task that has ended so, and no longer waits for it. -/
theorem reports_end {timeoutMillis : ℕ} {result : TaskJoin} (hresult : result ≠ .timeout)
    (hreports : Reports handle timeoutMillis (.ok result) first) (hanswers : life.Answers first) :
    life.next first = .ended (.ok result) false := by
  cases hreports with
  | joined =>
    by_cases hlong : maxJoinTimeout < timeoutMillis
    · cases (if_pos hlong).mp hanswers
    have hlife := (if_neg hlong).mp hanswers
    cases life with
    | running cancelRequested joining =>
      rcases hlife.2 with heq | heq
      · exact absurd (Except.ok.inj heq) hresult
      · cases heq
    | ended last joining =>
      obtain ⟨rfl, rfl⟩ := hlife
      rfl
    | unborn | gone => cases hlife
  | waited =>
    obtain ⟨-, hlife⟩ := hanswers
    cases life with
    | running cancelRequested joining =>
      rcases hlife.2 with heq | heq
      · exact absurd (Except.ok.inj heq) hresult
      · cases heq
    | ended last joining =>
      rcases hlife.2 with rfl | heq
      · rfl
      · cases heq
    | unborn | gone => cases hlife

theorem gone_says (hanswers : later.handle = some handle → Life.gone.Answers later) :
    SaysClosed handle later where
  join timeoutMillis result hreports := by
    cases hreports with
    | joined =>
      have hresult := hanswers rfl
      by_cases hlong : maxJoinTimeout < timeoutMillis
      · rw [if_pos hlong]
        exact (if_pos hlong).mp hresult
      · rw [if_neg hlong]
        exact (if_neg hlong).mp hresult
    | waited => exact absurd (hanswers rfl).2 id
  cancel result heq := by
    subst heq
    exact hanswers rfl
  close result heq := by
    subst heq
    exact hanswers rfl
  asked answer heq := by
    subst heq
    exact hanswers rfl

end

/-! ## Handles -/

/-- The handle that a `spawn` under way will return, unless its thread cannot be started. -/
def Owner.pending : Owner → List ℕ
  | .starting handle | .started handle => [handle]
  | .idle | .waiting .. => []

/-- What holds of the handles so far: each was given out once, and each `spawn` returned one of them. -/
structure Handles (past : List Label) (system : System) : Prop where
  issued : ∀ handle ∈ past.filterMap Label.registeredHandle, handle < system.registry.issued
  nodup : (past.filterMap Label.registeredHandle).Nodup
  spawned : (past.filterMap Label.spawnedHandle ++ system.owner.pending).Sublist
    (past.filterMap Label.registeredHandle)

theorem handles_initial : Handles [] .initial where
  issued := by simp
  nodup := List.nodup_nil
  spawned := List.Sublist.refl _

theorem Handles.keep {past : List Label} {system system' : System} {label : Label}
    (h : Handles past system) (hregistered : label.registeredHandle = none)
    (hspawned : label.spawnedHandle = none) (hissued : system'.registry.issued = system.registry.issued)
    (hpending : system'.owner.pending.Sublist system.owner.pending) :
    Handles (past ++ [label]) system' := by
  have hregisters : (past ++ [label]).filterMap Label.registeredHandle =
      past.filterMap Label.registeredHandle := by
    simp [hregistered]
  have hspawns : (past ++ [label]).filterMap Label.spawnedHandle = past.filterMap Label.spawnedHandle := by
    simp [hspawned]
  constructor
  · rw [hregisters, hissued]
    exact h.issued
  · rw [hregisters]
    exact h.nodup
  · rw [hregisters, hspawns]
    exact ((List.Sublist.refl _).append hpending).trans h.spawned

theorem Handles.register {past : List Label} {registry registry' : Registry} {handle : ℕ}
    {input : List UInt8} (h : Handles past ⟨registry, .idle⟩) (hs : registry.Valid)
    (hok : registry.register input = .ok (handle, registry')) :
    Handles (past ++ [.registered handle]) ⟨registry', .starting handle⟩ := by
  obtain ⟨rfl, hissued⟩ := Registry.issued_register hs hok
  have hbelow : ∀ handle ∈ past.filterMap Label.registeredHandle, handle < registry.issued := h.issued
  have hregisters : (past ++ [Label.registered registry.issued]).filterMap Label.registeredHandle =
      past.filterMap Label.registeredHandle ++ [registry.issued] := by
    simp [Label.registeredHandle]
  have hspawns : (past ++ [Label.registered registry.issued]).filterMap Label.spawnedHandle =
      past.filterMap Label.spawnedHandle := by
    simp [Label.spawnedHandle]
  constructor
  · intro handle hmem
    show handle < registry'.issued
    rw [hregisters, List.mem_append, List.mem_singleton] at hmem
    rcases hmem with hmem | rfl
    · have hlt := hbelow handle hmem
      omega
    · omega
  · rw [hregisters, List.nodup_append]
    refine ⟨h.nodup, List.nodup_singleton _, ?_⟩
    rintro handle hmem other hother rfl
    rw [List.mem_singleton] at hother
    exact absurd hother (hbelow handle hmem).ne
  · rw [hregisters, hspawns]
    have hspawned := h.spawned
    simp only [Owner.pending, List.append_nil] at hspawned
    exact hspawned.append (List.Sublist.refl _)

theorem Handles.spawn {past : List Label} {registry : Registry} {handle : ℕ}
    (h : Handles past ⟨registry, .started handle⟩) :
    Handles (past ++ [.spawned handle]) ⟨registry, .idle⟩ := by
  have hregisters : (past ++ [Label.spawned handle]).filterMap Label.registeredHandle =
      past.filterMap Label.registeredHandle := by
    simp [Label.registeredHandle]
  have hspawns : (past ++ [Label.spawned handle]).filterMap Label.spawnedHandle =
      past.filterMap Label.spawnedHandle ++ [handle] := by
    simp [Label.spawnedHandle]
  constructor
  · rw [hregisters]
    exact h.issued
  · rw [hregisters]
    exact h.nodup
  · rw [hregisters, hspawns]
    show ((past.filterMap Label.spawnedHandle ++ [handle]) ++ []).Sublist _
    rw [List.append_nil]
    exact h.spawned

theorem handles_step {platform : Bool → Platform} {past : List Label} {system system' : System}
    {label : Label} (hs : system.Valid) (h : Handles past system)
    (hstep : Step platform system label system') : Handles (past ++ [label]) system' := by
  cases hstep with
  | register _ hok => exact h.register hs.registry hok
  | spawned => exact h.spawn
  | startFailed => exact h.keep rfl rfl Registry.issued_remove (List.nil_sublist _)
  | createThread | complete | spawnRefused | spawnLimited | ask | join | wait | waitAgain | waited =>
    exact h.keep rfl rfl rfl (List.Sublist.refl _)
  | cancel =>
    refine h.keep rfl rfl ?_ (List.Sublist.refl _)
    show Registry.issued (Registry.cancel _ _).2 = Registry.issued _
    unfold Registry.cancel
    split
    · rfl
    · split <;> rfl
  | close =>
    refine h.keep rfl rfl ?_ (List.Sublist.refl _)
    show Registry.issued (Registry.close _ _).2 = Registry.issued _
    unfold Registry.close
    split
    · rfl
    · split
      · exact Registry.issued_remove
      · rfl

/-! ## The protocol -/

/-- What holds of a run. -/
structure Protocol (labels : List Label) (system : System) : Prop where
  /-- At most 64 tasks are live, and they are counted. -/
  live : system.registry.tasks.length ≤ 64 ∧ system.registry.liveCount = system.registry.tasks.length
  /-- No handle is given out twice, and none is returned twice. -/
  handles : (labels.filterMap Label.registeredHandle).Nodup ∧
    (labels.filterMap Label.spawnedHandle).Nodup
  /-- After a cancellation before the completion, joins report that the task was cancelled, or before the
  completion that it was not finished in time or that the system failed. -/
  cancelled : ∀ before between later after handle timeoutMillis result,
    labels = before ++ .cancelled handle (.ok ()) :: (between ++ later :: after) →
    ¬ Completed handle before → ¬ Closed handle between → timeoutMillis ≤ 900000 →
    Reports handle timeoutMillis result later →
      (Completed handle between → result = .ok .cancelled ∨
        (later = .waited handle timeoutMillis result ∧ result = .error noWait)) ∧
      (¬ Completed handle between →
        result = .ok .timeout ∨ result = .error noClock ∨ result = .error noWait)
  /-- An end that a join has reported is reported by every join until the close. -/
  repeated : ∀ before first between later after handle timeoutMillis timeoutMillis' ending result,
    labels = before ++ first :: (between ++ later :: after) →
    Reports handle timeoutMillis (.ok ending) first → ending ≠ .timeout →
    ¬ Closed handle between → timeoutMillis' ≤ 900000 → Reports handle timeoutMillis' result later →
      result = .ok ending
  /-- A close succeeds only after the completion. -/
  close : ∀ before after handle, labels = before ++ .closed handle (.ok ()) :: after →
    Completed handle before
  /-- After a close, everything says so. -/
  closed : ∀ before between later after handle,
    labels = before ++ .closed handle (.ok ()) :: (between ++ later :: after) → SaysClosed handle later

section

variable {platform : Bool → Platform} {labels : List Label} {system : System}

theorem initial_not_ended {handle : ℕ} :
    ∀ result joining, System.initial.lifeOf handle ≠ .ended result joining := by
  intro result joining
  rw [System.lifeOf_absent rfl]
  split <;> nofun

/-- A task that is cancelled, joined without waiting, completed, joined, closed, and joined for too long. -/
theorem run_cancelled : ∃ system, Run (Step fun _ => .posix) .initial
    [.registered 1, .threadCreated 1, .spawned 1, .cancelled 1 (.ok ()), .joined 1 0 (.ok .timeout),
      .completed 1 .completed (some []), .joined 1 5 (.ok .cancelled), .closed 1 (.ok ()),
      .joined 1 900001 (.error timeoutTooLong)] system :=
  have hprepared : Preparation.error ⟨false, true, true, true⟩ [] = none := rfl
  have hbegins : ∀ registry handle timeoutMillis result,
      joinBegin registry handle timeoutMillis true = some result →
      Step (fun _ => .posix) ⟨registry, .idle⟩ (.joined handle timeoutMillis result) ⟨registry, .idle⟩ :=
    fun _ _ _ _ h => .join h
  have hcompletes : ∀ registry handle task, registry.find handle = some task →
      task.threadCreated = true → task.finished = false →
      Step (fun _ => .posix) ⟨registry, .idle⟩ (.completed handle .completed (some []))
        ⟨registry.modify handle fun task => task.complete .completed (some []), .idle⟩ :=
    fun registry handle task hfind hcreated hfinished =>
      @Step.complete (fun _ => .posix) registry .idle handle task [] true hfind hcreated hfinished
  ⟨_, .cons (.register hprepared rfl) <| .cons .createThread <| .cons .spawned <| .cons .cancel <|
    .cons (hbegins _ _ _ _ rfl) <| .cons (hcompletes _ _ _ rfl rfl rfl) <| .cons (hbegins _ _ _ _ rfl) <|
    .cons .close <| .cons (hbegins _ _ _ _ rfl) <| .nil _⟩

end

end Nomo.Workers
