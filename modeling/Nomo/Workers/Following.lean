import Nomo.Workers.Life

/-!
# The registry follows the lives of its handles

Each step of the owner and of the workers keeps the registry valid, shows what each handle's life allows,
and leads where that life leads (`follows`).
-/

namespace Nomo.Workers

open Nomo.Lib

/-- A step keeps the system valid and shows, for each handle, what its life allows. -/
abbrev Follows : System → Label → System → Prop :=
  Automaton.Follows System.Valid System.lifeOf lifetime

namespace Follows

variable {system system' : System} {label : Label} {handle : ℕ}

theorem of_own (hlabel : label.handle = some handle) (hvalid : system'.Valid)
    (hanswers : (system.lifeOf handle).Answers label)
    (hown : system'.lifeOf handle = (system.lifeOf handle).next label)
    (hother : ∀ handle', handle' ≠ handle → system'.lifeOf handle' = system.lifeOf handle') :
    Follows system label system' where
  keeps := hvalid
  allows handle' h := by
    have heq : handle' = handle := Option.some.inj (h.symm.trans hlabel)
    rw [heq]
    exact hanswers
  leads handle' := by
    by_cases heq : handle' = handle
    · rw [heq, lifetime.next_own hlabel, hown]
    · have hne : label.handle ≠ some handle' := fun h => heq (Option.some.inj (h.symm.trans hlabel))
      rw [lifetime.next_other hne, hother handle' heq]

theorem of_none (hlabel : label.handle = none) (hvalid : system.Valid) : Follows system label system where
  keeps := hvalid
  allows handle h := by
    have hsome : label.handle = some handle := h
    rw [hlabel] at hsome
    cases hsome
  leads handle := by
    rw [lifetime.next_other]
    rw [hlabel]
    nofun

end Follows

/-! ## Lives that stay -/

section

variable {registry registry' : Registry} {owner owner' : Owner} {handle handle' : ℕ} {task : TaskState}

theorem lifeOf_congr (hfind : registry'.find handle = registry.find handle)
    (hissued : registry'.issued = registry.issued) (hjoins : owner'.joins handle = owner.joins handle) :
    System.lifeOf ⟨registry', owner'⟩ handle = System.lifeOf ⟨registry, owner⟩ handle := by
  simp only [System.lifeOf, hfind, hissued, hjoins]

theorem joins_waiting_other {timeoutMillis : ℕ} (h : handle' ≠ handle) :
    (Owner.waiting handle timeoutMillis).joins handle' = false := by
  simpa [Owner.joins] using fun heq => h heq.symm

@[simp] theorem joins_waiting {timeoutMillis : ℕ} :
    (Owner.waiting handle timeoutMillis).joins handle = true := by
  simp [Owner.joins]

@[simp] theorem joins_idle : Owner.idle.joins handle = false := rfl

@[simp] theorem joins_starting : (Owner.starting handle).joins handle' = false := rfl

theorem life_finished {joining : Bool} (h : task.finished = true) :
    task.life joining = .ended task.result joining := if_pos h

theorem life_running {joining : Bool} (h : task.finished = false) :
    task.life joining = .running task.cancelRequested joining := by
  rw [TaskState.life, h]
  rfl

theorem lifeOf_none (owner : Owner) (h : registry.find handle = none) :
    System.lifeOf ⟨registry, owner⟩ handle = .gone ∨ System.lifeOf ⟨registry, owner⟩ handle = .unborn := by
  rw [System.lifeOf_absent h]
  split
  · exact .inl rfl
  · exact .inr rfl

/-! ## Spawning -/

theorem follows_register {input : List UInt8} (hs : System.Valid ⟨registry, .idle⟩)
    (hok : registry.register input = .ok (handle, registry')) :
    Follows ⟨registry, .idle⟩ (.registered handle) ⟨registry', .starting handle⟩ := by
  have hregistry : registry.Valid := hs.registry
  have hvalid := hregistry.register hok
  obtain ⟨hhandle, hissued⟩ := Registry.issued_register hregistry hok
  obtain ⟨-, -, -, task, htask, hcancel, hfinished, hcreated, rfl⟩ := Registry.register_ok hok
  have hfind : ∀ handle', Registry.find
      { tasks := task :: registry.tasks
        nextHandle := (registry.nextHandle + 1) % 2 ^ 64
        liveCount := registry.liveCount + 1 } handle' =
      if handle = handle' then some task else registry.find handle' := by
    intro handle'
    rw [← htask]
    exact Keyed.find_cons
  have hnone : registry.find handle = none := by
    cases hsome : registry.find handle with
    | none => rfl
    | some other =>
      have hlt := hregistry.issued other (Keyed.mem_of_find hsome)
      have hother : other.handle = handle := Keyed.key_of_find hsome
      omega
  have hunborn : System.lifeOf ⟨registry, .idle⟩ handle = .unborn := by
    rw [System.lifeOf_absent hnone]
    show (if handle < registry.issued then Life.gone else Life.unborn) = .unborn
    rw [if_neg (by omega)]
  have hnow := hfind handle
  rw [if_pos rfl] at hnow
  refine .of_own rfl ⟨hvalid, task, hnow, hcreated, hcancel⟩ hunborn ?_ fun handle' hne => ?_
  · rw [hunborn, System.lifeOf_found hnow, joins_starting, life_running hfinished, hcancel]
    rfl
  have hsame := hfind handle'
  rw [if_neg fun h => hne h.symm] at hsame
  cases hother : registry.find handle' with
  | some other =>
    rw [System.lifeOf_found (hsame.trans hother), System.lifeOf_found hother]
    rfl
  | none =>
    rw [System.lifeOf_absent (hsame.trans hother), System.lifeOf_absent hother]
    show (if handle' < Registry.issued _ then Life.gone else Life.unborn) =
      if handle' < registry.issued then Life.gone else Life.unborn
    rw [hissued]
    by_cases hlt : handle' < registry.issued
    · rw [if_pos hlt, if_pos (by omega)]
    · rw [if_neg hlt, if_neg (by omega)]

theorem lifeOf_remove (owner : Owner) (hvalid : registry.Valid) (hfound : (registry.find handle).isSome)
    (howner : ∀ handle', owner.joins handle' = false) :
    System.lifeOf ⟨registry.remove handle, .idle⟩ handle = .gone ∧
      ∀ handle', handle' ≠ handle → System.lifeOf ⟨registry.remove handle, .idle⟩ handle' =
        System.lifeOf ⟨registry, owner⟩ handle' := by
  constructor
  · obtain ⟨task, htask⟩ := Option.isSome_iff_exists.mp hfound
    have hnone : (registry.remove handle).find handle = none := by
      rw [hvalid.find_remove, if_pos rfl]
    have hlt := hvalid.issued task (Keyed.mem_of_find htask)
    have hhandle : task.handle = handle := Keyed.key_of_find htask
    rw [System.lifeOf_absent hnone]
    show (if handle < (registry.remove handle).issued then Life.gone else Life.unborn) = .gone
    rw [Registry.issued_remove, if_pos (by omega)]
  · intro handle' hne
    refine lifeOf_congr ?_ Registry.issued_remove (by rw [howner, joins_idle])
    rw [hvalid.find_remove, if_neg hne]

theorem follows_startFailed (hs : System.Valid ⟨registry, .starting handle⟩) :
    Follows ⟨registry, .starting handle⟩ (.startFailed handle) ⟨registry.remove handle, .idle⟩ := by
  obtain ⟨task, hfind, hcreated, hcancel⟩ := hs.owner
  have hfound : (registry.find handle).isSome := by
    rw [show registry.find handle = some task from hfind]
    rfl
  have hfinished : task.finished = false := by
    by_contra hfinished
    have hcontra := hs.registry.created task (Keyed.mem_of_find hfind) (by simpa using hfinished)
    rw [hcreated] at hcontra
    cases hcontra
  have hrunning : System.lifeOf ⟨registry, .starting handle⟩ handle =
      .running false false := by
    rw [System.lifeOf_found hfind, joins_starting, life_running hfinished, hcancel]
  obtain ⟨hgone, hother⟩ := lifeOf_remove (.starting handle) hs.registry hfound fun _ => rfl
  refine .of_own rfl ⟨hs.registry.remove hfound, trivial⟩ ?_ ?_ hother
  · exact hrunning
  · rw [hgone]
    rfl

/-! ## Changes of a task -/

theorem lifeOf_modify (f : TaskState → TaskState) (owner owner' : Owner) (hf : ∀ task, (f task).handle = task.handle)
    (hfind : registry.find handle = some task)
    (hjoins : ∀ handle', owner'.joins handle' = owner.joins handle') :
    System.lifeOf ⟨registry.modify handle f, owner'⟩ handle = (f task).life (owner.joins handle) ∧
      ∀ handle', handle' ≠ handle → System.lifeOf ⟨registry.modify handle f, owner'⟩ handle' =
        System.lifeOf ⟨registry, owner⟩ handle' := by
  constructor
  · have hnow : (registry.modify handle f).find handle = some (f task) := by
      rw [Registry.find_modify hf, if_pos rfl, hfind]
      rfl
    rw [System.lifeOf_found hnow]
    show (f task).life (owner'.joins handle) = _
    rw [hjoins]
  · intro handle' hne
    refine lifeOf_congr ?_ Registry.issued_modify (hjoins handle')
    rw [Registry.find_modify hf, if_neg hne]

theorem follows_createThread (hs : System.Valid ⟨registry, .starting handle⟩) :
    Follows ⟨registry, .starting handle⟩ (.threadCreated handle)
      ⟨registry.modify handle fun task => { task with threadCreated := true }, .started handle⟩ := by
  obtain ⟨task, hfind, -, -⟩ := hs.owner
  obtain ⟨hown, hother⟩ := lifeOf_modify (fun task => { task with threadCreated := true })
    (.starting handle) (.started handle) (fun _ => rfl) hfind fun _ => rfl
  have hvalid : Registry.Valid
      (registry.modify handle fun task => { task with threadCreated := true }) := by
    refine hs.registry.modify (fun _ => rfl) (fun _ _ _ _ => rfl) fun task hmem _ hfinished => ?_
    exact hs.registry.outcome task hmem hfinished
  refine .of_own rfl ⟨hvalid, trivial⟩ trivial ?_ hother
  rw [hown, System.lifeOf_found hfind]
  rfl

/-! ## Completion -/

theorem workerOutcome_ne {output : List UInt8} {copied : Bool} :
    (workerOutcome output copied).1 ≠ .cancelled := by
  unfold workerOutcome
  split
  · nofun
  · split <;> nofun

theorem life_complete {outcome : Outcome} {output : Option (List UInt8)} {joining : Bool} :
    (task.complete outcome output).life joining =
      .ended (ending task.cancelRequested outcome output) joining := by
  unfold TaskState.complete ending
  split
  · rfl
  · cases outcome <;> rfl

theorem follows_complete {output : List UInt8} {copied : Bool} (hs : System.Valid ⟨registry, owner⟩)
    (hfind : registry.find handle = some task) (hcreated : task.threadCreated = true)
    (hfinished : task.finished = false) :
    Follows ⟨registry, owner⟩
      (.completed handle (workerOutcome output copied).1 (workerOutcome output copied).2)
      ⟨registry.modify handle fun task =>
        task.complete (workerOutcome output copied).1 (workerOutcome output copied).2, owner⟩ := by
  have hf (task : TaskState) : (task.complete (workerOutcome output copied).1
      (workerOutcome output copied).2).handle = task.handle := by
    unfold TaskState.complete
    split <;> rfl
  have hunique (other) (hmem : other ∈ registry.tasks) (h : other.handle = handle) : other = task :=
    List.inj_on_of_nodup_map hs.registry.distinct hmem (Keyed.mem_of_find hfind)
      (h.trans (Keyed.key_of_find hfind).symm)
  obtain ⟨hown, hother⟩ := lifeOf_modify _ owner owner hf hfind fun _ => rfl
  have hrunning : System.lifeOf ⟨registry, owner⟩ handle =
      .running task.cancelRequested (owner.joins handle) := by
    rw [System.lifeOf_found hfind, life_running hfinished]
  have hvalid : Registry.Valid (registry.modify handle fun task =>
      task.complete (workerOutcome output copied).1 (workerOutcome output copied).2) := by
    refine hs.registry.modify hf (fun other hmem h _ => ?_) fun other _ _ _ => ?_
    · rw [hunique other hmem h]
      unfold TaskState.complete
      split <;> exact hcreated
    unfold TaskState.complete
    split
    · rename_i hcancel
      exact iff_of_true hcancel rfl
    · rename_i hcancel
      exact iff_of_false hcancel workerOutcome_ne
  have howner : owner.Valid (registry.modify handle fun task =>
      task.complete (workerOutcome output copied).1 (workerOutcome output copied).2) := by
    cases owner with
    | idle | started => trivial
    | starting starting =>
      obtain ⟨other, hother', hnot, hcancel⟩ := hs.owner
      refine ⟨other, ?_, hnot, hcancel⟩
      have hne : starting ≠ handle := by
        rintro rfl
        rw [show registry.find starting = some task from hfind] at hother'
        cases hother'
        rw [hcreated] at hnot
        cases hnot
      rw [Registry.find_modify hf, if_neg hne]
      exact hother'
    | waiting waited timeoutMillis =>
      refine ⟨hs.owner.1, ?_⟩
      rw [Registry.find_modify hf]
      split
      · rw [Option.isSome_map]
        exact hs.owner.2
      · exact hs.owner.2
  refine .of_own rfl ⟨hvalid, howner⟩ ?_ ?_ hother
  · rw [hrunning]
    exact ⟨_, _, rfl⟩
  · rw [hown, hrunning, life_complete]
    rfl

/-! ## Questions, joins, cancellation and close -/

theorem follows_same {label : Label} (hlabel : label.handle = some handle)
    (hs : System.Valid ⟨registry, owner⟩) (howner : owner'.Valid registry)
    (hanswers : (System.lifeOf ⟨registry, owner⟩ handle).Answers label)
    (hown : System.lifeOf ⟨registry, owner'⟩ handle =
      (System.lifeOf ⟨registry, owner⟩ handle).next label)
    (hjoins : ∀ handle', handle' ≠ handle → owner'.joins handle' = owner.joins handle') :
    Follows ⟨registry, owner⟩ label ⟨registry, owner'⟩ :=
  .of_own hlabel ⟨hs.registry, howner⟩ hanswers hown fun handle' hne =>
    lifeOf_congr rfl rfl (hjoins handle' hne)

theorem result_eq_cancelled : task.result = .ok .cancelled ↔ task.outcome = .cancelled := by
  unfold TaskState.result
  cases task.outcome <;> simp

theorem follows_ask (hs : System.Valid ⟨registry, owner⟩) :
    Follows ⟨registry, owner⟩ (.asked handle (registry.isCancelled handle)) ⟨registry, owner⟩ := by
  refine follows_same rfl hs hs.owner ?_ rfl fun _ _ => rfl
  cases hfind : registry.find handle with
  | none =>
    have hanswer : registry.isCancelled handle = false := by rw [Registry.isCancelled, hfind]
    rcases lifeOf_none owner hfind with h | h
    · rw [h]
      exact hanswer
    · rw [h]
      exact hanswer
  | some task =>
    have hanswer : registry.isCancelled handle = task.cancelRequested := by
      rw [Registry.isCancelled, hfind]
    rw [System.lifeOf_found hfind, hanswer]
    cases hfinished : task.finished with
    | false =>
      rw [life_running hfinished]
      rfl
    | true =>
      rw [life_finished hfinished]
      show task.cancelRequested = true ↔ task.result = .ok .cancelled
      rw [result_eq_cancelled]
      exact hs.registry.outcome task (Keyed.mem_of_find hfind) hfinished

theorem joinBegin_found {timeoutMillis : ℕ} {clockRead : Bool} (hfind : registry.find handle = some task)
    (hle : ¬ maxJoinTimeout < timeoutMillis) :
    joinBegin registry handle timeoutMillis clockRead =
      if task.finished then some task.result
      else if timeoutMillis = 0 then some (.ok .timeout)
      else if clockRead then none
      else some (.error noClock) := by
  rw [joinBegin, if_neg hle, hfind]
  cases hfinished : task.finished <;> simp [hfinished]

theorem follows_join {timeoutMillis : ℕ} {clockRead : Bool} {result : Except TaskError TaskJoin}
    (hs : System.Valid ⟨registry, .idle⟩)
    (hjoin : joinBegin registry handle timeoutMillis clockRead = some result) :
    Follows ⟨registry, .idle⟩ (.joined handle timeoutMillis result) ⟨registry, .idle⟩ := by
  refine follows_same rfl hs trivial ?_ rfl fun _ _ => rfl
  show if maxJoinTimeout < timeoutMillis then _ else _
  by_cases hlong : maxJoinTimeout < timeoutMillis
  · rw [joinBegin, if_pos hlong] at hjoin
    rw [if_pos hlong]
    exact (Option.some.inj hjoin).symm
  rw [if_neg hlong]
  cases hfind : registry.find handle with
  | none =>
    rw [joinBegin, if_neg hlong, hfind] at hjoin
    have hclosed := (Option.some.inj hjoin).symm
    rcases lifeOf_none .idle hfind with h | h
    · rw [h]
      exact hclosed
    · rw [h]
      exact hclosed
  | some task =>
    rw [joinBegin_found hfind hlong] at hjoin
    rw [System.lifeOf_found hfind, joins_idle]
    cases hfinished : task.finished with
    | true =>
      rw [hfinished, if_pos rfl] at hjoin
      rw [life_finished hfinished]
      exact ⟨rfl, (Option.some.inj hjoin).symm⟩
    | false =>
      rw [hfinished, if_neg nofun] at hjoin
      rw [life_running hfinished]
      refine ⟨rfl, ?_⟩
      split at hjoin
      · exact .inl (Option.some.inj hjoin).symm
      · split at hjoin
        · cases hjoin
        · exact .inr (Option.some.inj hjoin).symm

theorem follows_wait {timeoutMillis : ℕ} {clockRead : Bool} (hs : System.Valid ⟨registry, .idle⟩)
    (hjoin : joinBegin registry handle timeoutMillis clockRead = none) :
    Follows ⟨registry, .idle⟩ (.waits handle timeoutMillis)
      ⟨registry, .waiting handle timeoutMillis⟩ := by
  have hlong : ¬ maxJoinTimeout < timeoutMillis := by
    intro hlong
    rw [joinBegin, if_pos hlong] at hjoin
    cases hjoin
  cases hfind : registry.find handle with
  | none =>
    rw [joinBegin, if_neg hlong, hfind] at hjoin
    cases hjoin
  | some task =>
    have hfinished : task.finished = false := by
      by_contra hfinished
      rw [joinBegin_found hfind hlong, if_pos (by simpa using hfinished)] at hjoin
      cases hjoin
    have hfound : (registry.find handle).isSome := by
      rw [hfind]
      rfl
    have hrunning : System.lifeOf ⟨registry, .idle⟩ handle = .running task.cancelRequested false := by
      rw [System.lifeOf_found hfind, joins_idle, life_running hfinished]
    refine follows_same rfl hs ⟨Nat.le_of_not_lt hlong, hfound⟩ ?_ ?_ fun _ hne =>
      joins_waiting_other hne
    · rw [hrunning]
      exact ⟨Nat.le_of_not_lt hlong, _, rfl⟩
    · rw [hrunning, System.lifeOf_found hfind, joins_waiting, life_running hfinished]
      rfl

/-- What a wait of a `join` may come to: the task's own result or that the wait failed if it is finished,
and otherwise the timeout or that the wait failed. -/
theorem joinRound_some {platform : Platform} {wait : Wait} {result : Except TaskError TaskJoin}
    (h : joinRound platform task wait = some result) :
    (task.finished = true ∧ (result = task.result ∨ result = .error noWait)) ∨
      (task.finished = false ∧ (result = .ok .timeout ∨ result = .error noWait)) := by
  cases hfinished : task.finished with
  | true =>
    refine .inl ⟨rfl, ?_⟩
    unfold joinRound at h
    rw [hfinished] at h
    cases platform <;> cases wait <;> simp at h <;> simp [← h]
  | false =>
    refine .inr ⟨rfl, ?_⟩
    unfold joinRound at h
    rw [hfinished] at h
    cases platform with
    | posix => cases wait <;> simp at h <;> simp [← h]
    | windows elapsed => cases wait <;> cases elapsed <;> simp at h <;> simp [← h]

theorem follows_waited {platform : Platform} {timeoutMillis : ℕ} {wait : Wait}
    {result : Except TaskError TaskJoin} (hs : System.Valid ⟨registry, .waiting handle timeoutMillis⟩)
    (hfind : registry.find handle = some task) (hround : joinRound platform task wait = some result) :
    Follows ⟨registry, .waiting handle timeoutMillis⟩ (.waited handle timeoutMillis result)
      ⟨registry, .idle⟩ := by
  have hlife : System.lifeOf ⟨registry, .waiting handle timeoutMillis⟩ handle = task.life true := by
    rw [System.lifeOf_found hfind, joins_waiting]
  refine follows_same rfl hs trivial ?_ ?_ fun _ hne => (joins_waiting_other hne).symm
  · rw [hlife]
    refine ⟨hs.owner.1, ?_⟩
    rcases joinRound_some hround with ⟨hfinished, hresult⟩ | ⟨hfinished, hresult⟩
    · rw [life_finished hfinished]
      exact ⟨rfl, hresult⟩
    · rw [life_running hfinished]
      exact ⟨rfl, hresult⟩
  · rw [hlife, System.lifeOf_found hfind, joins_idle]
    cases hfinished : task.finished with
    | true =>
      rw [life_finished hfinished, life_finished hfinished]
      rfl
    | false =>
      rw [life_running hfinished, life_running hfinished]
      rfl

theorem follows_cancel (hs : System.Valid ⟨registry, .idle⟩) :
    Follows ⟨registry, .idle⟩ (.cancelled handle (registry.cancel handle).1)
      ⟨(registry.cancel handle).2, .idle⟩ := by
  cases hfind : registry.find handle with
  | none =>
    have hcancel : registry.cancel handle = (.error handleClosed, registry) := by
      rw [Registry.cancel, hfind]
    rw [hcancel]
    rcases lifeOf_none .idle hfind with h | h
    · exact follows_same rfl hs trivial (by rw [h]; rfl) (by rw [h]; rfl) fun _ _ => rfl
    · exact follows_same rfl hs trivial (by rw [h]; rfl) (by rw [h]; rfl) fun _ _ => rfl
  | some task =>
    have hlife : System.lifeOf ⟨registry, .idle⟩ handle = task.life false := System.lifeOf_found hfind
    cases hfinished : task.finished with
    | true =>
      have hcancel : registry.cancel handle = (.ok (), registry) := by
        rw [Registry.cancel, hfind]
        simp [hfinished]
      rw [hcancel]
      rw [life_finished hfinished] at hlife
      exact follows_same rfl hs trivial (by rw [hlife]; rfl) (by rw [hlife]; rfl) fun _ _ => rfl
    | false =>
      have hcancel : registry.cancel handle =
          (.ok (), registry.modify handle fun task => { task with cancelRequested := true }) := by
        rw [Registry.cancel, hfind]
        simp [hfinished]
      rw [hcancel]
      rw [life_running hfinished] at hlife
      obtain ⟨hown, hother⟩ := lifeOf_modify (fun task => { task with cancelRequested := true })
        .idle .idle (fun _ => rfl) hfind fun _ => rfl
      have hunique (other) (hmem : other ∈ registry.tasks) (h : other.handle = handle) : other = task := List.inj_on_of_nodup_map hs.registry.distinct hmem
          (Keyed.mem_of_find hfind) (h.trans (Keyed.key_of_find hfind).symm)
      have hnot : ∀ other ∈ registry.tasks, other.handle = handle → ¬ other.finished = true := by
        intro other hmem h hdone
        rw [hunique other hmem h, hfinished] at hdone
        cases hdone
      have hvalid : Registry.Valid
          (registry.modify handle fun task => { task with cancelRequested := true }) :=
        hs.registry.modify (fun _ => rfl) (fun other hmem h hdone => absurd hdone (hnot other hmem h))
          fun other hmem h hdone => absurd hdone (hnot other hmem h)
      refine .of_own rfl ⟨hvalid, trivial⟩ ?_ ?_ hother
      · rw [hlife]
        rfl
      · rw [hown, hlife]
        exact life_running hfinished

theorem follows_close (hs : System.Valid ⟨registry, .idle⟩) :
    Follows ⟨registry, .idle⟩ (.closed handle (registry.close handle).1)
      ⟨(registry.close handle).2, .idle⟩ := by
  cases hfind : registry.find handle with
  | none =>
    have hclose : registry.close handle = (.error handleClosed, registry) := by
      rw [Registry.close, hfind]
    rw [hclose]
    rcases lifeOf_none .idle hfind with h | h
    · exact follows_same rfl hs trivial (by rw [h]; rfl) (by rw [h]; rfl) fun _ _ => rfl
    · exact follows_same rfl hs trivial (by rw [h]; rfl) (by rw [h]; rfl) fun _ _ => rfl
  | some task =>
    have hlife : System.lifeOf ⟨registry, .idle⟩ handle = task.life false := System.lifeOf_found hfind
    cases hfinished : task.finished with
    | true =>
      have hclose : registry.close handle = (.ok (), registry.remove handle) := by
        rw [Registry.close, hfind]
        simp [hfinished]
      have hfound : (registry.find handle).isSome := by
        rw [hfind]
        rfl
      rw [hclose]
      rw [life_finished hfinished] at hlife
      obtain ⟨hgone, hother⟩ := lifeOf_remove .idle hs.registry hfound fun _ => rfl
      refine .of_own rfl ⟨hs.registry.remove hfound, trivial⟩ ?_ ?_ hother
      · rw [hlife]
        rfl
      · rw [hgone, hlife]
        rfl
    | false =>
      have hclose : registry.close handle = (.error stillRunning, registry) := by
        rw [Registry.close, hfind]
        simp [hfinished]
      rw [hclose]
      rw [life_running hfinished] at hlife
      exact follows_same rfl hs trivial (by rw [hlife]; rfl) (by rw [hlife]; rfl) fun _ _ => rfl

end

/-! ## Steps and runs -/

/-- **Every step follows the lives of the handles.** -/
theorem follows {platform : Bool → Platform} {system system' : System} {label : Label}
    (hs : system.Valid) (hstep : Step platform system label system') :
    Follows system label system' := by
  cases hstep with
  | spawnRefused | spawnLimited => exact .of_none rfl hs
  | register _ hok => exact follows_register hs hok
  | startFailed => exact follows_startFailed hs
  | createThread => exact follows_createThread hs
  | spawned =>
    exact follows_same rfl hs trivial trivial rfl fun _ _ => rfl
  | ask => exact follows_ask hs
  | complete hfind hcreated hfinished => exact follows_complete hs hfind hcreated hfinished
  | join hjoin => exact follows_join hs hjoin
  | wait hjoin => exact follows_wait hs hjoin
  | waitAgain =>
    exact follows_same rfl hs hs.owner trivial rfl fun _ _ => rfl
  | waited hfind hround => exact follows_waited hs hfind hround
  | cancel => exact follows_cancel hs
  | close => exact follows_close hs

theorem legal {platform : Bool → Platform} {labels : List Label} {system : System}
    (h : Run (Step platform) .initial labels system) (handle : ℕ) :
    (lifetime handle).Legal (System.initial.lifeOf handle) labels :=
  (Automaton.Follows.legal (fun _ _ _ => follows) h valid_initial handle).1

theorem valid_of_run {platform : Bool → Platform} {labels : List Label} {system : System}
    (h : Run (Step platform) .initial labels system) : system.Valid :=
  Automaton.Follows.invariant (fun _ _ _ => follows) h valid_initial

end Nomo.Workers
