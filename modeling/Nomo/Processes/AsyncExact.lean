import Nomo.Processes.AsyncKept

/-!
# Every step of the asynchronous runtime keeps every child's law

Step by step: each operation on a child is one of its events, a call that leaves the entry alone, or the
acceptance of a payload. The entries of the other children are not touched.
-/

namespace Nomo.Processes

open Nomo.Lib

namespace Runtime

section

variable {body : Stream → List UInt8} {bodies : List (Stream → List UInt8)} {past : ℕ → List Label}
  {runtime next : Runtime} {child maxChunkBytes others : ℕ} {handle other : Handle} {held : Held} {label : Label}

/-! ## Events -/

theorem written_put (hfind : runtime.find child = some handle) :
    runtime.written child (runtime.put child other held) =
      held.process.piped.drop handle.process.piped.length := by
  obtain ⟨hhandle, -⟩ := find_some hfind
  obtain ⟨hlt, -⟩ := List.getElem?_eq_some_iff.mp hhandle
  have hput : (runtime.put child other held).handles[child]? = some { other with process := held.process } :=
    List.getElem?_set_self hlt
  rw [written, piped, piped, hput, hhandle]
  rfl

/-- **What an event comes to** is kept in the child's entry. -/
theorem conclude_kept {outcome : Progressed × Held} (h : Kept bodies past runtime)
    (hfind : runtime.find child = some handle) (hlimit : maxChunkBytes ≤ maxPayloadBytes)
    (hunreported : handle.process.child.exitEmitted = false)
    (hcomes : ∀ body others, During body (past child) handle.process → (runtime.held handle).Counts others →
      Comes body (past child) maxChunkBytes others outcome) :
    Kept bodies (shownAlso past child
        (runtime.eventLabel child maxChunkBytes (runtime.conclude child handle maxChunkBytes outcome)))
      (runtime.conclude child handle maxChunkBytes outcome).2 := by
  obtain ⟨-, body, others, hbody, -, hsound, hcounts, hsum⟩ := h.found hfind
  have hoccurs := hcomes body others (hsound.during hunreported).1 hcounts
  obtain ⟨outcome, held⟩ := outcome
  cases outcome with
  | pending =>
    obtain ⟨hduring, hflushed, hafter⟩ := hoccurs
    have hshown : Sound body (past child ++ [.waits (runtime.written child
        (runtime.put child (settle handle maxChunkBytes .pending) held))]) held.process := by
      rw [written_put hfind]
      exact (hduring.waits hflushed).sound hsound.piped
    refine h.put hfind hbody hsum hafter ⟨hshown.law, fun _ => hshown, ?_, ?_⟩
    · rintro limit ⟨⟩
      exact ⟨hlimit, hduring.unreported⟩
    · intro hclosed
      have hoccupied : handle.occupied = false := hclosed
      rw [(find_some hfind).2] at hoccupied
      cases hoccupied
  | reports result =>
    obtain ⟨hends, hafter⟩ := hoccurs
    have hshown : Sound body (past child ++ [.event maxChunkBytes (runtime.written child
        (runtime.put child (settle handle maxChunkBytes (.reports result)) held)) result]) held.process := by
      rw [written_put hfind]
      exact hends.sound hsound.piped
    refine h.put hfind hbody hsum hafter ⟨hshown.law, fun _ => hshown, by rintro limit ⟨⟩, ?_⟩
    intro hclosed
    have hoccupied : handle.occupied = false := hclosed
    rw [(find_some hfind).2] at hoccupied
    cases hoccupied
  | closes result =>
    obtain ⟨⟨process, hpiped, hends⟩, hbytes, hretained⟩ := hoccurs
    have hshown : Sound body (past child ++ [.event maxChunkBytes (runtime.written child
        (runtime.put child (settle handle maxChunkBytes (.closes result)) held)) result]) process := by
      rw [written_put hfind, ← hpiped]
      exact hends.sound hsound.piped
    have hafter : held.Counts others := by
      rw [Held.Counts, hbytes, hretained, Nat.zero_add]
    exact h.put hfind hbody hsum hafter ⟨hshown.law, by rintro ⟨⟩, by rintro limit ⟨⟩, fun _ => hbytes⟩

theorem refused_event (h : Kept bodies past runtime) (hchild : child < runtime.handles.length)
    (error : ProcessError) :
    Kept bodies (shownAlso past child
      (runtime.eventLabel child maxChunkBytes (some (.error error), runtime))) runtime :=
  h.unchanged hchild trivial List.drop_length

theorem eventStart_kept (h : Kept bodies past runtime) (hchild : child < runtime.handles.length)
    (timeoutMillis : ℕ) (answers : Start) :
    Kept bodies (shownAlso past child (runtime.eventLabel child maxChunkBytes
        (runtime.eventStart child maxChunkBytes timeoutMillis answers)))
      (runtime.eventStart child maxChunkBytes timeoutMillis answers).2 := by
  unfold eventStart
  split
  · exact refused_event h hchild _
  rename_i hvalid
  have hlimit : maxChunkBytes ≤ maxPayloadBytes := by omega
  split
  · exact refused_event h hchild _
  rename_i handle hfind
  split
  · exact refused_event h hchild _
  rename_i hnot
  have hunreported : handle.process.child.exitEmitted = false := by simpa using hnot
  split
  · exact refused_event h hchild _
  refine conclude_kept h hfind hlimit hunreported fun body others hduring hcounts => ?_
  have hprogress := eventProgress_comes hduring hcounts hlimit answers.progress
  generalize eventProgress (runtime.held handle) maxChunkBytes answers.progress = outcome at hprogress
  obtain ⟨_ | result | result, held⟩ := outcome
  · obtain ⟨hgoes, hflushed, hafter⟩ := hprogress
    exact arm_comes hgoes hflushed hafter hlimit ..
  all_goals exact hprogress

theorem eventResume_kept (h : Kept bodies past runtime) (hchild : child < runtime.handles.length)
    (answers : Resume)
    (hregistered : ∀ handle, runtime.find child = some handle → handle.event = some maxChunkBytes) :
    Kept bodies (shownAlso past child (runtime.eventLabel child maxChunkBytes
        (runtime.eventResume child maxChunkBytes answers)))
      (runtime.eventResume child maxChunkBytes answers).2 := by
  have hpending (handle) : runtime.find child = some handle →
      maxChunkBytes ≤ maxPayloadBytes ∧ handle.process.child.exitEmitted = false := by
    intro hfind
    obtain ⟨-, body, others, -, hkept, -⟩ := h.found hfind
    exact hkept.event maxChunkBytes (hregistered handle hfind)
  unfold eventResume
  split
  · split
    · exact refused_event h hchild _
    · rename_i handle hfind
      obtain ⟨hlimit, hunreported⟩ := hpending handle hfind
      exact conclude_kept h hfind hlimit hunreported fun body others hduring hcounts =>
        orTimedOut_comes (eventProgress_comes hduring hcounts hlimit answers.last)
  split
  · exact h.unchanged hchild trivial List.drop_length
  split
  · exact refused_event h hchild _
  rename_i handle hfind
  obtain ⟨hlimit, hunreported⟩ := hpending handle hfind
  refine conclude_kept h hfind hlimit hunreported fun body others hduring hcounts => ?_
  have hprogress := eventProgress_comes hduring hcounts hlimit answers.progress
  generalize eventProgress (runtime.held handle) maxChunkBytes answers.progress = outcome at hprogress
  obtain ⟨_ | result | result, held⟩ := outcome
  · dsimp only
    split
    · exact orTimedOut_comes hprogress
    · obtain ⟨hgoes, hflushed, hafter⟩ := hprogress
      exact arm_comes hgoes hflushed hafter hlimit ..
  all_goals exact hprogress

/-! ## Calls -/

theorem call_kept {handle : Handle} (h : Kept bodies past runtime) (hfind : runtime.find child = some handle)
    (hemitted : held.process.child.exitEmitted = handle.process.child.exitEmitted)
    (hkeeps : ∀ body others, Sound body (past child) handle.process → (runtime.held handle).Counts others →
      Sound body (past child ++ [label]) held.process ∧ held.Counts others) :
    Kept bodies (shownAlso past child label) (runtime.put child handle held) := by
  obtain ⟨-, body, others, hbody, hkept, hbefore, hretained, hsum⟩ := h.found hfind
  obtain ⟨hafter, hcounts⟩ := hkeeps body others hbefore hretained
  refine h.put hfind hbody hsum hcounts ⟨hafter.law, fun _ => hafter, ?_, ?_⟩
  · intro limit hevent
    rw [hemitted]
    exact hkept.event limit hevent
  · intro hclosed
    have hoccupied : handle.occupied = false := hclosed
    rw [(find_some hfind).2] at hoccupied
    cases hoccupied

theorem updateExit_kept {handle : Handle} (h : Kept bodies past runtime)
    (hfind : runtime.find child = some handle) (exit : Option ProcessExit) (hsilent : label.Silent)
    (hwritten : label.written = []) :
    Kept bodies (shownAlso past child label)
      (runtime.put child handle ((runtime.held handle).updateExit exit)) :=
  call_kept h hfind (sameInput_updateExit exit).exitEmitted
    fun _ _ hsound hcounts =>
      ⟨(hsound.updateExit exit).unchanged hsilent hwritten, updateExit_counts hcounts exit⟩

theorem lookUpExit_kept (h : Kept bodies past runtime) (hchild : child < runtime.handles.length)
    (exit : Option ProcessExit) (hsilent : label.Silent) (hwritten : label.written = []) :
    Kept bodies (shownAlso past child label) (runtime.lookUpExit child exit) := by
  unfold lookUpExit
  split
  · exact h.unchanged hchild hsilent hwritten
  · rename_i handle hfind
    exact updateExit_kept h hfind exit hsilent hwritten

theorem writeStdin_kept (h : Kept bodies past runtime) (hchild : child < runtime.handles.length)
    (data : List UInt8) (exit : Option ProcessExit) (allocated : Bool) :
    Kept bodies (shownAlso past child
        (callLabel (.accepted (cstring data)) (runtime.writeStdin child data exit allocated).1))
      (runtime.writeStdin child data exit allocated).2 := by
  unfold writeStdin
  split
  · exact h.unchanged hchild trivial rfl
  rename_i handle hfind
  dsimp only
  split
  · exact h.unchanged hchild trivial rfl
  rename_i hlength
  split
  · exact updateExit_kept h hfind exit trivial rfl
  rename_i hopen
  split
  · exact updateExit_kept h hfind exit trivial rfl
  rename_i hidle
  split
  · exact updateExit_kept h hfind exit trivial rfl
  refine call_kept h hfind (sameInput_updateExit exit).exitEmitted
    fun body others hsound hcounts => ?_
  have hexit := hsound.updateExit exit
  have hnotPending : (handle.process.updateExit exit).child.stdinPending = false :=
    eq_false_of_ne_true hidle
  have hnotClosed : (handle.process.updateExit exit).child.stdinClosed = false :=
    eq_false_of_ne_true (not_or.mp hopen).1
  constructor
  · exact hexit.accept hnotPending hnotClosed
      fun hnil => hlength (.inl (by rw [hnil, List.length_nil]))
  · exact accept_counts (updateExit_counts hcounts exit) (hexit.unsent hnotPending)

theorem closeStdin_kept (h : Kept bodies past runtime) (hchild : child < runtime.handles.length) :
    Kept bodies (shownAlso past child (callLabel .stdinClosed (runtime.closeStdin child).1))
      (runtime.closeStdin child).2 := by
  unfold closeStdin
  split
  · exact h.unchanged hchild trivial rfl
  rename_i handle hfind
  split
  · exact h.unchanged hchild trivial rfl
  rename_i hidle
  refine call_kept h hfind ?_ fun body others hsound hcounts => ⟨?_, ?_⟩
  · unfold Process.closeStdin
    split
    all_goals rfl
  · exact hsound.closeStdin (by simpa using hidle)
  · unfold Process.closeStdin
    split
    all_goals exact hcounts

theorem cancel_kept (h : Kept bodies past runtime) (hchild : child < runtime.handles.length) :
    Kept bodies (shownAlso past child .cancelled) (runtime.cancel child) := by
  unfold cancel
  split
  · exact h.unchanged hchild trivial rfl
  · rename_i handle hfind
    obtain ⟨-, body, others, hbody, hkept, hsound, hcounts, hsum⟩ := h.found hfind
    have hafter : Sound body (past child ++ [.cancelled]) handle.process := hsound.unchanged trivial rfl
    exact h.put hfind hbody hsum hcounts ⟨hafter.law, fun _ => hafter, nofun, hkept.closed⟩

theorem closeChild_kept (h : Kept bodies past runtime) (hchild : child < runtime.handles.length) :
    Kept bodies (shownAlso past child .closed) (runtime.closeChild child) := by
  unfold closeChild
  split
  · exact h.unchanged hchild trivial rfl
  rename_i handle hfind
  obtain ⟨-, body, others, hbody, hkept, -, hcounts, hsum⟩ := h.found hfind
  have hafter : (runtime.held handle).release.Counts others := by
    rw [Held.Counts, release_retained hcounts, retainedBytes_release, Nat.zero_add]
  exact h.put hfind hbody hsum hafter
    ⟨hkept.law.silent trivial rfl, by rintro ⟨⟩, by rintro limit ⟨⟩, fun _ => retainedBytes_release⟩

/-! ## Starts and the shutdown -/

theorem start_kept (h : Kept bodies past runtime) (body : Stream → List UInt8) :
    Kept (bodies ++ [body]) past (runtime.start body) where
  length := by
    rw [start, List.length_append, List.length_append, h.length]
    rfl
  handles := by
    intro child handle other hhandle hbody
    rcases lt_trichotomy child bodies.length with hlt | rfl | hgt
    · rw [start, List.getElem?_append_left (h.length ▸ hlt)] at hhandle
      rw [List.getElem?_append_left hlt] at hbody
      exact h.handles child handle other hhandle hbody
    · rw [start, ← h.length, List.getElem?_concat_length] at hhandle
      rw [List.getElem?_concat_length] at hbody
      cases hhandle
      cases hbody
      rw [h.unstarted _ le_rfl]
      exact ⟨sound_started.law, fun _ => sound_started, nofun, nofun⟩
    · rw [List.getElem?_eq_none (by rw [List.length_append, List.length_singleton]; omega)] at hbody
      cases hbody
  retained := by
    rw [start, List.map_append, List.sum_append, ← h.retained]
    rfl
  unstarted := by
    intro child hchild
    rw [List.length_append] at hchild
    exact h.unstarted child (by omega)

theorem shutDown_kept (h : Kept bodies past runtime) : Kept bodies past runtime.shutDown where
  length := by
    rw [shutDown, List.length_map, h.length]
  handles := by
    intro child handle body hhandle hbody
    obtain ⟨before, hbefore, rfl⟩ := List.getElem?_map ▸ hhandle |> Option.map_eq_some_iff.mp
    exact ⟨(h.handles child before body hbefore hbody).law, nofun, nofun, fun _ => retainedBytes_release⟩
  retained := by
    have hzero : runtime.shutDown.handles.map (·.process.retainedBytes) =
        runtime.handles.map fun _ => 0 := by
      rw [shutDown, List.map_map]
      exact List.map_congr_left fun _ _ => retainedBytes_release
    rw [hzero]
    simp [shutDown]
  unstarted := h.unstarted

/-! ## Runs -/

/-- The body of the child that a label shows to be started. -/
def Shown.bodyOf : Shown → List (Stream → List UInt8)
  | .started body => [body]
  | _ => []

/-- What a label shows of a child. -/
def Shown.labelOf (child : ℕ) : Shown → List Label
  | .of other label => if other = child then [label] else []
  | _ => []

/-- What was shown, with one more label. -/
def shownThen (past : ℕ → List Label) (shown : Shown) : ℕ → List Label :=
  fun child => past child ++ shown.labelOf child

theorem shownThen_of (past : ℕ → List Label) (child : ℕ) (label : Label) :
    shownThen past (.of child label) = shownAlso past child label := by
  funext other
  by_cases hother : other = child
  · subst hother
    rw [shownThen, shownAlso, Function.update_self, Shown.labelOf, if_pos rfl]
  · rw [shownThen, shownAlso, Function.update_of_ne hother, Shown.labelOf, if_neg (Ne.symm hother),
      List.append_nil]

theorem shownThen_other {shown : Shown} (h : ∀ child, shown.labelOf child = []) :
    shownThen past shown = past := by
  funext child
  rw [shownThen, h child, List.append_nil]

theorem kept_of (h : Kept bodies (shownAlso past child label) next) :
    Kept (bodies ++ (Shown.of child label).bodyOf) (shownThen past (.of child label)) next := by
  rw [shownThen_of]
  exact (List.append_nil bodies).symm ▸ h

/-- **Each step** keeps the law of every child, and the count. -/
theorem kept_step {shown : Shown} (h : Kept bodies past runtime) (hstep : Step runtime shown next) :
    Kept (bodies ++ shown.bodyOf) (shownThen past shown) next := by
  cases hstep with
  | start body =>
    rw [shownThen_other fun _ => rfl]
    exact start_kept h body
  | eventStart maxChunkBytes timeoutMillis answers hchild =>
    exact kept_of (eventStart_kept h hchild timeoutMillis answers)
  | eventResume answers hchild hregistered =>
    exact kept_of (eventResume_kept h hchild answers hregistered)
  | cancel hchild => exact kept_of (cancel_kept h hchild)
  | writeStdin data exit allocated hchild => exact kept_of (writeStdin_kept h hchild data exit allocated)
  | closeStdin hchild => exact kept_of (closeStdin_kept h hchild)
  | tryWait exit hchild =>
    refine kept_of ?_
    unfold tryWait
    split
    · exact h.unchanged hchild trivial rfl
    · exact lookUpExit_kept h hchild exit trivial rfl
  | terminate exit killFails hchild =>
    refine kept_of ?_
    unfold terminate
    split
    · exact h.unchanged hchild trivial rfl
    · split
      all_goals exact lookUpExit_kept h hchild exit trivial rfl
  | exitDelivered exit hchild => exact kept_of (lookUpExit_kept h hchild (some exit) trivial rfl)
  | closeChild hchild => exact kept_of (closeChild_kept h hchild)
  | shutDown =>
    rw [shownThen_other fun _ => rfl]
    exact (List.append_nil bodies).symm ▸ shutDown_kept h

/-- The bodies of the children that were started, in order. -/
def startedOf (labels : List Shown) : List (Stream → List UInt8) := labels.flatMap Shown.bodyOf

/-- What was shown of a child. -/
def labelsOf (child : ℕ) (labels : List Shown) : List Label := labels.flatMap (Shown.labelOf child)

/-- **Every run** keeps the law of every child, and the count. -/
theorem kept_run {labels : List Shown} (h : Run Step empty labels runtime) :
    Kept (startedOf labels) (fun child => labelsOf child labels) runtime := by
  have hstep (past runtime shown next) : Kept (startedOf past) (fun child => labelsOf child past) runtime →
      Step runtime shown next →
      Kept (startedOf (past ++ [shown])) (fun child => labelsOf child (past ++ [shown])) next := by
    intro hkept hnext
    have hafter := kept_step hkept hnext
    simp only [startedOf, labelsOf, List.flatMap_append, List.flatMap_singleton]
    exact hafter
  have hempty : Kept (startedOf []) (fun child => labelsOf child []) empty := kept_empty
  exact h.history hstep hempty

end

end Runtime

end Nomo.Processes
