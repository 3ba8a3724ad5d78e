import Nomo.Processes.Retained

/-!
# What an asynchronous event comes to

Each part of an event (the progress, the arming, the timeout) goes on within the event or ends it, and the
retained bytes are still counted (`Comes`). A part that closes the child leaves nothing of it buffered.
-/

namespace Nomo.Processes

open Nomo.Lib

namespace Runtime

/-- What a part of an event comes to: it goes on within the event; it ends the event, after which the
state is sound; or it ends the event and has released the child, which was sound until then. -/
def Comes (body : Stream → List UInt8) (past : List Label) (maxChunkBytes others : ℕ) :
    Progressed × Held → Prop
  | (.pending, held) => During body past held.process ∧ Unflushed past held.process ∧ held.Counts others
  | (.reports result, held) =>
    Ends body past (Label.ending maxChunkBytes result) held.process ∧ held.Counts others
  | (.closes result, held) =>
    (∃ process : Process, process.piped = held.process.piped ∧
      Ends body past (Label.ending maxChunkBytes result) process) ∧
        held.process.retainedBytes = 0 ∧ held.retained = others

section

variable {body : Stream → List UInt8} {past : List Label} {maxChunkBytes others : ℕ} {held : Held}

theorem emitEither_eq (held : Held) (maxChunkBytes : ℕ) : ∃ stream,
    held.emitEither maxChunkBytes = held.emitStream stream maxChunkBytes := by
  unfold Held.emitEither
  generalize (if held.process.child.preferStderr then Stream.stderr else .stdout) = first
  dsimp only
  split
  · exact ⟨first.other, rfl⟩
  · exact ⟨first, rfl⟩

/-- **The report** of an event. -/
theorem report_comes (h : During body past held.process) (hcounts : held.Counts others) :
    Comes body past maxChunkBytes others (report held maxChunkBytes) := by
  unfold report
  dsimp only
  split
  · rename_i hflushed
    exact ⟨h.flush hflushed, hcounts⟩
  rename_i hnot
  have hflushed : Unflushed past held.process := fun _ => by simpa using hnot
  obtain ⟨stream, hemit⟩ := emitEither_eq held maxChunkBytes
  obtain ⟨hsame, hprocess, hafter⟩ := @emitStream_eq others maxChunkBytes held stream hcounts
  rw [hemit]
  generalize hattempt : held.emitStream stream maxChunkBytes = attempt at hsame hprocess hafter
  obtain ⟨emitted, held'⟩ := attempt
  have hshared : held.process.emitStream stream maxChunkBytes = (emitted, held'.process) :=
    Prod.ext hsame.symm hprocess.symm
  cases emitted with
  | broken =>
    have hbroken := emitStream_other (.inr hshared)
    exact ⟨⟨held'.process, rfl, hbroken ▸ h.error fun _ => hflushed⟩, retainedBytes_release,
      release_retained hafter⟩
  | text reported text => exact ⟨h.text hflushed hshared, hafter⟩
  | nothing =>
    have hnothing := emitStream_other (.inl hshared)
    rw [← hnothing] at h hflushed
    dsimp only
    split
    · rename_i hdue
      exact ⟨h.exit hflushed hdue, hafter⟩
    · exact ⟨h, hflushed, hafter⟩

theorem updateExit_keeps (h : During body past held.process) (hcounts : held.Counts others)
    (exit : Option ProcessExit) :
    During body past (held.updateExit exit).process ∧ (held.updateExit exit).Counts others :=
  ⟨h.updateExit exit, updateExit_counts hcounts exit⟩

theorem flushStdin_keeps (h : During body past held.process) (hcounts : held.Counts others)
    (answer : Write) :
    During body past (held.flushStdin answer).2.process ∧ (held.flushStdin answer).2.Counts others ∧
      ((held.flushStdin answer).1 = false → Unflushed past (held.flushStdin answer).2.process) := by
  refine ⟨?_, flushStdin_counts hcounts answer, ?_⟩
  · rcases @flushStdin_process held answer with heq | ⟨hpending, -, hprocess⟩
    · rw [heq]
      exact h
    · rw [hprocess]
      exact h.writeStdin hpending answer
  · intro hfailed _
    rcases @flushStdin_process held answer with heq | ⟨hpending, hwritten, hprocess⟩
    · rw [heq] at hfailed
      cases hfailed
    · obtain ⟨missed, hholds, -⟩ := h.holds
      rw [hprocess]
      exact writeStdin_failed hholds.input hpending (hwritten.symm.trans hfailed)

theorem readStream_keeps {stream : Stream} {target : ℕ} (h : During body past held.process)
    (hcounts : held.Counts others) (htarget : target ≤ maxPayloadBytes + bufferSlack) (answer : Read) :
    During body past (held.readStream stream target answer).2.process ∧
      (held.readStream stream target answer).2.Counts others := by
  obtain ⟨-, hprocess, hafter⟩ := @readStream_eq others target held stream htarget hcounts answer
  refine ⟨?_, hafter⟩
  rw [hprocess]
  exact h.readStream target answer

/-- **The progress** of an event. -/
theorem eventProgress_comes (h : During body past held.process) (hcounts : held.Counts others)
    (hlimit : maxChunkBytes ≤ maxPayloadBytes) (answers : Progress) :
    Comes body past maxChunkBytes others (eventProgress held maxChunkBytes answers) := by
  have htarget : maxChunkBytes + bufferSlack ≤ maxPayloadBytes + bufferSlack := Nat.add_le_add_right hlimit _
  unfold eventProgress
  obtain ⟨hexit, hexitCounts⟩ := updateExit_keeps h hcounts answers.exitBefore
  obtain ⟨hflush, hflushCounts, hfailed⟩ := flushStdin_keeps hexit hexitCounts answers.stdin
  generalize (held.updateExit answers.exitBefore).flushStdin answers.stdin = flushed at hflush hflushCounts hfailed
  obtain ⟨_ | _, held⟩ := flushed
  · exact ⟨hflush.error fun _ => hfailed rfl, hflushCounts⟩
  obtain ⟨hout, houtCounts⟩ := @readStream_keeps _ _ _ _ .stdout _ hflush hflushCounts htarget answers.stdout
  dsimp only
  generalize held.readStream .stdout (maxChunkBytes + bufferSlack) answers.stdout = first at hout houtCounts
  obtain ⟨_ | _, held⟩ := first
  · exact ⟨hout.error fun hnot => absurd rfl hnot, houtCounts⟩
  obtain ⟨herr, herrCounts⟩ := @readStream_keeps _ _ _ _ .stderr _ hout houtCounts htarget answers.stderr
  dsimp only
  generalize held.readStream .stderr (maxChunkBytes + bufferSlack) answers.stderr = second at herr herrCounts
  obtain ⟨_ | _, held⟩ := second
  · exact ⟨herr.error fun hnot => absurd rfl hnot, herrCounts⟩
  · obtain ⟨hlast, hlastCounts⟩ := updateExit_keeps herr herrCounts answers.exitAfter
    exact report_comes hlast hlastCounts

theorem failure_comes {reactor : ProcessError} (h : During body past held.process)
    (hflushed : Unflushed past held.process) (hcounts : held.Counts others) (arm : Arm) :
    Comes body past maxChunkBytes others
      ((arm.failure reactor).elim .pending fun error => .reports (.error error), held) := by
  cases arm.failure reactor with
  | none => exact ⟨h, hflushed, hcounts⟩
  | some error => exact ⟨h.error fun _ => hflushed, hcounts⟩

/-- **The arming** of an event. -/
theorem arm_comes {reactor : ProcessError} (h : During body past held.process)
    (hflushed : Unflushed past held.process) (hcounts : held.Counts others)
    (hlimit : maxChunkBytes ≤ maxPayloadBytes) (first : Arm) (again : Progress) (second : Arm) :
    Comes body past maxChunkBytes others (arm held maxChunkBytes reactor first again second) := by
  cases first with
  | armed => exact ⟨h, hflushed, hcounts⟩
  | registrationFailed | timersExhausted => exact ⟨h.error fun _ => hflushed, hcounts⟩
  | exited exit =>
    simp only [arm]
    split
    · exact ⟨h, hflushed, hcounts⟩
    obtain ⟨hexit, hexitCounts⟩ := updateExit_keeps h hcounts (some exit)
    have hagain := eventProgress_comes hexit hexitCounts hlimit again
    generalize eventProgress (held.updateExit (some exit)) maxChunkBytes again = progressed at hagain
    obtain ⟨_ | result | result, held⟩ := progressed
    · obtain ⟨hduring, hunflushed, hafter⟩ := hagain
      exact failure_comes hduring hunflushed hafter second
    all_goals exact hagain

theorem orTimedOut_comes {outcome : Progressed × Held} (h : Comes body past maxChunkBytes others outcome) :
    Comes body past maxChunkBytes others (orTimedOut outcome) := by
  obtain ⟨_ | result | result, held⟩ := outcome
  · obtain ⟨hduring, hflushed, hcounts⟩ := h
    exact ⟨hduring.error fun _ => hflushed, hcounts⟩
  all_goals exact h

end

end Runtime

end Nomo.Processes

/-!
## All children of the asynchronous runtime

Each entry keeps its own child's law, whatever is done to the others, and `retained_process_bytes` is the
sum over all entries (`Kept`). An operation on one child writes that child's entry back (`Kept.put`), or
leaves the runtime as it is.
-/

namespace Nomo.Processes

open Nomo.Lib

/-- What is shown of a child that does not report anything keeps its law. -/
theorem Law.silent {body : Stream → List UInt8} {past : List Label} {label : Label} (h : Law body past)
    (hsilent : label.Silent) (hwritten : label.written = []) : Law body (past ++ [label]) := by
  obtain ⟨-, hpayload, hflush, hexit, hlaw⟩ := @silent_label body _ hsilent
  have hpiped : pipedOf (past ++ [label]) = pipedOf past := by
    rw [pipedOf_concat, hwritten, List.append_nil]
  have hpayloads : payloadsOf (past ++ [label]) = payloadsOf past := by
    rw [payloadsOf_concat, hpayload, List.append_nil]
  have hflushes : flushesOf (past ++ [label]) = flushesOf past := by
    rw [flushesOf_concat, hflush]
    rfl
  have hcompleted : completedOf (past ++ [label]) = completedOf past := by
    rw [completedOf, completedOf, hpiped, hpayloads]
  refine ⟨?_, ?_, Throughout.concat_iff.mpr ⟨h.events, hlaw past⟩, ?_, ?_, fun hpast => ?_⟩
  · rw [textsOf_silent hsilent]
    exact h.texts
  · rw [hpiped, hpayloads]
    exact h.piped
  · rw [exitsOf_concat, hexit]
    exact h.exits
  · rw [hflushes, hcompleted]
    exact h.flushes
  · rw [hflushes, hcompleted]
    exact h.exact hpast.of_concat

namespace Runtime

/-! ## Entries -/

/-- An entry keeps its child's law; while it is occupied its state is sound, and while an event is pending
the exit was not reported; what was closed buffers nothing. -/
structure HandleKept (body : Stream → List UInt8) (past : List Label) (handle : Handle) : Prop where
  law : Law body past
  sound : handle.occupied = true → Sound body past handle.process
  event : ∀ maxChunkBytes, handle.event = some maxChunkBytes →
    maxChunkBytes ≤ maxPayloadBytes ∧ handle.process.child.exitEmitted = false
  closed : handle.occupied = false → handle.process.retainedBytes = 0

/-- The entries, of children that write these bytes, after what was shown of each. -/
structure Kept (bodies : List (Stream → List UInt8)) (past : ℕ → List Label) (runtime : Runtime) : Prop where
  length : runtime.handles.length = bodies.length
  handles : ∀ child handle body, runtime.handles[child]? = some handle → bodies[child]? = some body →
    HandleKept body (past child) handle
  retained : runtime.retained = (runtime.handles.map (·.process.retainedBytes)).sum
  unstarted : ∀ child, bodies.length ≤ child → past child = []

section

variable {body : Stream → List UInt8} {bodies : List (Stream → List UInt8)} {past : ℕ → List Label}
  {runtime next : Runtime} {child maxChunkBytes others : ℕ} {handle other : Handle} {held : Held} {label : Label}

theorem HandleKept.silent {past : List Label} (h : HandleKept body past handle) (hsilent : label.Silent)
    (hwritten : label.written = []) : HandleKept body (past ++ [label]) handle :=
  ⟨h.law.silent hsilent hwritten, fun hoccupied => (h.sound hoccupied).unchanged hsilent hwritten, h.event,
    h.closed⟩

theorem find_some (h : runtime.find child = some handle) :
    runtime.handles[child]? = some handle ∧ handle.occupied = true :=
  Option.filter_eq_some_iff.mp h

theorem kept_empty : Kept [] (fun _ => []) empty where
  length := rfl
  handles := by
    intro child handle body h
    simp [empty] at h
  retained := rfl
  unstarted := fun _ _ => rfl

/-- What was shown, with one more label of a child. -/
def shownAlso (past : ℕ → List Label) (child : ℕ) (label : Label) : ℕ → List Label :=
  Function.update past child (past child ++ [label])

theorem shownAlso_unstarted (h : Kept bodies past runtime) (hchild : child < runtime.handles.length) :
    ∀ other, bodies.length ≤ other → shownAlso past child label other = [] := by
  intro other hother
  have hne : other ≠ child := by
    rintro rfl
    rw [h.length] at hchild
    omega
  rw [shownAlso, Function.update_of_ne hne]
  exact h.unstarted other hother

theorem Kept.unchanged (h : Kept bodies past runtime) (hchild : child < runtime.handles.length)
    (hsilent : label.Silent) (hwritten : label.written = []) :
    Kept bodies (shownAlso past child label) runtime where
  length := h.length
  handles := by
    intro other handle body hhandle hbody
    by_cases hother : other = child
    · subst hother
      rw [shownAlso, Function.update_self]
      exact (h.handles other handle body hhandle hbody).silent hsilent hwritten
    · rw [shownAlso, Function.update_of_ne hother]
      exact h.handles other handle body hhandle hbody
  retained := h.retained
  unstarted := shownAlso_unstarted h hchild

theorem Kept.found (h : Kept bodies past runtime) (hfind : runtime.find child = some handle) :
    child < runtime.handles.length ∧ ∃ body others, bodies[child]? = some body ∧
      HandleKept body (past child) handle ∧ Sound body (past child) handle.process ∧
      (runtime.held handle).Counts others ∧
      ∀ other : Handle, ((runtime.handles.set child other).map (·.process.retainedBytes)).sum =
        other.process.retainedBytes + others := by
  obtain ⟨hhandle, hoccupied⟩ := find_some hfind
  obtain ⟨hlt, hget⟩ := List.getElem?_eq_some_iff.mp hhandle
  have hstarted : child < bodies.length := h.length ▸ hlt
  have hbody : bodies[child]? = some bodies[child] := List.getElem?_eq_getElem hstarted
  have hkept := h.handles child handle _ hhandle hbody
  have hsum (other : Handle) : ((runtime.handles.set child other).map (·.process.retainedBytes)).sum =
      other.process.retainedBytes + (((runtime.handles.map (·.process.retainedBytes)).take child).sum +
        ((runtime.handles.map (·.process.retainedBytes)).drop (child + 1)).sum) := by
    rw [List.map_set, List.sum_set, List.length_map, if_pos hlt]
    omega
  refine ⟨hlt, _, _, hbody, hkept, hkept.sound hoccupied, ?_, hsum⟩
  have hsame := hsum handle
  rw [← hget, List.set_getElem_self, hget, ← h.retained] at hsame
  exact hsame

theorem Kept.put (h : Kept bodies past runtime) (hfind : runtime.find child = some handle)
    (hbody : bodies[child]? = some body)
    (hsum : ∀ other : Handle, ((runtime.handles.set child other).map (·.process.retainedBytes)).sum =
      other.process.retainedBytes + others)
    (hcounts : held.Counts others)
    (hnew : HandleKept body (past child ++ [label]) { other with process := held.process }) :
    Kept bodies (shownAlso past child label) (runtime.put child other held) := by
  obtain ⟨hhandle, -⟩ := find_some hfind
  obtain ⟨hlt, -⟩ := List.getElem?_eq_some_iff.mp hhandle
  refine ⟨?_, ?_, ?_, shownAlso_unstarted h hlt⟩
  · show (runtime.handles.set child _).length = _
    rw [List.length_set, h.length]
  · intro another handle' body' hhandle' hbody'
    by_cases hanother : another = child
    · subst hanother
      rw [hbody] at hbody'
      cases hbody'
      rw [show (runtime.put another other held).handles[another]? =
        some { other with process := held.process } from List.getElem?_set_self hlt] at hhandle'
      cases hhandle'
      rw [shownAlso, Function.update_self]
      exact hnew
    · rw [show (runtime.put child other held).handles[another]? = runtime.handles[another]? from
        List.getElem?_set_ne (Ne.symm hanother)] at hhandle'
      rw [shownAlso, Function.update_of_ne hanother]
      exact h.handles another handle' body' hhandle' hbody'
  · show held.retained = _
    exact hcounts.trans (hsum { other with process := held.process }).symm

end

end Runtime

end Nomo.Processes
