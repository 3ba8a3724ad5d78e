import Nomo.Lib.CString
import Nomo.Processes.Keeping

/-!
# Blocking process control

host_process_control.c, from `write_stdin` on. A `next_event` goes in rounds: in each it reports what there
is to report, and if there is nothing it polls the pipes, reads and writes what they have and take, and goes
on. A child that was closed is not found again.
-/

namespace Nomo.Processes

open Nomo.Lib

/-- A child's record, and whether it is found: `nomo_process_control_find`. -/
structure Control where
  process : Process
  linked : Bool

/-- The answers of the system in a round: the exit that `waitpid` finds, whether the deadline has passed,
whether `poll` fails, and the reads and the write where the pipes are ready. -/
structure Round where
  exit : Option ProcessExit
  late : Bool
  pollFailed : Bool
  stdout : Option Read
  stderr : Option Read
  stdin : Option Write

namespace Control

def invalidChild : ProcessError := invalidRequest "invalid process child"
def stdinIsClosed : ProcessError := invalidRequest "process stdin is closed"
def pollingFailed : ProcessError := { code := "io", message := "process event polling failed" }
def terminationFailed : ProcessError := { code := "io", message := "process termination failed" }

/-- A child that was started and writes these bytes. -/
def started (body : Stream → List UInt8) : Control := { process := .started body, linked := true }

variable (control : Control)

/-- `write_stdin`. -/
def writeStdin (data : List UInt8) : Except ProcessError Unit × Control :=
  let child := control.process.child
  if ¬ control.linked ∨ child.exitEmitted then (.error invalidChild, control)
  else if (cstring data).length = 0 ∨ maxPayloadBytes < (cstring data).length then
    (.error invalidPayload, control)
  else if child.stdinClosed ∨ child.exited then (.error stdinIsClosed, control)
  else if child.stdinPending then (.error stdinBusy, control)
  else (.ok (), { control with process := control.process.accept (cstring data) })

/-- `close_stdin`. -/
def closeStdin : Except ProcessError Unit × Control :=
  if ¬ control.linked then (.error invalidChild, control)
  else if control.process.child.stdinPending then (.error stdinStillBusy, control)
  else (.ok (), { control with process := control.process.closeStdin })

/-- The read of a pipe that `poll` has found ready. -/
def readReady (process : Process) (stream : Stream) (target : ℕ) (answer : Option Read) : Bool × Process :=
  match answer with
  | none => (true, process)
  | some answer => process.readStream stream target answer

/-- The write to the child's input, where a payload is pending and `poll` has found it ready. -/
def writeReady (process : Process) (answer : Option Write) : Bool × Process :=
  if process.child.stdinOpen ∧ process.child.stdinPending then
    match answer with
    | none => (true, process)
    | some answer => process.writeStdin answer
  else (true, process)

/-- The end of a round: the pipes. -/
def transfer (process : Process) (maxChunkBytes : ℕ) (round : Round) : Option ProcessError × Process :=
  let target := maxChunkBytes + bufferSlack
  match readReady process .stdout target round.stdout with
  | (false, process) => (some readFailed, process)
  | (true, process) =>
    match readReady process .stderr target round.stderr with
    | (false, process) => (some readFailed, process)
    | (true, process) =>
      match writeReady process round.stdin with
      | (false, process) => (some writeFailed, process)
      | (true, process) => (none, process)

/-- A round of `next_event`, which returns or goes on. -/
def nextRound (maxChunkBytes : ℕ) (round : Round) : Option EventResult × Control :=
  let process := control.process.updateExit round.exit
  if process.child.stdinFlushed then
    (some (.ok .stdinFlushed),
      { control with process := { process with child := { process.child with stdinFlushed := false } } })
  else
    match process.emitEither maxChunkBytes with
    -- `nomo_process_control_unlink` and `nomo_process_control_destroy`
    | (.broken, process) => (some (.error notText), { process := process, linked := false })
    | (.text stream text, process) =>
      (some (.ok (.text stream text)), { control with process := process })
    | (.nothing, process) =>
      if process.exitDue then
        (some (.ok (.exited process.child.exitInfo)),
          { control with process := { process with child := { process.child with exitEmitted := true } } })
      else if round.late then (some (.error timedOut), { control with process := process })
      else if round.pollFailed then (some (.error pollingFailed), { control with process := process })
      else
        match transfer process maxChunkBytes round with
        | (some error, process) => (some (.error error), { control with process := process })
        | (none, process) => (none, { control with process := process })

/-- The rounds of `next_event`. -/
def nextRounds (control : Control) (maxChunkBytes : ℕ) : List Round → Option EventResult × Control
  | [] => (none, control)
  | round :: rounds =>
    match control.nextRound maxChunkBytes round with
    | (none, control) => nextRounds control maxChunkBytes rounds
    | (some result, control) => (some result, control)

/-- `next_event`; it has not returned yet where the rounds run out. -/
def nextEvent (maxChunkBytes timeoutMillis : ℕ) (rounds : List Round) : Option EventResult × Control :=
  if ¬ control.linked ∨ control.process.child.exitEmitted then (some (.error invalidChild), control)
  else if maxChunkBytes < 4 ∨ maxPayloadBytes < maxChunkBytes ∨ timeoutMillis = 0 ∨
      maxTimeoutMillis < timeoutMillis then (some (.error invalidEventLimit), control)
  else control.nextRounds maxChunkBytes rounds

/-- `try_wait`. -/
def tryWait (exit : Option ProcessExit) : Except ProcessError (Option ProcessExit) × Control :=
  if ¬ control.linked then (.error invalidChild, control)
  else
    let process := control.process.updateExit exit
    (.ok (if process.child.exited then some process.child.exitInfo else none),
      { control with process := process })

/-- `terminate`, with whether `kill` fails. -/
def terminate (exit : Option ProcessExit) (killFails : Bool) : Except ProcessError Unit × Control :=
  if ¬ control.linked then (.error invalidChild, control)
  else
    let process := control.process.updateExit exit
    if ¬ process.child.exited ∧ killFails then
      (.error terminationFailed, { control with process := process })
    else (.ok (), { control with process := process })

/-- `close_child`. -/
def closeChild : Control := { control with linked := false }

/-- What a call has written to the child's input. -/
def written (next : Control) : List UInt8 := next.process.piped.drop control.process.piped.length

/-- What the parent can do with a child, with what is shown of it. -/
inductive Step : Control → Label → Control → Prop
  | event {maxChunkBytes timeoutMillis : ℕ} {rounds : List Round} {result : EventResult}
      {control next : Control} (h : control.nextEvent maxChunkBytes timeoutMillis rounds = (some result, next)) :
      Step control (.event maxChunkBytes (control.written next) result) next
  | accepted {data : List UInt8} {control next : Control} (h : control.writeStdin data = (.ok (), next)) :
      Step control (.accepted (cstring data)) next
  | refused {data : List UInt8} {error : ProcessError} {control next : Control}
      (h : control.writeStdin data = (.error error, next)) : Step control (.refused error) next
  | stdinClosed {control next : Control} (h : control.closeStdin = (.ok (), next)) :
      Step control .stdinClosed next
  | stdinPending {error : ProcessError} {control next : Control}
      (h : control.closeStdin = (.error error, next)) : Step control (.refused error) next
  | waited (control : Control) (exit : Option ProcessExit) :
      Step control .waited (control.tryWait exit).2
  | terminated (control : Control) (exit : Option ProcessExit) (killFails : Bool) :
      Step control .terminated (control.terminate exit killFails).2
  | closed (control : Control) : Step control .closed control.closeChild

/-! ## Each step keeps the law -/

section

variable {body : Stream → List UInt8} {past : List Label} {process other : Process} {maxChunkBytes : ℕ}
  {round : Round} {control next : Control}

theorem readReady_keeps {stream : Stream} {target : ℕ} {answer : Option Read} (h : During body past process) :
    During body past (readReady process stream target answer).2 ∧
      SameInput process (readReady process stream target answer).2 := by
  unfold readReady
  split
  · exact ⟨h, .refl process⟩
  · exact ⟨h.readStream target _, sameInput_readStream target _⟩

/-- The pipes: an event goes on, or it ends with an error, after which no flush is to be reported. -/
theorem transfer_keeps (h : During body past process) (hflushed : Unflushed past process) :
    During body past (transfer process maxChunkBytes round).2 ∧
      ∀ error, (transfer process maxChunkBytes round).1 = some error →
        Unflushed past (transfer process maxChunkBytes round).2 := by
  unfold transfer
  dsimp only
  obtain ⟨hout, hsameOut⟩ := @readReady_keeps _ _ _ .stdout (maxChunkBytes + bufferSlack) round.stdout h
  split
  · rename_i process' heq
    rw [heq] at hout hsameOut
    exact ⟨hout, fun _ _ => hflushed.same hsameOut⟩
  rename_i process' heq
  rw [heq] at hout hsameOut
  have hflushed' := hflushed.same hsameOut
  obtain ⟨herr, hsameErr⟩ := @readReady_keeps _ _ _ .stderr (maxChunkBytes + bufferSlack) round.stderr hout
  split
  · rename_i process'' heq'
    rw [heq'] at herr hsameErr
    exact ⟨herr, fun _ _ => hflushed'.same hsameErr⟩
  rename_i process'' heq'
  rw [heq'] at herr hsameErr
  have hwrite : During body past (writeReady process'' round.stdin).2 ∧
      ((writeReady process'' round.stdin).1 = false →
        (writeReady process'' round.stdin).2.child.stdinFlushed = false) := by
    unfold writeReady
    split
    · rename_i hready
      split
      · exact ⟨herr, nofun⟩
      · obtain ⟨missed, hholds, -⟩ := herr.holds
        exact ⟨herr.writeStdin hready.2 _, fun hfailed => writeStdin_failed hholds.input hready.2 hfailed⟩
    · exact ⟨herr, nofun⟩
  split
  · rename_i heq''
    rw [heq''] at hwrite
    exact ⟨hwrite.1, fun _ _ _ => hwrite.2 rfl⟩
  · rename_i heq''
    rw [heq''] at hwrite
    exact ⟨hwrite.1, nofun⟩

/-- **A round**: it goes on within the event, or the event ends. -/
theorem nextRound_keeps {result : Option EventResult} (h : During body past control.process)
    (hrun : control.nextRound maxChunkBytes round = (result, next)) :
    Continues body past maxChunkBytes result next.process := by
  have hexit := h.updateExit round.exit
  unfold nextRound at hrun
  dsimp only at hrun
  generalize control.process.updateExit round.exit = process at hexit hrun
  split at hrun
  · -- the payload of the last round was flushed
    rename_i hflushed
    cases hrun
    exact hexit.flush hflushed
  rename_i hnot
  have hflushed : Unflushed past process := fun _ => by simpa using hnot
  obtain ⟨stream, hemit⟩ := @emitEither_cases process maxChunkBytes
  rw [hemit] at hrun
  split at hrun
  · rename_i process' hbroken
    obtain rfl := emitStream_other (.inr hbroken)
    cases hrun
    exact hexit.error fun _ => hflushed
  · rename_i reported text process' htext
    cases hrun
    exact hexit.text hflushed htext
  rename_i process' hnothing
  obtain rfl := emitStream_other (.inl hnothing)
  split at hrun
  · rename_i hdue
    cases hrun
    exact hexit.exit hflushed hdue
  split at hrun
  · cases hrun
    exact hexit.error fun _ => hflushed
  split at hrun
  · cases hrun
    exact hexit.error fun _ => hflushed
  obtain ⟨hduring, hends⟩ := @transfer_keeps _ _ _ maxChunkBytes round hexit hflushed
  split at hrun
  · rename_i error process'' hended
    rw [hended] at hduring hends
    cases hrun
    exact hduring.error fun _ => hends error rfl
  · rename_i process'' hgoes
    rw [hgoes] at hduring
    cases hrun
    exact hduring

theorem nextRounds_keeps {rounds : List Round} {result : EventResult} (h : During body past control.process)
    (hrun : control.nextRounds maxChunkBytes rounds = (some result, next)) :
    Ends body past (Label.ending maxChunkBytes result) next.process := by
  induction rounds generalizing control with
  | nil => cases hrun
  | cons round rounds ih =>
    simp only [nextRounds] at hrun
    split at hrun
    · rename_i middle hround
      exact ih (nextRound_keeps h hround) hrun
    · rename_i shown middle hround
      cases hrun
      exact nextRound_keeps h hround

theorem nextEvent_keeps {timeoutMillis : ℕ} {rounds : List Round} {result : EventResult}
    (h : Sound body past control.process)
    (hrun : control.nextEvent maxChunkBytes timeoutMillis rounds = (some result, next)) :
    Sound body (past ++ [.event maxChunkBytes (control.written next) result]) next.process := by
  have hunchanged : ∀ error, Sound body (past ++ [.event maxChunkBytes (control.written control) (.error error)])
      control.process := fun error => h.unchanged trivial List.drop_length
  unfold nextEvent at hrun
  split at hrun
  · cases hrun
    exact hunchanged _
  rename_i hfound
  split at hrun
  · cases hrun
    exact hunchanged _
  · have hunreported : control.process.child.exitEmitted = false := by
      simpa using (not_or.mp hfound).2
    exact (nextRounds_keeps (h.during hunreported).1 hrun).sound h.piped

theorem writeStdin_keeps {data : List UInt8} (h : Sound body past control.process)
    (hrun : control.writeStdin data = (.ok (), next)) :
    Sound body (past ++ [.accepted (cstring data)]) next.process := by
  simp only [writeStdin] at hrun
  split at hrun
  · cases hrun
  split at hrun
  · cases hrun
  rename_i hlength
  split at hrun
  · cases hrun
  rename_i hopen
  split at hrun
  · cases hrun
  rename_i hidle
  cases hrun
  refine h.accept ?_ ?_ ?_
  · simpa using hidle
  · simpa using (not_or.mp hopen).1
  · exact fun hnil => hlength (.inl (by rw [hnil, List.length_nil]))

theorem writeStdin_refused {data : List UInt8} {error : ProcessError}
    (hrun : control.writeStdin data = (.error error, next)) : next = control := by
  simp only [writeStdin] at hrun
  split at hrun
  · cases hrun
    rfl
  split at hrun
  · cases hrun
    rfl
  split at hrun
  · cases hrun
    rfl
  · split at hrun
    · cases hrun
      rfl
    · cases hrun

/-- **Each step** keeps the state sound. -/
theorem sound_step {label : Label} (h : Sound body past control.process) (hstep : Step control label next) :
    Sound body (past ++ [label]) next.process := by
  cases hstep with
  | event hrun => exact nextEvent_keeps h hrun
  | accepted hrun => exact writeStdin_keeps h hrun
  | refused hrun =>
    obtain rfl := writeStdin_refused hrun
    exact h.unchanged trivial rfl
  | stdinClosed hrun =>
    simp only [closeStdin] at hrun
    split at hrun
    · cases hrun
    split at hrun
    · cases hrun
    · rename_i hidle
      cases hrun
      exact h.closeStdin (by simpa using hidle)
  | stdinPending hrun =>
    simp only [closeStdin] at hrun
    split at hrun
    · cases hrun
      exact h.unchanged trivial rfl
    · split at hrun
      · cases hrun
        exact h.unchanged trivial rfl
      · cases hrun
  | waited _ exit =>
    simp only [tryWait]
    split
    · exact h.unchanged trivial rfl
    · exact (h.updateExit exit).unchanged trivial rfl
  | terminated _ exit killFails =>
    simp only [terminate]
    split
    · exact h.unchanged trivial rfl
    · split
      all_goals exact (h.updateExit exit).unchanged trivial rfl
  | closed => exact h.unchanged trivial rfl

/-- **Every run** from the start of a child keeps the state sound. -/
theorem sound_run {labels : List Label} (h : Run Step (started body) labels control) :
    Sound body labels control.process := by
  have hstep : ∀ past (control : Control) label next, Sound body past control.process →
      Step control label next → Sound body (past ++ [label]) next.process :=
    fun _ _ _ _ => sound_step
  exact h.history hstep sound_started

end

end Control

end Nomo.Processes
