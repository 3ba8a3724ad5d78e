import Nomo.Processes.Control
import Nomo.Processes.AsyncExact

/-!
# Process events are exact

In both implementations, in every run: what the events of a child report is what it writes to its output,
and what reaches its input are the payloads that were accepted (`Law`), while what is not reported yet is
still buffered or unread (`Conserved`), so that no event loses a byte, whether it reports something or times
out; and the retained bytes of the asynchronous implementation are the bytes that are buffered.

A payload that was accepted need not reach the child: the write of it can fail, and the child can exit.
-/

namespace Nomo.Processes

open Nomo.Lib

section

/-- A child that writes nothing. -/
def silentBody : Stream → List UInt8 := fun _ => []

/-- A round in which one byte is written. -/
def oneByteRound : Round where
  exit := none
  late := false
  pollFailed := false
  stdout := some .again
  stderr := some .again
  stdin := some (.bytes 0)

/-- Progress in which one byte is written. -/
def oneByteProgress : Progress where
  exitBefore := none
  stdin := .bytes 0
  stdout := .again
  stderr := .again
  exitAfter := none

theorem control_flushes : ∃ control, Run Control.Step (.started silentBody)
    [.accepted [97], .event 4 [97] (.ok .stdinFlushed)] control :=
  ⟨_, .cons (@Control.Step.accepted [97] (.started silentBody) _ rfl) <|
    .cons (@Control.Step.event 4 1 [oneByteRound, oneByteRound] (.ok .stdinFlushed) _
      (((Control.started silentBody).writeStdin [97]).2.nextEvent 4 1 [oneByteRound, oneByteRound]).2 rfl) <|
    .nil _⟩

theorem runtime_flushes : ∃ runtime, Run Runtime.Step .empty
    [.started silentBody, .of 0 (.accepted [97]), .of 0 (.event 4 [97] (.ok .stdinFlushed))] runtime :=
  ⟨_, .cons (@Runtime.Step.start .empty silentBody) <|
    .cons (@Runtime.Step.writeStdin _ 0 [97] none true Nat.one_pos) <|
    .cons (@Runtime.Step.eventStart _ 0 4 1 ⟨oneByteProgress, .armed, oneByteProgress, .armed⟩ Nat.one_pos) <|
    .nil _⟩

theorem Control.Step.after_exit {control next : Control} {label : Label} (h : Control.Step control label next)
    (hexited : control.process.child.exitEmitted = true) :
    label.written = [] ∧ next.process.child.exitEmitted = true := by
  have hrefused : ∀ {maxChunkBytes timeoutMillis rounds},
      control.nextEvent maxChunkBytes timeoutMillis rounds = (some (.error Control.invalidChild), control) := by
    intro maxChunkBytes timeoutMillis rounds
    rw [Control.nextEvent, if_pos (.inr hexited)]
  cases h with
  | event hrun =>
    rw [hrefused] at hrun
    cases hrun
    exact ⟨List.drop_length, hexited⟩
  | accepted hrun =>
    simp only [Control.writeStdin] at hrun
    rw [if_pos (.inr hexited)] at hrun
    cases hrun
  | refused hrun =>
    obtain rfl := Control.writeStdin_refused hrun
    exact ⟨rfl, hexited⟩
  | stdinClosed hrun =>
    simp only [Control.closeStdin] at hrun
    split at hrun
    · cases hrun
    split at hrun
    · cases hrun
    cases hrun
    refine ⟨rfl, ?_⟩
    unfold Process.closeStdin
    split
    all_goals exact hexited
  | stdinPending hrun =>
    simp only [Control.closeStdin] at hrun
    split at hrun
    · cases hrun
      exact ⟨rfl, hexited⟩
    · split at hrun
      · cases hrun
        exact ⟨rfl, hexited⟩
      · cases hrun
  | waited _ exit =>
    refine ⟨rfl, ?_⟩
    simp only [Control.tryWait]
    split
    · exact hexited
    · exact (sameInput_updateExit exit).exitEmitted.trans hexited
  | terminated _ exit killFails =>
    refine ⟨rfl, ?_⟩
    simp only [Control.terminate]
    split
    · exact hexited
    · split
      all_goals exact (sameInput_updateExit exit).exitEmitted.trans hexited
  | closed => exact ⟨rfl, hexited⟩

theorem pipedOf_after_exit {control next : Control} {labels : List Label}
    (h : Run Control.Step control labels next) (hexited : control.process.child.exitEmitted = true) :
    pipedOf labels = [] := by
  induction h with
  | nil => rfl
  | cons hstep _ ih =>
    obtain ⟨hwritten, hnext⟩ := hstep.after_exit hexited
    rw [pipedOf, List.flatMap_cons, hwritten]
    exact ih hnext

/-- A round that finds the child's exit, the ends of its output, and its input closed. -/
def exitRound : Round where
  exit := some { code := 0, signal := 0 }
  late := false
  pollFailed := false
  stdout := some .ended
  stderr := some .ended
  stdin := some .failed

/-- The child, after a payload was accepted, when it has exited. -/
def exited : Control :=
  ((((Control.started silentBody).writeStdin [97]).2.nextEvent 4 1 [exitRound]).2.nextEvent 4 1 [exitRound]).2

theorem exited_run : Run Control.Step (.started silentBody)
    [.accepted [97], .event 4 [] (.error writeFailed), .event 4 [] (.ok (.exited { code := 0, signal := 0 }))]
    exited :=
  .cons (@Control.Step.accepted [97] (.started silentBody) _ rfl) <|
    .cons (@Control.Step.event 4 1 [exitRound] (.error writeFailed) _
      (((Control.started silentBody).writeStdin [97]).2.nextEvent 4 1 [exitRound]).2 rfl) <|
    .cons (@Control.Step.event 4 1 [exitRound] (.ok (.exited { code := 0, signal := 0 })) _ exited rfl) <|
    .nil _

end

end Nomo.Processes
