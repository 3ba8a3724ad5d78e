import Nomo.Processes.AsyncControl

/-!
# What is buffered is counted

The operations of the asynchronous implementation do to a child what the shared operations do, and
`retained_process_bytes` stays the number of bytes that are buffered: of the child, and of the others
(`Held.Counts`). In particular no buffer is ever too full for what was read.
-/

namespace Nomo.Processes

open Nomo.Lib

/-- How many bytes of a child are buffered: its output that was not reported, and what is left of its
payload. -/
def Process.retainedBytes (process : Process) : ℕ :=
  (process.child.output .stdout).buffer.length + (process.child.output .stderr).buffer.length +
    (process.child.stdinData.length - process.child.stdinOffset)

/-- The retained bytes are the child's and the others'. -/
def Held.Counts (others : ℕ) (held : Held) : Prop :=
  held.retained = held.process.retainedBytes + others

section

variable {others maxChunkBytes target amount : ℕ} {held : Held} {stream : Stream} {process : Process}

theorem retainedBytes_setOutput (output : Output) :
    (process.setOutput stream output).retainedBytes + (process.child.output stream).buffer.length =
      process.retainedBytes + output.buffer.length := by
  cases stream with
  | stdout | stderr => simp [Process.retainedBytes, Process.setOutput]; omega

theorem retainedRemove_retained (held : Held) (amount : ℕ) :
    (held.retainedRemove amount).retained = held.retained - amount := by
  simp only [Held.retainedRemove]
  split <;> omega

theorem updateExit_counts (h : held.Counts others) (exit : Option ProcessExit) :
    (held.updateExit exit).Counts others := by
  have hbytes : (held.process.updateExit exit).retainedBytes = held.process.retainedBytes := by
    unfold Process.updateExit
    split
    · rfl
    · split
      all_goals rfl
  show held.retained = _
  rw [h]
  exact congrArg (· + others) hbytes.symm

/-- A buffer is filled up to its target at most, so an append finds room. -/
theorem bufferAppend_eq {data : List UInt8} (h : held.Counts others)
    (hroom : (held.process.child.output stream).buffer.length + data.length ≤ maxPayloadBytes + bufferSlack) :
    (held.bufferAppend stream data).1 = true ∧
      (held.bufferAppend stream data).2.process = held.process.setOutput stream
        { held.process.child.output stream with
          buffer := (held.process.child.output stream).buffer ++ data } ∧
      (held.bufferAppend stream data).2.Counts others := by
  unfold Held.bufferAppend
  dsimp only
  split
  · rename_i hempty
    obtain rfl := List.length_eq_zero_iff.mp hempty
    refine ⟨rfl, ?_, h⟩
    simp [Process.setOutput]
  rw [if_neg (by omega)]
  refine ⟨rfl, rfl, ?_⟩
  have hbytes := @retainedBytes_setOutput stream held.process
    { held.process.child.output stream with
      buffer := (held.process.child.output stream).buffer ++ data }
  simp only [List.length_append] at hbytes
  simp only [Held.Counts, Held.retainedAdd] at h ⊢
  omega

/-- **A read** does what the shared one does. -/
theorem readStream_eq (htarget : target ≤ maxPayloadBytes + bufferSlack) (h : held.Counts others)
    (answer : Read) :
    (held.readStream stream target answer).1 = (held.process.readStream stream target answer).1 ∧
      (held.readStream stream target answer).2.process = (held.process.readStream stream target answer).2 ∧
      (held.readStream stream target answer).2.Counts others := by
  unfold Held.readStream Process.readStream
  dsimp only
  split
  · exact ⟨rfl, rfl, h⟩
  rename_i hopen
  have hlt : (held.process.child.output stream).buffer.length < target :=
    not_le.mp (not_or.mp hopen).2
  cases hdelivered : held.process.delivered stream answer
      (min (target - (held.process.child.output stream).buffer.length) chunkSize) with
  | error _ => exact ⟨rfl, rfl, h⟩
  | ok delivery =>
    cases delivery with
    | none =>
      refine ⟨rfl, rfl, ?_⟩
      have hbytes := @retainedBytes_setOutput stream held.process
        { held.process.child.output stream with fdOpen := false, eof := true }
      simp only [Held.Counts] at h hbytes ⊢
      omega
    | some bytes =>
      have hle := ((delivered_ok hdelivered).1 bytes rfl).2
      have hroom : (held.process.child.output stream).buffer.length + bytes.length ≤
          maxPayloadBytes + bufferSlack := by omega
      exact @bufferAppend_eq others
        { held with process := { held.process with
          unread := Function.update held.process.unread stream
            ((held.process.unread stream).drop bytes.length) } } stream bytes h hroom

/-- **Reporting a text** does what the shared operation does. -/
theorem emitStream_eq (h : held.Counts others) :
    (held.emitStream stream maxChunkBytes).1 = (held.process.emitStream stream maxChunkBytes).1 ∧
      (held.emitStream stream maxChunkBytes).2.process =
        (held.process.emitStream stream maxChunkBytes).2 ∧
      (held.emitStream stream maxChunkBytes).2.Counts others := by
  unfold Held.emitStream Process.emitStream
  dsimp only
  split
  · exact ⟨rfl, rfl, h⟩
  cases hbegins : Streams.utf8Prefix (held.process.child.output stream).buffer maxChunkBytes
      (held.process.child.output stream).eof with
  | none => exact ⟨rfl, rfl, h⟩
  | some count =>
    dsimp only
    split
    · exact ⟨rfl, rfl, h⟩
    refine ⟨rfl, rfl, ?_⟩
    have hbytes := @retainedBytes_setOutput stream held.process
      { held.process.child.output stream with
        buffer := (held.process.child.output stream).buffer.drop count }
    dsimp only at hbytes
    have hretained : (held.bufferConsume stream count).retained =
        held.retained - min count (held.process.child.output stream).buffer.length :=
      retainedRemove_retained ..
    simp only [List.length_drop] at hbytes
    simp only [Held.Counts] at h
    show (held.bufferConsume stream count).retained =
      (held.bufferConsume stream count).process.retainedBytes + others
    have hprocess : (held.bufferConsume stream count).process = held.process.setOutput stream
        { held.process.child.output stream with
          buffer := (held.process.child.output stream).buffer.drop count } := rfl
    dsimp only at hprocess
    rw [hretained, hprocess]
    omega

theorem retainedBytes_writeStdin (hpending : process.child.stdinPending = true) (more : ℕ) :
    (process.writeStdin (.bytes more)).2.retainedBytes + (process.remaining.take (more + 1)).length =
      process.retainedBytes := by
  have hremaining : process.remaining = process.child.stdinData.drop process.child.stdinOffset := by
    rw [Process.remaining, if_pos hpending]
  have hlength : (process.remaining.take (more + 1)).length ≤
      process.child.stdinData.length - process.child.stdinOffset := by
    rw [hremaining, List.length_take, List.length_drop]
    omega
  unfold Process.writeStdin
  dsimp only
  split
  · rename_i hall
    simp only [Process.retainedBytes, List.length_nil]
    omega
  · simp only [Process.retainedBytes]
    omega

theorem flushStdin_counts (h : held.Counts others) (answer : Write) :
    (held.flushStdin answer).2.Counts others := by
  unfold Held.flushStdin
  dsimp only
  split
  · exact h
  rename_i hnot
  have hpending : held.process.child.stdinPending = true := by simpa using (not_or.mp hnot).2
  split
  · rename_i more
    have hbytes := retainedBytes_writeStdin hpending more
    simp only [Held.Counts, retainedRemove_retained] at h ⊢
    show held.retained - _ = (held.process.writeStdin (.bytes more)).2.retainedBytes + others
    omega
  · exact h
  · simp only [Held.Counts, Process.retainedBytes, retainedRemove_retained] at h ⊢
    simp only [Process.writeStdin, Held.retainedRemove, List.length_nil]
    omega

theorem flushStdin_process (answer : Write) :
    (held.flushStdin answer = (true, held)) ∨
      (held.process.child.stdinPending = true ∧
        (held.flushStdin answer).1 = (held.process.writeStdin answer).1 ∧
        (held.flushStdin answer).2.process = (held.process.writeStdin answer).2) := by
  unfold Held.flushStdin
  dsimp only
  split
  · exact .inl rfl
  rename_i hnot
  refine .inr ⟨by simpa using (not_or.mp hnot).2, ?_⟩
  cases answer with
  | bytes more | again | failed => exact ⟨rfl, rfl⟩

theorem accept_counts {payload : List UInt8} (h : held.Counts others)
    (hunsent : held.process.child.stdinData = []) :
    ({ held with process := held.process.accept payload }.retainedAdd payload.length).Counts others := by
  simp only [Held.Counts, Process.retainedBytes, hunsent, List.length_nil] at h
  simp only [Held.Counts, Process.retainedBytes, Held.retainedAdd, Process.accept]
  omega

theorem release_retained (h : held.Counts others) : held.release.retained = others := by
  simp only [Held.Counts, Process.retainedBytes] at h
  simp only [Held.release]
  split
  · simp only [retainedRemove_retained]
    omega
  · rename_i hnil
    have hdata : held.process.child.stdinData = [] := by simpa using hnil
    simp only [retainedRemove_retained, hdata, List.length_nil] at h ⊢
    omega

theorem retainedBytes_release : held.release.process.retainedBytes = 0 := by
  simp [Held.release, Process.retainedBytes]

end

end Nomo.Processes
