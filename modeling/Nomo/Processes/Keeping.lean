import Nomo.Processes.Law

/-!
# The steps of an event keep the law

Both implementations put a `next_event` together from the same steps: the exit is looked up, the child's
input is written, its output is read, and a text, a flush or the exit is reported. Within an event the
state is as its labels say, but for the bytes that the event has written so far (`During`). Each step keeps that,
and the end of the event shows a label after which the state is sound again.
-/

namespace Nomo.Processes

open Nomo.Lib
open Nomo.Streams (IsText utf8Prefix utf8Prefix_some)

/-! ## Steps that leave the input alone -/

/-- Two states have the same input, and say the same about the exit event. -/
structure SameInput (process other : Process) : Prop where
  pending : other.child.stdinPending = process.child.stdinPending
  flushed : other.child.stdinFlushed = process.child.stdinFlushed
  closed : other.child.stdinClosed = process.child.stdinClosed
  data : other.child.stdinData = process.child.stdinData
  offset : other.child.stdinOffset = process.child.stdinOffset
  piped : other.piped = process.piped
  exitEmitted : other.child.exitEmitted = process.child.exitEmitted

section

variable {body texts : Stream → List UInt8} {payloads : List (List UInt8)} {flushes missed : ℕ}
  {process other : Process} {past : List Label} {written : List UInt8} {stream : Stream}

theorem SameInput.refl (process : Process) : SameInput process process := ⟨rfl, rfl, rfl, rfl, rfl, rfl, rfl⟩

theorem Input.same (h : Input payloads flushes missed process) (hsame : SameInput process other) :
    Input payloads flushes missed other := by
  obtain ⟨hpending, hflushed, hclosed, hdata, hoffset, hpiped, -⟩ := hsame
  cases h with
  | idle h hall hcount => exact .idle (hpending ▸ h) (hpiped ▸ hall) (hflushed ▸ hcount)
  | pending before h hnot hpayloads hlt hpart hcount =>
    refine .pending before (hpending ▸ h) (hflushed ▸ hnot) ?_ ?_ ?_ hcount
    · rw [hdata, hpayloads]
    · rwa [hdata, hoffset]
    · rw [hdata, hoffset, hpiped, hpart]
  | failed before last count h hnot hended hpayloads hlt hpart hcount =>
    exact .failed before last count (hpending ▸ h) (hflushed ▸ hnot) (hclosed ▸ hended) hpayloads hlt
      (hpiped ▸ hpart) hcount

theorem sameInput_updateExit (exit : Option ProcessExit) :
    SameInput process (process.updateExit exit) := by
  unfold Process.updateExit
  split
  · exact .refl process
  · split
    · exact .refl process
    · exact ⟨rfl, rfl, rfl, rfl, rfl, rfl, rfl⟩

theorem sameInput_readStream (target : ℕ) (answer : Read) :
    SameInput process (process.readStream stream target answer).2 := by
  simp only [Process.readStream]
  split
  · exact .refl process
  · split
    · exact .refl process
    all_goals exact ⟨rfl, rfl, rfl, rfl, rfl, rfl, rfl⟩

/-! ## What is reported, buffered and unread -/

/-- What was reported of a stream, what is buffered and what is unread are what the child writes. -/
def Conserved (body texts : Stream → List UInt8) (process : Process) : Prop :=
  ∀ stream, texts stream ++ (process.child.output stream).buffer ++ process.unread stream = body stream ∧
    ((process.child.output stream).eof = true → process.unread stream = [])

theorem Holds.conserved (h : Holds body texts payloads flushes missed process) :
    Conserved body texts process :=
  fun stream => ⟨h.output stream, h.ended stream⟩

theorem Holds.same (h : Holds body texts payloads flushes missed process) (hsame : SameInput process other)
    (hconserved : Conserved body texts other) : Holds body texts payloads flushes missed other where
  output := fun stream => (hconserved stream).1
  ended := fun stream => (hconserved stream).2
  unsent := fun hidle => hsame.data.trans (h.unsent (hsame.pending ▸ hidle))
  input := h.input.same hsame

theorem Conserved.updateExit (h : Conserved body texts process) (exit : Option ProcessExit) :
    Conserved body texts (process.updateExit exit) := by
  unfold Process.updateExit
  split
  · exact h
  · split
    all_goals exact h

/-- What a read brings is the beginning of what is unread, and it brings the end where nothing is. -/
theorem delivered_ok {answer : Read} {available : ℕ} {delivery : Option (List UInt8)}
    (h : process.delivered stream answer available = .ok delivery) :
    (∀ bytes, delivery = some bytes → bytes <+: process.unread stream ∧ bytes.length ≤ available) ∧
      (delivery = none → process.unread stream = []) := by
  cases answer with
  | bytes more =>
    cases h
    refine ⟨?_, nofun⟩
    rintro bytes ⟨⟩
    refine ⟨List.take_prefix .., ?_⟩
    rw [List.length_take]
    omega
  | again =>
    cases h
    refine ⟨?_, nofun⟩
    rintro bytes ⟨⟩
    exact ⟨List.nil_prefix, Nat.zero_le _⟩
  | ended =>
    simp only [Process.delivered] at h
    split at h
    · rename_i hunread
      cases h
      exact ⟨nofun, fun _ => hunread⟩
    · cases h
      refine ⟨?_, nofun⟩
      rintro bytes ⟨⟩
      exact ⟨List.nil_prefix, Nat.zero_le _⟩
  | failed => cases h

theorem Conserved.readStream (h : Conserved body texts process) (target : ℕ) (answer : Read) :
    Conserved body texts (process.readStream stream target answer).2 := by
  simp only [Process.readStream]
  split
  · exact h
  split
  · exact h
  · rename_i hdelivered
    have hunread := (delivered_ok hdelivered).2 rfl
    intro other
    by_cases hother : other = stream
    · subst hother
      refine ⟨?_, fun _ => hunread⟩
      simpa [Process.setOutput] using (h other).1
    · simpa [Process.setOutput, hother] using h other
  · rename_i bytes hdelivered
    obtain ⟨rest, hrest⟩ := ((delivered_ok hdelivered).1 bytes rfl).1
    intro other
    by_cases hother : other = stream
    · subst hother
      have hdrop : (process.unread other).drop bytes.length = rest := by
        rw [← hrest, List.drop_left]
      constructor
      · simp only [Process.setOutput, Function.update_self, hdrop]
        rw [← (h other).1, ← hrest]
        simp only [List.append_assoc]
      · intro heof
        simp only [Process.setOutput, Function.update_self] at heof ⊢
        rw [(h other).2 heof, List.drop_nil]
    · simpa [Process.setOutput, hother] using h other

/-! ## Reporting a text -/

theorem emitStream_text {maxChunkBytes : ℕ} {reported : Stream} {text : List UInt8}
    (h : process.emitStream stream maxChunkBytes = (.text reported text, other)) :
    reported = stream ∧ text ≠ [] ∧ IsText text ∧ text.length ≤ maxChunkBytes ∧
      text ++ (other.child.output stream).buffer = (process.child.output stream).buffer ∧
      other = { process with child := { process.child with
        output := Function.update process.child.output stream
          { process.child.output stream with buffer := (other.child.output stream).buffer }
        preferStderr := stream = .stdout } } := by
  simp only [Process.emitStream] at h
  split at h
  · cases h
  split at h
  · cases h
  rename_i count hbegins
  split at h
  · cases h
  rename_i hcount
  obtain ⟨hle, hlength, htext⟩ := utf8Prefix_some hbegins
  cases h
  have htaken : (List.take count (process.child.output stream).buffer).length = count := by
    rw [List.length_take]
    omega
  refine ⟨rfl, fun hnil => hcount ?_, htext, by omega, ?_, ?_⟩
  · rw [← htaken, hnil, List.length_nil]
  all_goals simp [Process.setOutput]

theorem emitStream_other {maxChunkBytes : ℕ}
    (h : process.emitStream stream maxChunkBytes = (.nothing, other) ∨
      process.emitStream stream maxChunkBytes = (.broken, other)) : other = process := by
  simp only [Process.emitStream] at h
  split at h
  · rcases h with h | h
    · cases h
      rfl
    · cases h
  split at h
  · rcases h with h | h
    · cases h
    · cases h
      rfl
  split at h
  · rcases h with h | h
    · cases h
      rfl
    · cases h
  · rcases h with h | h
    all_goals cases h

theorem emitEither_cases (maxChunkBytes : ℕ) : ∃ stream,
    process.emitEither maxChunkBytes = process.emitStream stream maxChunkBytes := by
  unfold Process.emitEither
  generalize (if process.child.preferStderr then Stream.stderr else .stdout) = first
  dsimp only
  split
  · exact ⟨first.other, rfl⟩
  · exact ⟨first, rfl⟩

/-! ## Within an event -/

/-- The state within an event, which may have written more to the child's input than was shown. -/
structure During (body : Stream → List UInt8) (past : List Label) (process : Process) : Prop where
  holds : ∃ missed, Holds body (textsOf past) (payloadsOf past) (flushesOf past) missed process ∧
    (Clean past → missed = 0)
  piped : pipedOf past <+: process.piped
  unreported : process.child.exitEmitted = false
  exits : exitsOf past = 0
  events : Throughout (EventLaw body) past

/-- No flush is to be reported, as far as no read has failed. -/
def Unflushed (past : List Label) (process : Process) : Prop :=
  Clean past → process.child.stdinFlushed = false

theorem Sound.during (h : Sound body past process) (hunreported : process.child.exitEmitted = false) :
    During body past process ∧ Unflushed past process := by
  obtain ⟨missed, hholds, hclean⟩ := h.holds
  refine ⟨⟨⟨missed, hholds, fun hpast => (hclean hpast).1⟩, ?_, hunreported, ?_, h.events⟩,
    fun hpast => (hclean hpast).2⟩
  · rw [h.piped]
  · rw [h.exits, hunreported]
    rfl

theorem During.same (h : During body past process) (hsame : SameInput process other)
    (hconserved : Conserved body (textsOf past) other) : During body past other := by
  obtain ⟨missed, hholds, hclean⟩ := h.holds
  refine ⟨⟨missed, hholds.same hsame hconserved, hclean⟩, ?_, ?_, h.exits, h.events⟩
  · rw [hsame.piped]
    exact h.piped
  · rw [hsame.exitEmitted, h.unreported]

theorem Unflushed.same (h : Unflushed past process) (hsame : SameInput process other) :
    Unflushed past other :=
  fun hpast => hsame.flushed.trans (h hpast)

theorem During.conserved (h : During body past process) :
    Conserved body (textsOf past) process := by
  obtain ⟨missed, hholds, -⟩ := h.holds
  exact hholds.conserved

theorem During.updateExit (h : During body past process) (exit : Option ProcessExit) :
    During body past (process.updateExit exit) :=
  h.same (sameInput_updateExit exit) (h.conserved.updateExit exit)

theorem During.readStream (h : During body past process) (target : ℕ) (answer : Read) :
    During body past (process.readStream stream target answer).2 :=
  h.same (sameInput_readStream target answer) (h.conserved.readStream target answer)

/-! ## Writing the input -/

theorem writeStdin_input {answer : Write} (h : Input payloads flushes missed process)
    (hpending : process.child.stdinPending = true) :
    Input payloads flushes missed (process.writeStdin answer).2 := by
  cases h with
  | idle hnot | failed before last count hnot => rw [hpending] at hnot; cases hnot
  | pending before _ hnot hpayloads hlt hpart hcount =>
    cases answer with
    | again => exact .pending before hpending hnot hpayloads hlt hpart hcount
    | failed =>
      exact .failed before process.child.stdinData process.child.stdinOffset rfl hnot rfl hpayloads hlt hpart hcount
    | bytes more =>
      simp only [Process.writeStdin, Process.remaining, if_pos hpending]
      generalize hwritten : (process.child.stdinData.drop process.child.stdinOffset).take (more + 1) = written
      have hpartial : process.child.stdinData.take process.child.stdinOffset ++ written =
          process.child.stdinData.take (process.child.stdinOffset + written.length) := by
        rw [List.take_add, ← hwritten, List.length_take, ← List.take_eq_take_min]
      have hle : process.child.stdinOffset + written.length ≤ process.child.stdinData.length := by
        rw [← hwritten, List.length_take, List.length_drop]
        omega
      split
      · rename_i hall
        refine .idle rfl ?_ ?_
        · show process.piped ++ written = payloads.flatten
          rw [hpart, hpayloads, List.append_assoc, hpartial, hall, List.take_length]
          simp
        · rw [hpayloads, List.length_append]
          exact congrArg (· + 1) hcount
      · rename_i hpartly
        refine .pending before hpending hnot hpayloads (lt_of_le_of_ne hle hpartly) ?_ hcount
        show process.piped ++ written = _
        rw [hpart, List.append_assoc, hpartial]

theorem writeStdin_piped (answer : Write) : process.piped <+: (process.writeStdin answer).2.piped := by
  cases answer with
  | bytes more => exact List.prefix_append ..
  | again | failed => exact List.prefix_rfl

theorem writeStdin_output (answer : Write) :
    (process.writeStdin answer).2.child.output = process.child.output ∧
      (process.writeStdin answer).2.unread = process.unread ∧
      (process.writeStdin answer).2.child.exitEmitted = process.child.exitEmitted := by
  cases answer with
  | bytes more =>
    unfold Process.writeStdin
    dsimp only
    split
    all_goals exact ⟨rfl, rfl, rfl⟩
  | again | failed => exact ⟨rfl, rfl, rfl⟩

theorem writeStdin_unsent {answer : Write} (hpending : process.child.stdinPending = true) :
    (process.writeStdin answer).2.child.stdinPending = false →
      (process.writeStdin answer).2.child.stdinData = [] := by
  cases answer with
  | bytes more =>
    unfold Process.writeStdin
    dsimp only
    split
    · exact fun _ => rfl
    · intro hidle
      rw [hpending] at hidle
      cases hidle
  | again =>
    intro hidle
    have hnot : process.child.stdinPending = false := hidle
    rw [hpending] at hnot
    cases hnot
  | failed => exact fun _ => rfl

theorem During.writeStdin (h : During body past process) (hpending : process.child.stdinPending = true)
    (answer : Write) : During body past (process.writeStdin answer).2 := by
  obtain ⟨missed, hholds, hclean⟩ := h.holds
  obtain ⟨houtput, hunread, hemitted⟩ := writeStdin_output answer
  refine ⟨⟨missed, ⟨?_, ?_, writeStdin_unsent hpending, writeStdin_input hholds.input hpending⟩, hclean⟩,
    h.piped.trans (writeStdin_piped answer), hemitted.trans h.unreported, h.exits, h.events⟩
  · rw [houtput, hunread]
    exact hholds.output
  · rw [houtput, hunread]
    exact hholds.ended

theorem writeStdin_failed {answer : Write} (hholds : Input payloads flushes missed process)
    (hpending : process.child.stdinPending = true) (h : (process.writeStdin answer).1 = false) :
    (process.writeStdin answer).2.child.stdinFlushed = false := by
  cases answer with
  | bytes more | again => cases h
  | failed =>
    cases hholds with
    | idle hnot | failed before last count hnot => rw [hpending] at hnot; cases hnot
    | pending before _ hnot => exact hnot

/-! ## The end of an event -/

/-- A label that reports nothing of the child and accepts nothing. -/
def Label.Silent : Label → Prop
  | .event _ _ (.ok _) => False
  | .accepted _ => False
  | _ => True

theorem silent_label {label : Label} (h : label.Silent) :
    (∀ stream, label.textOf stream = []) ∧ label.payload = [] ∧ label.isFlush = false ∧
      label.isExit = false ∧ ∀ past, EventLaw body past label := by
  match label, h with
  | .event _ _ (.error _), _ => exact ⟨fun _ => rfl, rfl, rfl, rfl, fun _ => trivial⟩
  | .waits _, _ => exact ⟨fun _ => rfl, rfl, rfl, rfl, fun _ => trivial⟩
  | .refused _, _ => exact ⟨fun _ => rfl, rfl, rfl, rfl, fun _ => trivial⟩
  | .stdinClosed, _ => exact ⟨fun _ => rfl, rfl, rfl, rfl, fun _ => trivial⟩
  | .waited, _ => exact ⟨fun _ => rfl, rfl, rfl, rfl, fun _ => trivial⟩
  | .terminated, _ => exact ⟨fun _ => rfl, rfl, rfl, rfl, fun _ => trivial⟩
  | .cancelled, _ => exact ⟨fun _ => rfl, rfl, rfl, rfl, fun _ => trivial⟩
  | .closed, _ => exact ⟨fun _ => rfl, rfl, rfl, rfl, fun _ => trivial⟩
  | .exitFound, _ => exact ⟨fun _ => rfl, rfl, rfl, rfl, fun _ => trivial⟩

theorem textsOf_silent {label : Label} (h : label.Silent) : textsOf (past ++ [label]) = textsOf past := by
  funext stream
  rw [textsOf_concat, (@silent_label (fun _ => []) _ h).1 stream, List.append_nil]

/-- The end of an event, after which the state is sound: its label shows what the event has written. -/
def Ends (body : Stream → List UInt8) (past : List Label) (label : List UInt8 → Label) (process : Process) :
    Prop :=
  ∃ written, process.piped = pipedOf past ++ written ∧ Sound body (past ++ [label written]) process

/-- The result of an event, with its limit. -/
def Label.ending (maxChunkBytes : ℕ) (result : EventResult) (written : List UInt8) : Label :=
  .event maxChunkBytes written result

/-- A part of an event: it goes on within the event, or the event ends. -/
def Continues (body : Stream → List UInt8) (past : List Label) (maxChunkBytes : ℕ) :
    Option EventResult → Process → Prop
  | none, process => During body past process
  | some result, process => Ends body past (Label.ending maxChunkBytes result) process

theorem During.silent {label : Label} (h : During body past process)
    (hpiped : process.piped = pipedOf past ++ label.written) (hsilent : label.Silent)
    (hflushed : Clean (past ++ [label]) → process.child.stdinFlushed = false) :
    Sound body (past ++ [label]) process := by
  obtain ⟨missed, hholds, hclean⟩ := h.holds
  obtain ⟨-, hpayload, hflush, hexit, hlaw⟩ := @silent_label body _ hsilent
  refine ⟨⟨missed, ?_, fun hall => ⟨hclean hall.of_concat, hflushed hall⟩⟩, ?_, ?_, ?_⟩
  · rw [textsOf_silent hsilent, payloadsOf_concat, hpayload, List.append_nil, flushesOf_concat, hflush]
    exact hholds
  · rw [pipedOf_concat, hpiped]
  · rw [exitsOf_concat, hexit, h.exits, h.unreported]
    rfl
  · exact Throughout.concat_iff.mpr ⟨h.events, hlaw past⟩

theorem During.waits (h : During body past process) (hflushed : Unflushed past process) :
    Ends body past .waits process := by
  obtain ⟨written, hpiped⟩ := h.piped
  exact ⟨written, hpiped.symm, h.silent hpiped.symm trivial fun hpast => hflushed hpast.of_concat⟩

theorem During.error {maxChunkBytes : ℕ} {error : ProcessError} (h : During body past process)
    (hflushed : error ≠ readFailed → Unflushed past process) :
    Ends body past (Label.ending maxChunkBytes (.error error)) process := by
  obtain ⟨written, hpiped⟩ := h.piped
  refine ⟨written, hpiped.symm, h.silent hpiped.symm trivial fun hpast => hflushed ?_ hpast.of_concat⟩
  rintro rfl
  exact hpast maxChunkBytes written (List.mem_append_right _ (List.mem_singleton.mpr rfl))

theorem During.flush {maxChunkBytes : ℕ} (h : During body past process)
    (hflushed : process.child.stdinFlushed = true) :
    Ends body past (Label.ending maxChunkBytes (.ok .stdinFlushed))
      { process with child := { process.child with stdinFlushed := false } } := by
  obtain ⟨missed, hholds, hclean⟩ := h.holds
  obtain ⟨written, hpiped⟩ := h.piped
  cases hholds.input with
  | pending before _ hnot | failed before last count _ hnot => rw [hflushed] at hnot; cases hnot
  | idle hidle hall hcount =>
    rw [hflushed, if_pos rfl] at hcount
    have hlt : flushesOf past < (payloadsOf past).length := by omega
    refine ⟨written, hpiped.symm, ⟨missed, ⟨?_, hholds.ended, hholds.unsent, .idle hidle ?_ ?_⟩,
      fun hpast => ⟨hclean hpast.of_concat, rfl⟩⟩, ?_, ?_, ?_⟩
    · simpa [Label.ending, Label.textOf] using hholds.output
    · simpa [Label.ending, Label.payload] using hall
    · simp only [Label.ending, flushesOf_concat, payloadsOf_concat, Label.isFlush, Label.payload,
        List.append_nil, if_true, Bool.false_eq_true, if_false]
      omega
    · rw [pipedOf_concat]
      exact hpiped.symm
    · rw [exitsOf_concat, h.exits, h.unreported]
      rfl
    · refine Throughout.concat_iff.mpr ⟨h.events, ?_, hlt⟩
      rw [hpiped, hall]

theorem During.text {maxChunkBytes : ℕ} {reported : Stream} {text : List UInt8}
    (h : During body past process) (hflushed : Unflushed past process)
    (hemit : process.emitStream stream maxChunkBytes = (.text reported text, other)) :
    Ends body past (Label.ending maxChunkBytes (.ok (.text reported text))) other := by
  obtain ⟨missed, hholds, hclean⟩ := h.holds
  obtain ⟨written, hpiped⟩ := h.piped
  obtain ⟨rfl, hne, htext, hle, hbuffer, hother⟩ := emitStream_text hemit
  have hsame : SameInput process other := by
    rw [hother]
    exact ⟨rfl, rfl, rfl, rfl, rfl, rfl, rfl⟩
  have hunread : other.unread = process.unread := by rw [hother]
  refine ⟨written, by rw [hsame.piped, hpiped], ⟨missed, ⟨fun stream => ?_, fun stream => ?_, ?_, ?_⟩,
    fun hpast => ⟨hclean hpast.of_concat, ?_⟩⟩, ?_, ?_, ?_⟩
  · rw [textsOf_concat, ← hholds.output stream, hunread, Label.ending]
    by_cases hstream : reported = stream
    · subst hstream
      rw [Label.textOf, if_pos rfl, ← hbuffer]
      simp only [List.append_assoc]
    · rw [Label.textOf, if_neg hstream, List.append_nil, hother]
      simp [Ne.symm hstream]
  · rw [hunread]
    intro hended
    refine hholds.ended stream ?_
    by_cases hstream : stream = reported
    · subst hstream
      rw [hother] at hended
      simpa using hended
    · rw [hother] at hended
      simpa [hstream] using hended
  · exact fun hidle => hsame.data.trans (hholds.unsent (hsame.pending ▸ hidle))
  · simpa [Label.ending, Label.payload, Label.isFlush] using hholds.input.same hsame
  · exact hflushed.same hsame hpast.of_concat
  · rw [pipedOf_concat, hsame.piped]
    exact hpiped.symm
  · rw [exitsOf_concat, h.exits, hsame.exitEmitted, h.unreported]
    rfl
  · exact Throughout.concat_iff.mpr ⟨h.events, hne, htext, hle⟩

theorem During.exit {maxChunkBytes : ℕ} (h : During body past process) (hflushed : Unflushed past process)
    (hdue : process.exitDue = true) :
    Ends body past (Label.ending maxChunkBytes (.ok (.exited process.child.exitInfo)))
      { process with child := { process.child with exitEmitted := true } } := by
  obtain ⟨missed, hholds, hclean⟩ := h.holds
  obtain ⟨written, hpiped⟩ := h.piped
  have hall : ∀ stream, textsOf past stream = body stream := by
    simp only [Process.exitDue, Bool.and_eq_true, decide_eq_true_eq, List.length_eq_zero_iff] at hdue
    obtain ⟨⟨⟨⟨-, hout⟩, herr⟩, houtEmpty⟩, herrEmpty⟩ := hdue
    intro stream
    rw [← hholds.output stream]
    cases stream with
    | stdout => rw [houtEmpty, hholds.ended _ hout, List.append_nil, List.append_nil]
    | stderr => rw [herrEmpty, hholds.ended _ herr, List.append_nil, List.append_nil]
  have hsame : Input (payloadsOf past) (flushesOf past) missed
      { process with child := { process.child with exitEmitted := true } } := by
    cases hholds.input with
    | idle h1 h2 h3 => exact .idle h1 h2 h3
    | pending before h1 h2 h3 h4 h5 h6 => exact .pending before h1 h2 h3 h4 h5 h6
    | failed before last count h1 h2 h3 h4 h5 h6 h7 =>
      exact .failed before last count h1 h2 h3 h4 h5 h6 h7
  refine ⟨written, hpiped.symm, ⟨missed, ⟨?_, hholds.ended, hholds.unsent, ?_⟩,
    fun hpast => ⟨hclean hpast.of_concat, ?_⟩⟩, ?_, ?_, ?_⟩
  · simpa [Label.ending, Label.textOf] using hholds.output
  · simpa [Label.ending, Label.payload, Label.isFlush] using hsame
  · exact hflushed hpast.of_concat
  · rw [pipedOf_concat]
    exact hpiped.symm
  · rw [exitsOf_concat, h.exits]
    rfl
  · exact Throughout.concat_iff.mpr ⟨h.events, hall⟩

theorem Ends.sound {label : List UInt8 → Label} (h : Ends body past label other)
    (hstart : process.piped = pipedOf past) :
    Sound body (past ++ [label (other.piped.drop process.piped.length)]) other := by
  obtain ⟨written, hpiped, hsound⟩ := h
  rwa [hpiped, hstart, List.drop_left]

/-! ## Between events -/

theorem Sound.accept {payload : List UInt8} (h : Sound body past process) (hidle : process.child.stdinPending = false)
    (hopen : process.child.stdinClosed = false) (hne : payload ≠ []) :
    Sound body (past ++ [.accepted payload]) (process.accept payload) := by
  obtain ⟨missed, hholds, hclean⟩ := h.holds
  cases hholds.input with
  | pending before hpending => rw [hidle] at hpending; cases hpending
  | failed before last count _ _ hclosed => rw [hopen] at hclosed; cases hclosed
  | idle _ hall hcount =>
    -- a flush that was not reported before is never reported
    refine ⟨⟨missed + (if process.child.stdinFlushed then 1 else 0), ⟨?_, hholds.ended, nofun,
      .pending (payloadsOf past) rfl rfl ?_ (List.length_pos_iff.mpr hne) ?_ ?_⟩, fun hpast => ⟨?_, rfl⟩⟩,
      ?_, ?_, ?_⟩
    · simpa [Label.textOf, Process.accept] using hholds.output
    · simp [Label.payload, Process.accept]
    · simpa [Process.accept] using hall
    · simpa [Label.isFlush, add_assoc] using hcount
    · obtain ⟨hmissed, hflushed⟩ := hclean hpast.of_concat
      rw [hmissed, hflushed]
      rfl
    · show process.piped = _
      rw [pipedOf_concat, h.piped]
      exact (List.append_nil _).symm
    · show _ = if process.child.exitEmitted then 1 else 0
      rw [exitsOf_concat, h.exits]
      rfl
    · exact Throughout.concat_iff.mpr ⟨h.events, trivial⟩

theorem Sound.conserved (h : Sound body past process) : Conserved body (textsOf past) process := by
  obtain ⟨missed, hholds, -⟩ := h.holds
  exact hholds.conserved

theorem Sound.unsent (h : Sound body past process) (hidle : process.child.stdinPending = false) :
    process.child.stdinData = [] := by
  obtain ⟨missed, hholds, -⟩ := h.holds
  exact hholds.unsent hidle

theorem Sound.same (h : Sound body past process) (hsame : SameInput process other)
    (hconserved : Conserved body (textsOf past) other) : Sound body past other := by
  obtain ⟨missed, hholds, hclean⟩ := h.holds
  refine ⟨⟨missed, hholds.same hsame hconserved, fun hpast => ?_⟩, ?_, ?_, h.events⟩
  · rw [hsame.flushed]
    exact hclean hpast
  · rw [hsame.piped, h.piped]
  · rw [hsame.exitEmitted, h.exits]

theorem Sound.updateExit (h : Sound body past process) (exit : Option ProcessExit) :
    Sound body past (process.updateExit exit) :=
  h.same (sameInput_updateExit exit) (h.conserved.updateExit exit)

theorem Sound.unchanged {label : Label} (h : Sound body past process) (hsilent : label.Silent)
    (hwritten : label.written = []) : Sound body (past ++ [label]) process := by
  obtain ⟨missed, hholds, hclean⟩ := h.holds
  obtain ⟨-, hpayload, hflush, hexit, hlaw⟩ := @silent_label body _ hsilent
  refine ⟨⟨missed, ?_, fun hpast => hclean hpast.of_concat⟩, ?_, ?_, ?_⟩
  · rw [textsOf_silent hsilent, payloadsOf_concat, hpayload, List.append_nil, flushesOf_concat, hflush]
    exact hholds
  · rw [pipedOf_concat, hwritten, List.append_nil, h.piped]
  · rw [exitsOf_concat, hexit, h.exits]
    rfl
  · exact Throughout.concat_iff.mpr ⟨h.events, hlaw past⟩

theorem Sound.closeStdin (h : Sound body past process) (hidle : process.child.stdinPending = false) :
    Sound body (past ++ [.stdinClosed]) process.closeStdin := by
  unfold Process.closeStdin
  split
  · exact h.unchanged trivial rfl
  have hshown := @Sound.unchanged _ _ _ .stdinClosed h trivial rfl
  obtain ⟨missed, hholds, hclean⟩ := hshown.holds
  refine ⟨⟨missed, ⟨hholds.output, hholds.ended, hholds.unsent, ?_⟩, hclean⟩, hshown.piped, hshown.exits,
    hshown.events⟩
  cases hholds.input with
  | idle h1 h2 h3 => exact .idle h1 h2 h3
  | pending before hpending => rw [hidle] at hpending; cases hpending
  | failed before last count h1 h2 h3 h4 h5 h6 h7 => exact .failed before last count h1 h2 rfl h4 h5 h6 h7

end

end Nomo.Processes
