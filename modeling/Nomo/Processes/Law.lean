import Nomo.Processes.Child

/-!
# What the events of a child say

What a child's events are to say of its output and its input (`Law`), as a property of what was shown so
far; and what the parent's state has to do with it (`Sound`): what was reported of a stream, what is
buffered and what is unread are what the child writes, and what has reached its input are the payloads that
were accepted, up to a part of the last one.
-/

namespace Nomo.Processes

open Nomo.Lib
open Nomo.Streams (IsText utf8Prefix)

/-! ## Labels -/

/-- The result of `next_event`. -/
abbrev EventResult := Except ProcessError ProcessEvent

/-- What is shown of a child: a `next_event` that returns, with its limit and what it has written to the
child's input; one that goes on waiting; the other calls; and an exit that the worker has found. -/
inductive Label
  | event (maxChunkBytes : ℕ) (written : List UInt8) (result : EventResult)
  | waits (written : List UInt8)
  | accepted (payload : List UInt8)
  | refused (error : ProcessError)
  | stdinClosed
  | waited
  | terminated
  | cancelled
  | closed
  | exitFound
deriving DecidableEq

/-- The text of a stream that a label reports. -/
def Label.textOf (stream : Stream) : Label → List UInt8
  | .event _ _ (.ok (.text other text)) => if other = stream then text else []
  | _ => []

/-- What a label shows to have reached the child's input. -/
def Label.written : Label → List UInt8
  | .event _ written _ => written
  | .waits written => written
  | _ => []

/-- The payload that a label shows to be accepted. -/
def Label.payload : Label → List (List UInt8)
  | .accepted payload => [payload]
  | _ => []

def Label.isFlush : Label → Bool
  | .event _ _ (.ok .stdinFlushed) => true
  | _ => false

def Label.isExit : Label → Bool
  | .event _ _ (.ok (.exited _)) => true
  | _ => false

section

variable (labels : List Label)

/-- What was reported of a stream. -/
def textsOf (stream : Stream) : List UInt8 := labels.flatMap (Label.textOf stream)

/-- What has reached the child's input. -/
def pipedOf : List UInt8 := labels.flatMap Label.written

/-- The payloads that were accepted. -/
def payloadsOf : List (List UInt8) := labels.flatMap Label.payload

/-- How often it was reported that a payload was flushed. -/
def flushesOf : ℕ := labels.countP Label.isFlush

/-- How often the exit was reported. -/
def exitsOf : ℕ := labels.countP Label.isExit

/-- How many payloads have reached the child's input in full: all, or all but the last. -/
def completedOf : ℕ :=
  if pipedOf labels = (payloadsOf labels).flatten then (payloadsOf labels).length
  else (payloadsOf labels).length - 1

/-- No read of the output has failed. -/
def Clean : Prop := ∀ maxChunkBytes written, .event maxChunkBytes written (.error readFailed) ∉ labels

end

section

variable (past : List Label) (label : Label) (stream : Stream)

@[simp] theorem textsOf_concat :
    textsOf (past ++ [label]) stream = textsOf past stream ++ label.textOf stream := by
  simp [textsOf]

@[simp] theorem pipedOf_concat : pipedOf (past ++ [label]) = pipedOf past ++ label.written := by
  simp [pipedOf]

@[simp] theorem payloadsOf_concat : payloadsOf (past ++ [label]) = payloadsOf past ++ label.payload := by
  simp [payloadsOf]

@[simp] theorem flushesOf_concat :
    flushesOf (past ++ [label]) = flushesOf past + if label.isFlush then 1 else 0 := by
  simp [flushesOf, List.countP_singleton]

@[simp] theorem exitsOf_concat :
    exitsOf (past ++ [label]) = exitsOf past + if label.isExit then 1 else 0 := by
  simp [exitsOf, List.countP_singleton]

end

theorem Clean.of_concat {past : List Label} {label : Label} (h : Clean (past ++ [label])) : Clean past :=
  fun maxChunkBytes written hmem => h maxChunkBytes written (List.mem_append_left _ hmem)

/-! ## The law -/

/-- What an event says, after what was shown before it. -/
def EventLaw (body : Stream → List UInt8) (before : List Label) : Label → Prop
  | .event maxChunkBytes _ (.ok (.text _ text)) => text ≠ [] ∧ IsText text ∧ text.length ≤ maxChunkBytes
  | .event _ written (.ok .stdinFlushed) =>
    pipedOf before ++ written = (payloadsOf before).flatten ∧
      flushesOf before < (payloadsOf before).length
  | .event _ _ (.ok (.exited _)) => ∀ stream, textsOf before stream = body stream
  | _ => True

/-- What is shown of a child that writes these bytes to its output streams. -/
structure Law (body : Stream → List UInt8) (labels : List Label) : Prop where
  /-- The texts of a stream are, together, the beginning of what the child writes to it. -/
  texts : ∀ stream, textsOf labels stream <+: body stream
  /-- What reaches the child's input is the beginning of the accepted payloads, in order and once. -/
  piped : pipedOf labels <+: (payloadsOf labels).flatten
  /-- Each text is a text within its limit; a flush is reported only after all of its payload; the exit is
  reported only when both streams were reported in full. -/
  events : Throughout (EventLaw body) labels
  exits : exitsOf labels ≤ 1
  flushes : flushesOf labels ≤ completedOf labels
  /-- Where no read of the output has failed, each payload that has reached the child's input in full was
  reported as flushed, once. -/
  exact : Clean labels → flushesOf labels = completedOf labels

/-! ## The state -/

/-- What the state of the child's input has to do with the accepted payloads, when so many flushes were
reported, and so many will never be. -/
inductive Input (payloads : List (List UInt8)) (flushes missed : ℕ) (process : Process) : Prop
  | idle : process.child.stdinPending = false → process.piped = payloads.flatten →
      flushes + missed + (if process.child.stdinFlushed then 1 else 0) = payloads.length →
      Input payloads flushes missed process
  | pending (past : List (List UInt8)) : process.child.stdinPending = true →
      process.child.stdinFlushed = false → payloads = past ++ [process.child.stdinData] →
      process.child.stdinOffset < process.child.stdinData.length →
      process.piped = past.flatten ++ process.child.stdinData.take process.child.stdinOffset →
      flushes + missed = past.length → Input payloads flushes missed process
  | failed (past : List (List UInt8)) (last : List UInt8) (count : ℕ) :
      process.child.stdinPending = false → process.child.stdinFlushed = false →
      process.child.stdinClosed = true → payloads = past ++ [last] → count < last.length →
      process.piped = past.flatten ++ last.take count → flushes + missed = past.length →
      Input payloads flushes missed process

/-- What the state has to do with the texts that were reported and the payloads that were accepted. -/
structure Holds (body texts : Stream → List UInt8) (payloads : List (List UInt8)) (flushes missed : ℕ)
    (process : Process) : Prop where
  output : ∀ stream,
    texts stream ++ (process.child.output stream).buffer ++ process.unread stream = body stream
  ended : ∀ stream, (process.child.output stream).eof = true → process.unread stream = []
  unsent : process.child.stdinPending = false → process.child.stdinData = []
  input : Input payloads flushes missed process

/-- What the state has to do with what was shown. -/
structure Sound (body : Stream → List UInt8) (past : List Label) (process : Process) : Prop where
  holds : ∃ missed, Holds body (textsOf past) (payloadsOf past) (flushesOf past) missed process ∧
    (Clean past → missed = 0 ∧ process.child.stdinFlushed = false)
  piped : process.piped = pipedOf past
  exits : exitsOf past = if process.child.exitEmitted then 1 else 0
  events : Throughout (EventLaw body) past

section

variable {body texts : Stream → List UInt8} {payloads : List (List UInt8)} {flushes missed : ℕ}
  {process : Process} {past : List Label}

theorem holds_started : Holds body (textsOf []) [] 0 0 (.started body) where
  output := fun _ => rfl
  ended := nofun
  unsent := fun _ => rfl
  input := .idle rfl rfl rfl

theorem sound_started : Sound body [] (.started body) where
  holds := ⟨0, holds_started, fun _ => ⟨rfl, rfl⟩⟩
  piped := rfl
  exits := rfl
  events := .nil

theorem Input.prefix (h : Input payloads flushes missed process) : process.piped <+: payloads.flatten := by
  cases h with
  | idle _ hpiped => rw [hpiped]
  | pending done _ _ hpayloads _ hpiped | failed done last count _ _ _ hpayloads _ hpiped =>
    rw [hpiped, hpayloads, List.flatten_append, List.flatten_singleton]
    exact (List.prefix_append_right_inj _).mpr (List.take_prefix ..)

theorem part_ne_all {before : List (List UInt8)} {last : List UInt8} {count : ℕ} (h : count < last.length) :
    before.flatten ++ last.take count ≠ (before ++ [last]).flatten := by
  intro heq
  have hlength := congrArg List.length heq
  simp only [List.flatten_append, List.flatten_singleton, List.length_append, List.length_take] at hlength
  omega

theorem Input.completed (h : Input payloads flushes missed process) :
    flushes + missed + (if process.child.stdinFlushed then 1 else 0) =
      if process.piped = payloads.flatten then payloads.length else payloads.length - 1 := by
  cases h with
  | idle _ hpiped hcount => rw [if_pos hpiped, hcount]
  | pending done _ hflushed hpayloads hlt hpiped hcount
      | failed done last count _ hflushed _ hpayloads hlt hpiped hcount =>
    rw [hflushed, hcount, hpiped, hpayloads, if_neg (part_ne_all hlt)]
    simp

theorem Sound.law (h : Sound body past process) : Law body past := by
  obtain ⟨missed, hholds, hclean⟩ := h.holds
  have hcompleted := hholds.input.completed
  rw [h.piped] at hcompleted
  have heq : completedOf past = flushesOf past + missed +
      (if process.child.stdinFlushed then 1 else 0) := hcompleted.symm
  refine ⟨fun stream => ?_, ?_, h.events, ?_, ?_, fun hpast => ?_⟩
  · rw [← hholds.output stream, List.append_assoc]
    exact List.prefix_append ..
  · rw [← h.piped]
    exact hholds.input.prefix
  · rw [h.exits]
    split <;> omega
  · rw [heq]
    omega
  · obtain ⟨hmissed, hflushed⟩ := hclean hpast
    rw [heq, hmissed, hflushed]
    simp

end

end Nomo.Processes
