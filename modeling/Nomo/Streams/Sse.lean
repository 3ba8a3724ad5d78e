import Nomo.Streams.Http

/-!
# Decoding server-sent events

`next_sse` (host_http_stream.c:998–1238). A call takes lines from what is pending and waits for more
where no line is complete, until an empty line dispatches an event or the body ends.

The lines of an event count against the limit of the caller. A line that has not come in full is held
against it already: there the bytes of its terminator and a byte order mark count too.
-/

namespace Nomo.Streams

open Nomo.Lib.Scanning

/-- `NOMO_HTTP_STREAM_MAX_EVENT_BYTES`. -/
def maxEventBytes : ℕ := 1024 * 1024

/-- `SseEvent`. -/
structure SseEvent where
  event : List UInt8
  data : List UInt8
  id : List UInt8
  retry : Option ℕ
deriving DecidableEq, Repr

def invalidEventLimit : HttpError where
  code := "invalid_request"
  message := "invalid SSE event limit"

def eventTooLarge : HttpError where
  code := "response_too_large"
  message := "SSE event exceeded its configured limit"

/-! ## Lines -/

/-- A line that ends in a line feed. A carriage return before it would have ended the line already. -/
def lineAtFeed (line : List UInt8) : List UInt8 × ℕ :=
  (if line.getLast? = some carriageReturn then line.dropLast else line, line.length + 1)

/-- A line that ends in a carriage return, by what comes after it: a line feed may still follow. -/
def lineAtReturn (eof : Bool) (line : List UInt8) : List UInt8 → Option (List UInt8 × ℕ)
  | [] => if eof then some (line, line.length + 1) else none
  | next :: _ => some (line, line.length + 1 + if next = lineFeed then 1 else 0)

/-- The loop of `nomo_http_stream_sse_next_line` from the end of a first part without terminators: the
line and the bytes that it takes with its terminator. -/
def nextLineFrom (eof : Bool) : List UInt8 → List UInt8 → Option (List UInt8 × ℕ)
  | line, [] => if eof ∧ 0 < line.length then some (line, line.length) else none
  | line, ch :: rest =>
    if ch = lineFeed then some (lineAtFeed line)
    else if ch = carriageReturn then lineAtReturn eof line rest
    else nextLineFrom eof (line ++ [ch]) rest

/-- `nomo_http_stream_sse_next_line`. -/
def nextLine (pending : List UInt8) (eof : Bool) : Option (List UInt8 × ℕ) :=
  nextLineFrom eof [] pending

/-- The loop of `nomo_http_stream_sse_valid_line`. -/
def validLineFrom (line : List UInt8) (index : ℕ) : Bool :=
  if index < line.length then
    match _hwidth : utf8Width (line.drop index) with
    | .complete width => validLineFrom line (index + width)
    | _ => false
  else true
termination_by line.length - index
decreasing_by
  have hpos := utf8Width_pos _hwidth
  omega

/-- `nomo_http_stream_sse_valid_line`. -/
def validLine (line : List UInt8) : Bool := validLineFrom line 0

/-- The loop of `nomo_http_stream_sse_parse_retry`. -/
def parseRetryFrom : ℕ → List UInt8 → Option ℕ
  | out, [] => some out
  | out, byte :: rest =>
    if byte.toNat < 48 ∨ 57 < byte.toNat then none
    else
      let digit := byte.toNat - 48
      if (2 ^ 64 - 1 - digit) / 10 < out then none else parseRetryFrom (out * 10 + digit) rest

/-- `nomo_http_stream_sse_parse_retry`. -/
def parseRetry (value : List UInt8) : Option ℕ :=
  if value.length = 0 then none else parseRetryFrom 0 value

/-! ## Events -/

namespace Decoder

/-- `nomo_http_stream_sse_pending_within`; buffers of a mebibyte do not overflow their sum. -/
def pendingWithin (decoder : Decoder) (limit : ℕ) : Bool :=
  decoder.data.length + decoder.event.length + decoder.id.length ≤ limit

/-- `nomo_http_stream_sse_dispatch`: the event. -/
def dispatched (decoder : Decoder) : SseEvent where
  event := if decoder.event.length = 0 then ascii "message" else decoder.event
  data := if decoder.data.getLast? = some lineFeed then decoder.data.dropLast else decoder.data
  id := decoder.id
  retry := decoder.retry

/-- `nomo_http_stream_sse_dispatch`: what is kept after it. -/
def afterDispatch (decoder : Decoder) : Decoder :=
  { decoder with data := [], event := [], retry := none, eventBytes := 0 }

/-- The value of a line from its colon on: a space after the colon is left out. -/
def fieldValue : List UInt8 → List UInt8
  | [] => []
  | _ :: value => if value.head? = some space then value.drop 1 else value

/-- A line that is not empty: the part of `next_sse` that takes its field. -/
def takeField (decoder : Decoder) (line : List UInt8) : Decoder :=
  if line.head? = some colon then decoder
  else
    let name := line.takeWhile (· ≠ colon)
    let value := fieldValue (line.dropWhile (· ≠ colon))
    if name = ascii "data" then { decoder with data := decoder.data ++ value ++ [lineFeed] }
    else if name = ascii "event" then { decoder with event := value }
    else if name = ascii "id" then { decoder with id := value }
    else if name = ascii "retry" then
      match parseRetry value with
      | some retry => { decoder with retry := some retry }
      | none => decoder
    else decoder

/-- `"\xef\xbb\xbf"`. -/
def byteOrderMark : List UInt8 := [0xef, 0xbb, 0xbf]

/-- A line of `next_sse`: an error, an event, or neither. -/
def takeLine (limit : ℕ) (decoder : Decoder) (line : List UInt8) :
    Except HttpError (Option SseEvent × Decoder) :=
  if !validLine line then .error notText
  else
    let line := if decoder.firstLine && line.take 3 = byteOrderMark then line.drop 3 else line
    let decoder := { decoder with firstLine := false }
    if line.length = 0 then
      if 0 < decoder.data.length then .ok (some decoder.dispatched, decoder.afterDispatch)
      else .ok (none, { decoder with event := [], retry := none, eventBytes := 0 })
    -- the lines before were within the limit, so the difference does not wrap around
    else if limit - decoder.eventBytes < line.length then .error eventTooLarge
    else .ok (none, takeField { decoder with eventBytes := decoder.eventBytes + line.length } line)

end Decoder

/-! ## The function -/

/-- A round of the loop of `next_sse`. Every error detaches the stream. -/
def nextSseRound (limit : ℕ) (state : HttpStream × List Arrival) :
    Except HttpError ((HttpStream × List Arrival) ⊕ (Option SseEvent × HttpStream × List Arrival)) :=
  let (stream, arrivals) := state
  if !stream.decoder.pendingWithin limit then .error eventTooLarge
  else match nextLine stream.pending stream.eof with
    | some (line, consumed) =>
      match stream.decoder.takeLine limit line with
      | .error error => .error error
      | .ok (event, decoder) =>
        let stream := { stream with pending := stream.pending.drop consumed, decoder := decoder }
        match event with
        | some event => .ok (.inr (some event, stream, arrivals))
        | none => .ok (.inl (stream, arrivals))
    | none =>
      if stream.tooLarge then .error responseTooLarge
      else match stream.failureCode with
        | some code => .error (transportFailed code)
        | none =>
          if stream.eof then
            if 0 < stream.decoder.data.length then
              .ok (.inr (some stream.decoder.dispatched,
                { stream with decoder := stream.decoder.afterDispatch }, arrivals))
            else .ok (.inr (none, stream, arrivals))
          else if limit - stream.decoder.eventBytes < stream.pending.length then .error eventTooLarge
          else .ok (.inl (readMore stream arrivals))

/-- The loop of `next_sse`. -/
def nextSseLoop (limit : ℕ) : HttpStream × List Arrival →
    Except HttpError (Option SseEvent × HttpStream × List Arrival) :=
  iterate work (nextSseRound limit) fun _ => transportFailed "timeout"

/-- `next_sse`. -/
def nextSse (limit : ℕ) (session : Session) : Except HttpError (Option SseEvent) × Session :=
  if limit = 0 ∨ maxEventBytes < limit then (.error invalidEventLimit, session)
  else match session.stream with
    | none => (.error invalidOrClosed, session)
    | some stream =>
      if stream.mode = .text then (.error invalidOrClosed, session)
      else match nextSseLoop limit ({ stream with mode := .sse }, session.arrivals) with
        | .error error => (.error error, .closed)
        | .ok (event, stream, arrivals) => (.ok event, { stream := some stream, arrivals := arrivals })

/-- Calls of `next_sse` with one limit. -/
def nextSses (limit : ℕ) : ℕ → Session → List (Except HttpError (Option SseEvent))
  | 0, _ => []
  | n + 1, session =>
    let (result, session) := nextSse limit session
    result :: nextSses limit n session

/-! ## What lines are complete -/

/-- The bytes of the first line that can be pending while the line is not complete: all of it, and the
carriage return of its terminator. -/
def heldBack : List UInt8 → ℕ
  | [] => 0
  | ch :: rest => if ch = lineFeed then 0 else if ch = carriageReturn then 1 else heldBack rest + 1

variable {line text more seen : List UInt8} {eof : Bool} {result : List UInt8 × ℕ}

theorem nextLineFrom_bounds (h : nextLineFrom eof line text = some result) (hne : line ++ text ≠ []) :
    0 < result.2 ∧ line.length ≤ result.2 ∧ result.2 ≤ line.length + text.length := by
  induction text generalizing line with
  | nil =>
    rw [nextLineFrom] at h
    split_ifs at h with hend
    cases h
    exact ⟨hend.2, le_rfl, le_rfl⟩
  | cons ch rest ih =>
    rw [nextLineFrom] at h
    split_ifs at h with hfeed hreturn
    · cases h
      exact ⟨Nat.succ_pos _, Nat.le_succ _, Nat.add_le_add_left (Nat.succ_pos _) _⟩
    · cases rest with
      | nil =>
        rw [lineAtReturn] at h
        split_ifs at h
        cases h
        exact ⟨Nat.succ_pos _, Nat.le_succ _, le_rfl⟩
      | cons next rest =>
        cases h
        simp only [List.length_cons]
        split_ifs <;> omega
    · obtain ⟨hpos, hle, hle'⟩ := ih h (by simp)
      simp only [List.length_append, List.length_cons, List.length_nil] at hle hle' ⊢
      omega

theorem nextLine_bounds (h : nextLine text eof = some result) :
    0 < result.2 ∧ result.2 ≤ text.length := by
  have hne : text ≠ [] := by
    rintro rfl
    cases eof <;> cases h
  obtain ⟨hpos, -, hle⟩ := nextLineFrom_bounds h (by simpa using hne)
  exact ⟨hpos, by simpa using hle⟩

theorem nextLineFrom_append (h : nextLineFrom false line text = some result) :
    nextLineFrom eof line (text ++ more) = some result := by
  induction text generalizing line with
  | nil => simp [nextLineFrom] at h
  | cons ch rest ih =>
    rw [List.cons_append]
    rw [nextLineFrom] at h ⊢
    split_ifs at h ⊢ with hfeed hreturn
    · exact h
    · cases rest with
      | nil => simp [lineAtReturn] at h
      | cons next rest => exact h
    · exact ih h

/-- A line that ends before the last byte that was seen was complete without that byte's successors. -/
theorem nextLineFrom_of_lt (h : nextLineFrom eof line text = some result) (hseen : seen <+: text)
    (hlt : result.2 < line.length + seen.length) : nextLineFrom false line seen = some result := by
  induction text generalizing line seen with
  | nil =>
    obtain rfl := List.prefix_nil.mp hseen
    rw [nextLineFrom] at h
    split_ifs at h
    cases h
    exact absurd hlt (Nat.lt_irrefl _)
  | cons ch rest ih =>
    cases seen with
    | nil =>
      obtain ⟨-, hle, -⟩ := nextLineFrom_bounds h (by simp)
      simp at hlt
      omega
    | cons ch' seen =>
      obtain ⟨rfl, hrest⟩ := List.cons_prefix_cons.mp hseen
      rw [nextLineFrom] at h ⊢
      split_ifs at h ⊢ with hfeed hreturn
      · exact h
      · cases rest with
        | nil =>
          obtain rfl := List.prefix_nil.mp hrest
          rw [lineAtReturn] at h
          split_ifs at h
          cases h
          simp at hlt
        | cons next rest =>
          cases h
          cases seen with
          | nil =>
            simp only [List.length_cons, List.length_nil] at hlt
            omega
          | cons next' seen =>
            obtain ⟨rfl, -⟩ := List.cons_prefix_cons.mp hrest
            rfl
      · refine ih h hrest ?_
        simp only [List.length_append, List.length_cons, List.length_nil] at hlt ⊢
        omega

theorem nextLineFrom_true_eq_none : nextLineFrom true line text = none ↔ line ++ text = [] := by
  induction text generalizing line with
  | nil =>
    rw [nextLineFrom, List.append_nil]
    simp [List.length_pos_iff]
  | cons ch rest ih =>
    rw [nextLineFrom]
    split_ifs with hfeed hreturn
    · simp
    · cases rest <;> simp [lineAtReturn]
    · rw [ih]
      simp

theorem nextLineFrom_eq_none : nextLineFrom false line text = none ↔ text.length ≤ heldBack text := by
  induction text generalizing line with
  | nil => simp [nextLineFrom, heldBack]
  | cons ch rest ih =>
    rw [nextLineFrom, heldBack]
    split_ifs with hfeed hreturn
    · simp
    · cases rest <;> simp [lineAtReturn]
    · rw [ih, List.length_cons]
      exact Nat.add_le_add_iff_right.symm

theorem length_le_heldBack_iff (hseen : seen <+: text) :
    seen.length ≤ heldBack seen ↔ seen.length ≤ heldBack text := by
  induction text generalizing seen with
  | nil => rw [List.prefix_nil.mp hseen]
  | cons ch rest ih =>
    cases seen with
    | nil => simp
    | cons ch' seen =>
      obtain ⟨rfl, hrest⟩ := List.cons_prefix_cons.mp hseen
      rw [heldBack, heldBack, List.length_cons]
      split_ifs with hfeed hreturn
      · rfl
      · rfl
      · rw [Nat.add_le_add_iff_right, Nat.add_le_add_iff_right, ih hrest]

/-- **What is pending of the first line is not complete exactly as long as the line is held back.** -/
theorem nextLine_eq_none_iff (hseen : seen <+: text) :
    nextLine seen false = none ↔ seen.length ≤ heldBack text := by
  rw [← length_le_heldBack_iff hseen]
  exact nextLineFrom_eq_none

theorem heldBack_le_length (text : List UInt8) : heldBack text ≤ text.length := by
  induction text with
  | nil => exact le_rfl
  | cons ch rest ih =>
    rw [heldBack, List.length_cons]
    split_ifs <;> omega

end Nomo.Streams
