import Nomo.Lib.Scanning
import Nomo.Streams.Utf8

/-!
# HTTP response streams

The state of an open response (host_http_stream.c:13–52) and how more of its body comes in
(`nomo_http_stream_read_more`, :425–457 and :799–858).

The transport is a list of arrivals, one for every time the stream waits for it. It may hand over a
chunk, and say with it or later that the body has ended; it may fail; where nothing is left to arrive it
is silent until the idle timeout.
-/

namespace Nomo.Streams

open Nomo.Lib.Scanning

/-! ## Bytes -/

def lineFeed : UInt8 := 10
def carriageReturn : UInt8 := 13
def space : UInt8 := 32
def colon : UInt8 := 58

/-- The bytes of an ASCII text. -/
def ascii (text : String) : List UInt8 := text.toList.map fun c => UInt8.ofNat c.toNat

/-! ## Streams -/

/-- `HttpError`. -/
structure HttpError where
  code : String
  message : String
deriving DecidableEq, Repr

/-- What a call of the transport brings. -/
inductive Arrival
  | chunk (data : List UInt8) (last : Bool)
  | finished
  | failed (code : String)
deriving DecidableEq, Repr

/-- `mode`: what a stream has been read as. -/
inductive Mode
  | unread
  | text
  | sse
deriving DecidableEq, Repr

/-- What has been decoded of the events of a stream: the fields `sse_*`. -/
structure Decoder where
  data : List UInt8
  event : List UInt8
  id : List UInt8
  firstLine : Bool
  retry : Option ℕ
  eventBytes : ℕ
deriving DecidableEq, Repr

/-- `nomo_http_stream_state`. -/
structure HttpStream where
  maxResponseBytes : ℕ
  responseBytes : ℕ
  mode : Mode
  eof : Bool
  tooLarge : Bool
  failureCode : Option String
  pending : List UInt8
  decoder : Decoder
deriving DecidableEq, Repr

/-- The decoder of a stream that was just opened. -/
def Decoder.start : Decoder where
  data := []
  event := []
  id := []
  firstLine := true
  retry := none
  eventBytes := 0

/-- A stream that was just opened. The transport may have said already that there is no body. -/
def HttpStream.opened (maxResponseBytes : ℕ) (eof : Bool) : HttpStream where
  maxResponseBytes := maxResponseBytes
  responseBytes := 0
  mode := .unread
  eof := eof
  tooLarge := false
  failureCode := none
  pending := []
  decoder := .start

/-- A stream by its handle, closed if it was detached, and what the transport will bring. -/
structure Session where
  stream : Option HttpStream
  arrivals : List Arrival
deriving DecidableEq, Repr

/-- A stream that is closed; the transport is torn down with it. -/
def Session.closed : Session where
  stream := none
  arrivals := []

/-! ## Errors -/

/-- `nomo_http_error_message_for_code` (host_http_client.c:389–395). -/
def errorMessageForCode (code : String) : String :=
  if code = "dns" then "HTTP host resolution failed"
  else if code = "connect" then "HTTP connection failed"
  else if code = "tls" then "HTTPS certificate or handshake failed"
  else if code = "timeout" then "HTTP request timed out"
  else "HTTP transport failed"

/-- `nomo_http_stream_failure_message`. -/
def failureMessage (code : String) : String :=
  if code = "invalid_request" then "invalid bounded HTTP stream request"
  else if code = "runtime_unavailable" then
    "the native HTTP streaming runtime is unavailable on this host"
  else if code = "response_too_large" then "HTTP response exceeded its configured limit"
  else if code = "protocol" then "HTTP response stream was not valid UTF-8 text"
  else errorMessageForCode code

def invalidOrClosed : HttpError where
  code := "invalid_request"
  message := "invalid or closed HTTP stream"

def notText : HttpError where
  code := "protocol"
  message := "HTTP response stream was not valid UTF-8 text"

def responseTooLarge : HttpError where
  code := "response_too_large"
  message := "HTTP response exceeded its configured limit"

/-- The error of a transport that failed. -/
def transportFailed (code : String) : HttpError where
  code := code
  message := failureMessage code

/-! ## Waiting for the transport -/

/-- `nomo_http_stream_read_more`. -/
def readMore (stream : HttpStream) (arrivals : List Arrival) : HttpStream × List Arrival :=
  if stream.eof || stream.failureCode.isSome || stream.tooLarge then (stream, arrivals)
  else match arrivals with
    | [] => ({ stream with failureCode := some "timeout" }, [])
    | .chunk data last :: arrivals =>
      -- the transfer is given up before the bytes are kept
      if stream.maxResponseBytes - stream.responseBytes < data.length then
        ({ stream with tooLarge := true }, arrivals)
      else
        ({ stream with
            responseBytes := stream.responseBytes + data.length
            pending := stream.pending ++ data
            eof := last }, arrivals)
    | .finished :: arrivals => ({ stream with eof := true }, arrivals)
    | .failed code :: arrivals => ({ stream with failureCode := some code }, arrivals)

@[simp] theorem mode_readMore (stream : HttpStream) (arrivals : List Arrival) :
    (readMore stream arrivals).1.mode = stream.mode := by
  unfold readMore
  split_ifs
  · rfl
  split
  · rfl
  · split_ifs <;> rfl
  all_goals rfl

@[simp] theorem decoder_readMore (stream : HttpStream) (arrivals : List Arrival) :
    (readMore stream arrivals).1.decoder = stream.decoder := by
  unfold readMore
  split_ifs
  · rfl
  split
  · rfl
  · split_ifs <;> rfl
  all_goals rfl

/-- How often a stream may still wait. -/
def waits (stream : HttpStream) (arrivals : List Arrival) : ℕ :=
  if stream.eof || stream.failureCode.isSome || stream.tooLarge then 0 else arrivals.length + 1

/-- The bytes of the chunks that have not come yet. -/
def arriving : List Arrival → ℕ
  | [] => 0
  | .chunk data _ :: arrivals => data.length + arriving arrivals
  | _ :: arrivals => arriving arrivals

/-- What makes the loops over a stream end: bytes that are taken, and times to wait. -/
def work (state : HttpStream × List Arrival) : ℕ :=
  state.1.pending.length + arriving state.2 + waits state.1 state.2

theorem work_readMore {stream : HttpStream} {arrivals : List Arrival} (heof : stream.eof = false)
    (hfailure : stream.failureCode = none) (htooLarge : stream.tooLarge = false) :
    work (readMore stream arrivals) < work (stream, arrivals) := by
  cases arrivals with
  | nil => simp [readMore, work, waits, heof, hfailure, htooLarge]
  | cons arrival arrivals =>
    cases arrival with
    | chunk data last =>
      simp only [readMore, work, waits, heof, hfailure, htooLarge, arriving, Option.isSome_none,
        Bool.or_self, Bool.false_eq_true, if_false, List.length_cons]
      split_ifs <;> simp_all <;> omega
    | finished | failed code => simp [readMore, work, waits, heof, hfailure, htooLarge, arriving]

/-! ## Bodies -/

/-- The transport delivers a body in chunks that are not empty. It tells the end with the last chunk or
after it. -/
inductive Delivers : Bool → List Arrival → List UInt8 → Prop
  | ended {arrivals : List Arrival} : Delivers true arrivals []
  | finished {arrivals : List Arrival} : Delivers false (.finished :: arrivals) []
  | chunk {data body : List UInt8} {last : Bool} {arrivals : List Arrival} : data ≠ [] →
      Delivers last arrivals body → Delivers false (.chunk data last :: arrivals) (data ++ body)

/-- A stream in good order with what is left of its body: some of it is pending and the rest will come. -/
structure Holds (state : HttpStream × List Arrival) (rest : List UInt8) : Prop where
  tooLarge : state.1.tooLarge = false
  failureCode : state.1.failureCode = none
  /-- What is still to come. -/
  coming : ∃ coming, rest = state.1.pending ++ coming ∧ Delivers state.1.eof state.2 coming ∧
    state.1.responseBytes + coming.length ≤ state.1.maxResponseBytes

theorem holds_opened {maxResponseBytes : ℕ} {eof : Bool} {arrivals : List Arrival} {body : List UInt8}
    (hbody : Delivers eof arrivals body) (hmax : body.length ≤ maxResponseBytes) :
    Holds (HttpStream.opened maxResponseBytes eof, arrivals) body where
  tooLarge := rfl
  failureCode := rfl
  coming := ⟨body, rfl, hbody, by rwa [HttpStream.opened, Nat.zero_add]⟩

namespace Holds

variable {state : HttpStream × List Arrival} {rest : List UInt8}

theorem pending_eq (h : Holds state rest) (heof : state.1.eof = true) : state.1.pending = rest := by
  obtain ⟨coming, rfl, hcoming, -⟩ := h.coming
  rw [heof] at hcoming
  cases hcoming
  exact (List.append_nil _).symm

theorem readMore (h : Holds state rest) (heof : state.1.eof = false) :
    Holds (readMore state.1 state.2) rest := by
  obtain ⟨stream, arrivals⟩ := state
  obtain ⟨coming, rfl, hcoming, hmax⟩ := h.coming
  have hstop : (stream.eof || stream.failureCode.isSome || stream.tooLarge) = false := by
    rw [show stream.eof = false from heof, show stream.failureCode = none from h.failureCode,
      show stream.tooLarge = false from h.tooLarge]
    rfl
  unfold Streams.readMore
  rw [if_neg (by rw [hstop]; exact Bool.false_ne_true)]
  rw [show stream.eof = false from heof] at hcoming
  cases hcoming with
  | finished =>
    exact ⟨h.tooLarge, h.failureCode, [], rfl, .ended, hmax⟩
  | @chunk data body last arrivals hne hbody =>
    rw [List.length_append] at hmax
    have hfits : ¬ stream.maxResponseBytes - stream.responseBytes < data.length := by
      show ¬ stream.maxResponseBytes - stream.responseBytes < data.length
      dsimp only at hmax
      omega
    simp only [if_neg hfits]
    refine ⟨h.tooLarge, h.failureCode, body, ?_, hbody, ?_⟩
    · exact (List.append_assoc _ _ _).symm
    · show stream.responseBytes + data.length + body.length ≤ stream.maxResponseBytes
      dsimp only at hmax
      omega

theorem consume (h : Holds state rest) {n : ℕ} (hn : n ≤ state.1.pending.length) {mode : Mode}
    {decoder : Decoder} :
    Holds ({ state.1 with mode := mode, pending := state.1.pending.drop n, decoder := decoder }, state.2)
      (rest.drop n) := by
  obtain ⟨coming, rfl, hcoming, hmax⟩ := h.coming
  exact ⟨h.tooLarge, h.failureCode, coming, List.drop_append_of_le_length hn, hcoming, hmax⟩

end Holds

end Nomo.Streams
