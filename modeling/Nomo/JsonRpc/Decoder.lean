import Nomo.Lib.Framing

/-!
# The JSON-RPC decoder

`nomo_wasm/src/jsonrpc.rs:1–125` and `nomo_codegen_c/src/runtime/host_jsonrpc.c:321–432`, which take
the same steps. A decoder is fed chunks of a stream. It joins a chunk to the bytes that are pending,
validates every complete line and keeps the rest. A line ends in a newline, before which a carriage
return does not count.

What a message must be beyond its length and its line breaks is `document`: the JSON text with the
JSON-RPC envelope. The decoder hands every line to it and does nothing else with its answer.
-/

namespace Nomo.JsonRpc

def maxMessageBytes : ℕ := 1048575
def maxChunkBytes : ℕ := 1048576
def maxCombinedBytes : ℕ := 2097151
def maxBatchMessages : ℕ := 4096

/-- The byte of a newline. -/
def newline : UInt8 := 10

/-- The byte of a carriage return. -/
def carriageReturn : UInt8 := 13

/-- The codes of `ProtocolError`. -/
inductive ErrorCode
  | limit
  | framing
  | json
  | protocol
  | invalidRequest
deriving DecidableEq

/-- The message of `ProtocolError::new`. -/
def ErrorCode.message : ErrorCode → String
  | .limit => "JSON-RPC limit exceeded"
  | .framing => "invalid JSON-RPC newline framing"
  | .json => "invalid bounded JSON input"
  | .protocol => "invalid JSON-RPC 2.0 envelope"
  | .invalidRequest => "invalid JSON-RPC argument"

/-- `MessageKind`. -/
inductive MessageKind
  | request
  | notification
  | success
  | error
deriving DecidableEq

/-- What the text of a message is: its JSON and its envelope. -/
abbrev Document := List UInt8 → Except ErrorCode MessageKind

/-- `Decoder`. -/
structure Decoder where
  pending : List UInt8
  maxMessageBytes : ℕ
deriving DecidableEq

/-- `DecodeBatch`. -/
structure DecodeBatch where
  decoder : Decoder
  messages : List (List UInt8)
deriving DecidableEq

/-- `valid_limit`. -/
def validLimit (limit : ℕ) : Bool := decide (1 ≤ limit ∧ limit ≤ maxMessageBytes)

/-- `decoder`. -/
def decoder (maxMessageBytes : ℕ) : Except ErrorCode Decoder :=
  if validLimit maxMessageBytes then .ok { pending := [], maxMessageBytes } else .error .invalidRequest

/-- `validate`. -/
def validate (document : Document) (limit : ℕ) (raw : List UInt8) : Except ErrorCode MessageKind :=
  if !validLimit limit then .error .invalidRequest
  else if raw.length > limit then .error .limit
  else if newline ∈ raw ∨ carriageReturn ∈ raw then .error .framing
  else document raw

/-- A line without the carriage return at its end. -/
def trimReturn (line : List UInt8) : List UInt8 :=
  if line.getLast? = some carriageReturn then line.dropLast else line

/-- The loop of `feed` over the bytes that are left, with the line they go on with and the messages
before it. -/
def feedLoop (document : Document) (limit : ℕ) :
    List UInt8 → List UInt8 → List (List UInt8) → Except ErrorCode DecodeBatch
  | [], line, messages =>
    if line.length > limit then .error .limit
    else .ok { decoder := { pending := line, maxMessageBytes := limit }, messages }
  | byte :: rest, line, messages =>
    if byte ≠ newline then feedLoop document limit rest (line ++ [byte]) messages
    else
      let raw := trimReturn line
      if raw = [] then .error .framing
      else if messages.length ≥ maxBatchMessages then .error .limit
      else
        match validate document limit raw with
        | .error code => .error code
        | .ok _ => feedLoop document limit rest [] (messages ++ [raw])

/-- `feed`. -/
def feed (document : Document) (decoder : Decoder) (chunk : List UInt8) :
    Except ErrorCode DecodeBatch :=
  if !validLimit decoder.maxMessageBytes ∨ decoder.pending.length > decoder.maxMessageBytes ∨
      newline ∈ decoder.pending then .error .invalidRequest
  else if chunk.length > maxChunkBytes then .error .limit
  else if decoder.pending.length + chunk.length > maxCombinedBytes then .error .limit
  else feedLoop document decoder.maxMessageBytes (decoder.pending ++ chunk) [] []

/-- Chunks are fed one after the other until one is refused: the messages of the batches, and the
decoder or the refusal. -/
def feedAll (document : Document) (decoder : Decoder) :
    List (List UInt8) → List (List UInt8) × Except ErrorCode Decoder
  | [] => ([], .ok decoder)
  | chunk :: chunks =>
    match feed document decoder chunk with
    | .error code => ([], .error code)
    | .ok batch =>
      let (messages, ended) := feedAll document batch.decoder chunks
      (batch.messages ++ messages, ended)

/-- What a decoder that `decoder` or `feed` made satisfies. -/
structure Decoder.Valid (decoder : Decoder) : Prop where
  limit : validLimit decoder.maxMessageBytes
  length : decoder.pending.length ≤ decoder.maxMessageBytes
  newline : newline ∉ decoder.pending

/-- A chunk is within the limits of one call of `feed`. -/
def WithinLimits (chunk : List UInt8) : Prop :=
  chunk.length ≤ maxChunkBytes ∧ chunk.count newline ≤ maxBatchMessages

theorem valid_decoder {limit : ℕ} {made : Decoder} (h : decoder limit = .ok made) : made.Valid := by
  unfold decoder at h
  split_ifs at h with hlimit
  cases h
  exact ⟨hlimit, Nat.zero_le _, List.not_mem_nil⟩

end Nomo.JsonRpc
