import Nomo.JsonRpc.Chunks
import Nomo.JsonRpc.Envelope

/-!
# Messages on a stream

What one side encodes, the decoder of the other side gives back
(`nomo_wasm/src/jsonrpc.rs:133–140, 253–265`).
-/

namespace Nomo.JsonRpc

open Nomo.Lib.Framing

/-- `validate` past the length and the line breaks, with `map_json_error`. -/
def Wasm.document : Document := fun raw =>
  match Json.Wasm.parse raw with
  | .error error => .error (if error.code = .limit then .limit else .json)
  | .ok node => Wasm.validateEnvelope node

/-- `encode`. -/
def encode (raw : List UInt8) (limit : ℕ) : Except ErrorCode (List UInt8) :=
  match validate Wasm.document limit raw with
  | .error code => .error code
  | .ok _ => .ok (raw ++ [newline])

variable {limit : ℕ}

/-- An encoded message is a line that the decoder accepts. -/
theorem encode_ok {raw line : List UInt8} (h : encode raw limit = .ok line) :
    line = raw ++ [newline] ∧ newline ∉ raw ∧ carriageReturn ∉ raw ∧
      acceptLine Wasm.document limit raw = .ok raw := by
  unfold encode at h
  cases hraw : validate Wasm.document limit raw with
  | error code =>
    rw [hraw] at h
    cases h
  | ok k =>
    rw [hraw] at h
    have hdocument := hraw
    unfold validate at hdocument
    split_ifs at hdocument with _ _ hbreaks
    obtain ⟨hnewline, hreturn⟩ := not_or.mp hbreaks
    have hne : raw ≠ [] := by
      rintro rfl
      cases hdocument
    have htrim : trimReturn raw = raw :=
      if_neg fun hlast => hreturn (List.mem_of_getLast? hlast)
    refine ⟨(Except.ok.inj h).symm, hnewline, hreturn, ?_⟩
    rw [acceptLine, htrim, if_neg hne, hraw]

theorem lines_encoded {raws encoded : List (List UInt8)}
    (h : List.Forall₂ (fun raw line => encode raw limit = .ok line) raws encoded) :
    carriageReturn ∉ encoded.flatten ∧
      lines Wasm.document limit [] encoded.flatten = (raws, .ok []) := by
  induction h with
  | nil => exact ⟨List.not_mem_nil, rfl⟩
  | cons hraw _ ih =>
    obtain ⟨rfl, hnewline, hreturn, haccept⟩ := encode_ok hraw
    constructor
    · simp [hreturn, ih.1, show carriageReturn ≠ newline by decide]
    · rw [List.flatten_cons, List.append_assoc, lines, frames_append, frames_of_not_mem [] hnewline]
      simp only [andThen, List.nil_append, List.singleton_append, frames, if_true, haccept]
      rw [show frames _ _ [] _ = _ from ih.2]

/-- **From the encoder to the decoder.** Messages that are encoded with a limit come out of a new
decoder with this limit as they went in, however the stream is cut, and nothing is left of it. -/
theorem feedAll_encoded {made : Decoder} {raws encoded chunks : List (List UInt8)}
    (hdecoder : decoder limit = .ok made)
    (hencoded : List.Forall₂ (fun raw line => encode raw limit = .ok line) raws encoded)
    (hchunks : ∀ chunk ∈ chunks, WithinLimits chunk) (hstream : chunks.flatten = encoded.flatten) :
    outcome (feedAll Wasm.document made chunks) = .ok (raws, []) := by
  have hvalid := valid_decoder hdecoder
  unfold decoder at hdecoder
  split_ifs at hdecoder
  cases hdecoder
  obtain ⟨hreturn, hlines⟩ := lines_encoded hencoded
  rw [← hstream] at hreturn hlines
  rw [(outcome_feedAll Wasm.document hvalid hchunks).2, uncut, hlines]
  · rfl
  rintro ⟨before, after, messages, raw, rfl, hpending, -⟩
  -- No carriage return can be pending, as there is none in the stream.
  refine forall_mem_of_frames (List.forall_mem_nil (· ≠ carriageReturn)) ?_ hpending carriageReturn
    (by simp) rfl
  rintro byte hbyte - rfl
  exact hreturn (List.flatten_append ▸ List.mem_append_left _ hbyte)

/-- A message in two chunks. -/
theorem feedAll_encoded_cut :
    outcome (feedAll Wasm.document sampleDecoder [sampleMessage, [newline]]) =
      .ok ([sampleMessage], []) :=
  feedAll_encoded (show decoder 30 = .ok sampleDecoder from rfl)
    (.cons (show encode sampleMessage 30 = .ok (sampleMessage ++ [newline]) by decide +kernel) .nil)
    (by unfold WithinLimits; decide +kernel) (by simp)

end Nomo.JsonRpc
