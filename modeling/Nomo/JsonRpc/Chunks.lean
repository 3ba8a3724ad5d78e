import Nomo.JsonRpc.Decoder

/-!
# The cuts of a stream

How a stream is cut into chunks makes a difference in one place. A line of full length whose carriage
return and newline are in different chunks is refused, because with its carriage return it is longer
than the bytes that may be pending (`Splits`). Any other line that is too long to be pending is too
long in every cut. So the outcome of every other cut is that of reading the stream at once
(`uncut`).
-/

namespace Nomo.JsonRpc

open Nomo.Lib.Framing

variable {document : Document} {limit : ℕ}

/-- A line is a message when it validates without its carriage return. -/
def acceptLine (document : Document) (limit : ℕ) (line : List UInt8) : Except ErrorCode (List UInt8) :=
  if trimReturn line = [] then .error .framing
  else
    match validate document limit (trimReturn line) with
    | .error code => .error code
    | .ok _ => .ok (trimReturn line)

/-- The messages of a stream that begins with pending bytes, and what is left of it. -/
abbrev lines (document : Document) (limit : ℕ) (pending stream : List UInt8) :
    List (List UInt8) × Except ErrorCode (List UInt8) :=
  frames (acceptLine document limit) newline pending stream

/-- The messages, and the pending bytes if they are not too many. -/
def bounded (limit : ℕ) :
    List (List UInt8) × Except ErrorCode (List UInt8) →
      Except ErrorCode (List (List UInt8) × List UInt8)
  | (_, .error code) => .error code
  | (messages, .ok left) => if left.length > limit then .error .limit else .ok (messages, left)

/-- A stream that is not cut. -/
def uncut (document : Document) (limit : ℕ) (pending stream : List UInt8) :
    Except ErrorCode (List (List UInt8) × List UInt8) :=
  bounded limit (lines document limit pending stream)

/-- The outcome of a run: its messages and the pending bytes, or its error. -/
def outcome : List (List UInt8) × Except ErrorCode Decoder →
    Except ErrorCode (List (List UInt8) × List UInt8)
  | (_, .error code) => .error code
  | (messages, .ok decoder) => .ok (messages, decoder.pending)

/-- One of the cuts is between the carriage return and the newline of a line of full length, and all
lines before that one are accepted. -/
def Splits (document : Document) (decoder : Decoder) (chunks : List (List UInt8)) : Prop :=
  ∃ before after messages raw, chunks = before ++ after ∧
    lines document decoder.maxMessageBytes decoder.pending before.flatten =
      (messages, .ok (raw ++ [carriageReturn])) ∧
    raw.length = decoder.maxMessageBytes ∧ after.flatten.head? = some newline

/-! ## One chunk -/

theorem feedLoop_eq {rest line : List UInt8} {messages : List (List UInt8)}
    (h : messages.length + rest.count newline ≤ maxBatchMessages) :
    feedLoop document limit rest line messages =
      (bounded limit (lines document limit line rest)).map fun (accepted, left) =>
        { decoder := { pending := left, maxMessageBytes := limit }
          messages := messages ++ accepted } := by
  induction rest generalizing line messages with
  | nil =>
    rw [feedLoop, lines, frames, bounded]
    split_ifs with hlong
    · rfl
    · simp [Except.map]
  | cons byte rest ih =>
    rw [feedLoop, lines, frames]
    by_cases hbyte : byte = newline
    · subst hbyte
      rw [List.count_cons_self] at h
      rw [if_neg (not_not_intro rfl), if_pos rfl, acceptLine]
      dsimp only
      split_ifs with hraw hbatch
      · rfl
      · omega
      cases validate document limit (trimReturn line) with
      | error code => rfl
      | ok kind =>
        dsimp only
        rw [ih (by rw [List.length_append, List.length_singleton]; omega), lines]
        rcases frames (acceptLine document limit) newline [] rest with ⟨accepted, code | left⟩
        · rfl
        · simp only [bounded]
          split_ifs
          · rfl
          · simp [Except.map]
    · rw [List.count_cons_of_ne hbyte] at h
      rw [if_pos hbyte, if_neg hbyte]
      exact ih h

/-- **One chunk.** -/
theorem feed_eq {decoder : Decoder} (hvalid : decoder.Valid) {chunk : List UInt8}
    (hchunk : WithinLimits chunk) :
    feed document decoder chunk =
      (uncut document decoder.maxMessageBytes decoder.pending chunk).map fun (messages, left) =>
        { decoder := { pending := left, maxMessageBytes := decoder.maxMessageBytes }, messages } := by
  obtain ⟨hlength, hcount⟩ := hchunk
  have hlimit : decoder.maxMessageBytes ≤ maxMessageBytes := (of_decide_eq_true hvalid.limit).2
  have hpending := hvalid.length
  have hcombined : ¬ decoder.pending.length + chunk.length > maxCombinedBytes := by
    simp only [maxCombinedBytes, maxMessageBytes, maxChunkBytes] at *
    omega
  have hrefused : ¬ (!validLimit decoder.maxMessageBytes ∨
      decoder.pending.length > decoder.maxMessageBytes ∨ newline ∈ decoder.pending) := by
    rintro (hlimit | hlong | hmem)
    · rw [hvalid.limit] at hlimit
      cases hlimit
    · omega
    · exact hvalid.newline hmem
  rw [feed, if_neg hrefused, if_neg (by omega), if_neg hcombined, feedLoop_eq, uncut, lines,
    frames_append, frames_of_not_mem [] hvalid.newline]
  · rfl
  · rw [List.count_append, List.count_eq_zero_of_not_mem hvalid.newline]
    simpa using hcount

theorem valid_of_lines {decoder : Decoder} (hvalid : decoder.Valid) {stream left : List UInt8}
    {messages : List (List UInt8)}
    (hlines : lines document decoder.maxMessageBytes decoder.pending stream = (messages, .ok left))
    (hleft : left.length ≤ decoder.maxMessageBytes) :
    Decoder.Valid { pending := left, maxMessageBytes := decoder.maxMessageBytes } :=
  ⟨hvalid.limit, hleft, not_mem_of_frames hvalid.newline hlines⟩

/-! ## Lines that are too long -/

theorem acceptLine_of_long (hlimit : validLimit limit) {line : List UInt8}
    (h : limit < (trimReturn line).length) : acceptLine document limit line = .error .limit := by
  have hne : trimReturn line ≠ [] := by
    rintro hnil
    rw [hnil] at h
    cases h
  rw [acceptLine, if_neg hne, validate, hlimit, if_neg (by decide), if_pos h]

theorem uncut_of_longer (hlimit : validLimit limit) {line : List UInt8} (h : limit + 1 < line.length)
    (stream : List UInt8) : uncut document limit line stream = .error .limit := by
  induction stream generalizing line with
  | nil => rw [uncut, lines, frames, bounded, if_pos (by omega)]
  | cons byte rest ih =>
    rw [uncut, lines, frames]
    split_ifs with hbyte
    · have htrim : limit < (trimReturn line).length := by
        unfold trimReturn
        split_ifs
        · rw [List.length_dropLast]
          omega
        · omega
      rw [acceptLine_of_long hlimit htrim]
      rfl
    · exact ih (by rw [List.length_append, List.length_singleton]; omega)

/-- So is a line that is longer by one byte, unless this is its carriage return. -/
theorem uncut_of_long (hlimit : validLimit limit) {line stream : List UInt8} (h : limit < line.length)
    (hsplit : ∀ raw, line = raw ++ [carriageReturn] → raw.length = limit →
      stream.head? ≠ some newline) :
    uncut document limit line stream = .error .limit := by
  cases stream with
  | nil => rw [uncut, lines, frames, bounded, if_pos h]
  | cons byte rest =>
    rw [uncut, lines, frames]
    split_ifs with hbyte
    · have htrim : limit < (trimReturn line).length := by
        unfold trimReturn
        split_ifs with hreturn
        · have hline : line = line.dropLast ++ [carriageReturn] :=
            (List.dropLast_append_getLast? _ hreturn).symm
          have hdrop : line.dropLast.length ≠ limit := fun hlength =>
            hsplit _ hline hlength (congrArg some hbyte)
          rw [List.length_dropLast] at hdrop ⊢
          omega
        · exact h
      rw [acceptLine_of_long hlimit htrim]
      rfl
    · exact uncut_of_longer hlimit (by rw [List.length_append, List.length_singleton]; omega) rest

/-! ## All chunks -/

theorem uncut_append {pending first left : List UInt8} {messages : List (List UInt8)}
    (h : lines document limit pending first = (messages, .ok left)) (second : List UInt8) :
    uncut document limit pending (first ++ second) =
      (uncut document limit left second).map fun (more, left) => (messages ++ more, left) := by
  rw [uncut, lines, frames_append, show frames _ _ pending first = _ from h, andThen, uncut, lines]
  rcases frames (acceptLine document limit) newline left second with ⟨more, code | left'⟩
  · rfl
  · simp only [bounded]
    split_ifs <;> rfl

theorem uncut_append_of_error {pending first : List UInt8} {messages : List (List UInt8)}
    {code : ErrorCode} (h : lines document limit pending first = (messages, .error code))
    (second : List UInt8) : uncut document limit pending (first ++ second) = .error code := by
  rw [uncut, lines, frames_append, show frames _ _ pending first = _ from h]
  rfl

theorem Splits.cons {decoder : Decoder} (hvalid : decoder.Valid) {chunk : List UInt8}
    {chunks : List (List UInt8)} (h : Splits document decoder (chunk :: chunks)) :
    ∃ messages left, lines document decoder.maxMessageBytes decoder.pending chunk =
        (messages, .ok left) ∧
      Splits document { pending := left, maxMessageBytes := decoder.maxMessageBytes } chunks := by
  obtain ⟨before, after, messages, raw, hchunks, hlines, hraw, hafter⟩ := h
  cases before with
  | nil =>
    -- The pending bytes are no more than a line of full length.
    rw [List.flatten_nil, lines, frames] at hlines
    have hpending : decoder.pending = raw ++ [carriageReturn] :=
      Except.ok.inj (Prod.mk.inj hlines).2
    have hlength := hvalid.length
    rw [hpending, List.length_append, List.length_singleton] at hlength
    omega
  | cons first before =>
    obtain ⟨rfl, rfl⟩ := List.cons.inj hchunks
    rw [List.flatten_cons, lines, frames_append] at hlines
    cases hfirst : frames (acceptLine document decoder.maxMessageBytes) newline decoder.pending chunk with
    | mk accepted ended =>
      rw [hfirst] at hlines
      cases ended with
      | error code => cases hlines
      | ok left =>
        refine ⟨accepted, left, hfirst, before, after,
          (lines document decoder.maxMessageBytes left before.flatten).1, raw, rfl, ?_, hraw, hafter⟩
        exact Prod.ext rfl (Prod.mk.inj hlines).2

theorem Splits.of_lines {decoder : Decoder} {chunk left : List UInt8} {messages : List (List UInt8)}
    {chunks : List (List UInt8)}
    (hlines : lines document decoder.maxMessageBytes decoder.pending chunk = (messages, .ok left))
    (h : Splits document { pending := left, maxMessageBytes := decoder.maxMessageBytes } chunks) :
    Splits document decoder (chunk :: chunks) := by
  obtain ⟨before, after, more, raw, rfl, hmore, hraw, hafter⟩ := h
  refine ⟨chunk :: before, after, messages ++ more, raw, rfl, ?_, hraw, hafter⟩
  rw [List.flatten_cons, lines, frames_append, show frames _ _ decoder.pending chunk = _ from hlines,
    andThen]
  rw [show frames _ _ left before.flatten = _ from hmore]

/-- **The outcome of a run.** -/
theorem outcome_feedAll (document : Document) {decoder : Decoder} (hvalid : decoder.Valid) {chunks : List (List UInt8)}
    (hchunks : ∀ chunk ∈ chunks, WithinLimits chunk) :
    (Splits document decoder chunks → outcome (feedAll document decoder chunks) = .error .limit) ∧
      (¬ Splits document decoder chunks → outcome (feedAll document decoder chunks) =
        uncut document decoder.maxMessageBytes decoder.pending chunks.flatten) := by
  induction chunks generalizing decoder with
  | nil =>
    have hlength := hvalid.length
    constructor
    · rintro ⟨before, after, messages, raw, hchunks, -, -, hafter⟩
      obtain ⟨-, rfl⟩ := List.nil_eq_append_iff.mp hchunks
      cases hafter
    · intro _
      rw [feedAll, outcome, List.flatten_nil, uncut, lines, frames, bounded, if_neg (by omega)]
  | cons chunk chunks ih =>
    obtain ⟨hchunk, hrest⟩ := List.forall_mem_cons.mp hchunks
    have hfeed : feed document decoder chunk = _ := feed_eq hvalid hchunk
    cases hlines : lines document decoder.maxMessageBytes decoder.pending chunk with
    | mk messages ended =>
      rw [uncut, hlines] at hfeed
      cases ended with
      | error code =>
        constructor
        · intro hsplits
          obtain ⟨messages', left, hlines', -⟩ := hsplits.cons hvalid
          cases hlines.symm.trans hlines'
        · intro _
          rw [feedAll, hfeed, List.flatten_cons, uncut_append_of_error hlines]
          rfl
      | ok left =>
        by_cases hlong : left.length > decoder.maxMessageBytes
        · rw [bounded, if_pos hlong] at hfeed
          have hfed : outcome (feedAll document decoder (chunk :: chunks)) = .error .limit := by
            rw [feedAll, hfeed]
            rfl
          refine ⟨fun _ => hfed, fun hsplits => ?_⟩
          rw [hfed, List.flatten_cons, uncut_append hlines, uncut_of_long hvalid.limit hlong]
          · rfl
          · rintro raw rfl hraw hhead
            exact hsplits ⟨[chunk], chunks, messages, raw, rfl, by simpa using hlines, hraw, hhead⟩
        · rw [bounded, if_neg hlong] at hfeed
          obtain ⟨hsplit, hwhole⟩ := ih (valid_of_lines hvalid hlines (by omega)) hrest
          have hfed : outcome (feedAll document decoder (chunk :: chunks)) =
              (outcome (feedAll document { pending := left
                                           maxMessageBytes := decoder.maxMessageBytes } chunks)).map
                fun (more, left) => (messages ++ more, left) := by
            rw [feedAll, hfeed]
            simp only [Except.map]
            rcases feedAll document _ chunks with ⟨more, code | ended⟩ <;> rfl
          constructor
          · intro hsplits
            obtain ⟨messages', left', hlines', hsplits'⟩ := hsplits.cons hvalid
            cases hlines.symm.trans hlines'
            rw [hfed, hsplit hsplits']
            rfl
          · intro hsplits
            rw [hfed, hwhole fun hsplits' => hsplits (.of_lines hlines hsplits'), List.flatten_cons,
              uncut_append hlines]

/-- The messages of a run, also of one that fails, are the first messages of the stream. -/
theorem feedAll_of_start (document : Document) {decoder : Decoder} (hvalid : decoder.Valid) {chunks : List (List UInt8)}
    (hchunks : ∀ chunk ∈ chunks, WithinLimits chunk) :
    (feedAll document decoder chunks).1 <+:
      (lines document decoder.maxMessageBytes decoder.pending chunks.flatten).1 := by
  induction chunks generalizing decoder with
  | nil => exact List.nil_prefix
  | cons chunk chunks ih =>
    obtain ⟨hchunk, hrest⟩ := List.forall_mem_cons.mp hchunks
    have hfeed : feed document decoder chunk = _ := feed_eq hvalid hchunk
    cases hlines : lines document decoder.maxMessageBytes decoder.pending chunk with
    | mk messages ended =>
      rw [uncut, hlines] at hfeed
      cases ended with
      | error code =>
        rw [feedAll, hfeed]
        exact List.nil_prefix
      | ok left =>
        by_cases hlong : left.length > decoder.maxMessageBytes
        · rw [bounded, if_pos hlong] at hfeed
          rw [feedAll, hfeed]
          exact List.nil_prefix
        · rw [bounded, if_neg hlong] at hfeed
          rw [feedAll, hfeed, List.flatten_cons, lines, frames_append,
            show frames _ _ decoder.pending chunk = _ from hlines]
          exact (List.prefix_append_right_inj messages).mpr
            (ih (valid_of_lines hvalid hlines (by omega)) hrest)

/-- A message of 30 bytes. -/
def sampleMessage : List UInt8 := "\x7b\"jsonrpc\":\"2.0\",\"method\":\"m\"\x7d".toUTF8.toList

/-- A document function that knows the message. -/
def sampleDocument : Document := fun raw =>
  if raw = sampleMessage then .ok .notification else .error .json

/-- A decoder of messages of 30 bytes. -/
def sampleDecoder : Decoder := { pending := [], maxMessageBytes := 30 }

theorem sampleDecoder_valid : sampleDecoder.Valid :=
  valid_decoder (show decoder 30 = .ok sampleDecoder from rfl)

theorem feedAll_lineBreak :
    (∀ chunk ∈ [sampleMessage, [newline], sampleMessage ++ [newline],
        sampleMessage ++ [carriageReturn], sampleMessage ++ [carriageReturn, newline]],
      WithinLimits chunk) ∧
    outcome (feedAll sampleDocument sampleDecoder
      [sampleMessage ++ [carriageReturn], [newline]]) = .error .limit ∧
    outcome (feedAll sampleDocument sampleDecoder
      [sampleMessage ++ [carriageReturn, newline]]) = .ok ([sampleMessage], []) := by
  unfold WithinLimits
  decide +kernel

end Nomo.JsonRpc
