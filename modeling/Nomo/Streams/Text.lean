import Nomo.Streams.Http

/-!
# Reading a response as text

`read_text` (host_http_stream.c:927–996): each call returns a piece of the body that ends with a whole
character and is no longer than the caller allows.

A run of calls with limits between four bytes and a mebibyte returns the body piece by piece up to its
end, and fails only on a body that is no text (`reassembles`). A larger limit is refused before the
stream is looked at (`large_limit_refused`).
-/

namespace Nomo.Streams

open Nomo.Lib.Scanning

/-! ## The function -/

/-- `NOMO_HTTP_STREAM_MAX_CHUNK_BYTES`. -/
def maxChunkBytes : ℕ := 1024 * 1024

def invalidChunkLimit : HttpError where
  code := "invalid_request"
  message := "invalid HTTP stream chunk limit"

/-- `HttpStreamChunk`. -/
structure HttpStreamChunk where
  data : List UInt8
  done : Bool
deriving DecidableEq, Repr

/-- A round of the loop of `read_text`. Every error detaches the stream. -/
def readTextRound (limit : ℕ) (state : HttpStream × List Arrival) :
    Except HttpError ((HttpStream × List Arrival) ⊕ (HttpStreamChunk × HttpStream × List Arrival)) :=
  let (stream, arrivals) := state
  match utf8Prefix stream.pending limit stream.eof with
  | none => .error notText
  | some n =>
    if 0 < n then
      .ok (.inr ({ data := stream.pending.take n, done := false },
        { stream with pending := stream.pending.drop n }, arrivals))
    else if stream.tooLarge then .error responseTooLarge
    else match stream.failureCode with
      | some code => .error (transportFailed code)
      | none =>
        if stream.eof then .ok (.inr ({ data := [], done := true }, stream, arrivals))
        else .ok (.inl (readMore stream arrivals))

/-- `read_text`. -/
def readText (limit : ℕ) (session : Session) : Except HttpError HttpStreamChunk × Session :=
  if limit < 4 ∨ maxChunkBytes < limit then (.error invalidChunkLimit, session)
  else match session.stream with
    | none => (.error invalidOrClosed, session)
    | some stream =>
      if stream.mode = .sse then (.error invalidOrClosed, session)
      else match iterate work (readTextRound limit) (fun _ => transportFailed "timeout")
          ({ stream with mode := .text }, session.arrivals) with
        | .error error => (.error error, .closed)
        | .ok (chunk, stream, arrivals) => (.ok chunk, { stream := some stream, arrivals := arrivals })

/-- Calls of `read_text` with one limit after the other. -/
def readTexts : List ℕ → Session → List (Except HttpError HttpStreamChunk)
  | [], _ => []
  | limit :: limits, session =>
    let (result, session) := readText limit session
    result :: readTexts limits session

/-! ## A call -/

/-- What a call returns of the rest of a body, and what it leaves. -/
inductive TextStep (limit : ℕ) (rest : List UInt8) :
    Except HttpError HttpStreamChunk × Session → Prop
  | broken : ¬ IsText rest → TextStep limit rest (.error notText, .closed)
  | piece {n : ℕ} {stream : HttpStream} {arrivals : List Arrival} : 0 < n → n ≤ limit →
      n ≤ rest.length → IsText (rest.take n) → stream.mode = .text →
      Holds (stream, arrivals) (rest.drop n) →
      TextStep limit rest (.ok { data := rest.take n, done := false },
        { stream := some stream, arrivals := arrivals })
  | done {stream : HttpStream} {arrivals : List Arrival} : rest = [] → stream.mode = .text →
      Holds (stream, arrivals) rest →
      TextStep limit rest (.ok { data := [], done := true },
        { stream := some stream, arrivals := arrivals })

variable {limit : ℕ} {rest : List UInt8} {stream : HttpStream} {arrivals : List Arrival}

theorem not_isText_of_prefix_none (h : Holds (stream, arrivals) rest)
    (hbegins : utf8Prefix stream.pending limit stream.eof = none) : ¬ IsText rest := by
  obtain ⟨coming, rfl, hcoming, -⟩ := h.coming
  obtain ⟨text, broken, hpending, htext, hbroken⟩ := utf8Prefix_none hbegins
  intro hrest
  have hsplit : stream.pending ++ coming = text ++ (broken ++ coming) := by
    rw [hpending, List.append_assoc]
  rw [show (stream, arrivals).1.pending ++ coming = text ++ (broken ++ coming) from hsplit] at hrest
  refine hbroken.not_isText ?_ (htext.of_append hrest)
  intro heof
  rw [show (stream, arrivals).1.eof = true from heof] at hcoming
  cases hcoming
  rfl

theorem readTextRound_cases (hlimit : 4 ≤ limit) (h : Holds (stream, arrivals) rest) :
    (readTextRound limit (stream, arrivals) = .error notText ∧ ¬ IsText rest) ∨
    (∃ n, 0 < n ∧ n ≤ limit ∧ n ≤ stream.pending.length ∧ IsText (stream.pending.take n) ∧
      readTextRound limit (stream, arrivals) =
        .ok (.inr ({ data := stream.pending.take n, done := false },
          { stream with pending := stream.pending.drop n }, arrivals))) ∨
    (rest = [] ∧ readTextRound limit (stream, arrivals) =
      .ok (.inr ({ data := [], done := true }, stream, arrivals))) ∨
    (stream.eof = false ∧
      readTextRound limit (stream, arrivals) = .ok (.inl (readMore stream arrivals))) := by
  have htooLarge : stream.tooLarge = false := h.tooLarge
  have hfailure : stream.failureCode = none := h.failureCode
  cases hbegins : utf8Prefix stream.pending limit stream.eof with
  | none =>
    refine .inl ⟨?_, not_isText_of_prefix_none h hbegins⟩
    simp only [readTextRound, hbegins]
  | some n =>
    right
    obtain ⟨hle, hlength, htext⟩ := utf8Prefix_some hbegins
    by_cases hn : 0 < n
    · refine .inl ⟨n, hn, hle, hlength, htext, ?_⟩
      simp only [readTextRound, hbegins, if_pos hn]
    right
    obtain rfl : n = 0 := by omega
    have hround : readTextRound limit (stream, arrivals) =
        if stream.eof then .ok (.inr ({ data := [], done := true }, stream, arrivals))
        else .ok (.inl (readMore stream arrivals)) := by
      simp only [readTextRound, hbegins, htooLarge, hfailure, lt_irrefl, if_false, Bool.false_eq_true]
    by_cases heof : stream.eof = true
    · -- at the end an empty prefix means that nothing is pending
      left
      have hpending : stream.pending = [] := by
        rcases utf8Prefix_zero hlimit hbegins with hnil | ⟨-, hopen⟩
        · exact hnil
        · rw [heof] at hopen
          cases hopen
      constructor
      · rw [← h.pending_eq heof]
        exact hpending
      · rw [hround, if_pos heof]
    · right
      exact ⟨by simpa using heof, by rw [hround, if_neg heof]⟩

/-- What the end of the loop makes of a session. -/
def textResult : Except HttpError (HttpStreamChunk × HttpStream × List Arrival) →
    Except HttpError HttpStreamChunk × Session
  | .error error => (.error error, .closed)
  | .ok (chunk, stream, arrivals) => (.ok chunk, { stream := some stream, arrivals := arrivals })

theorem readText_of_valid (hlimit : 4 ≤ limit) (hmax : limit ≤ maxChunkBytes)
    (hmode : stream.mode ≠ .sse) :
    readText limit { stream := some stream, arrivals := arrivals } =
      textResult (iterate work (readTextRound limit) (fun _ => transportFailed "timeout")
        ({ stream with mode := .text }, arrivals)) := by
  simp only [readText]
  rw [if_neg (by omega), if_neg hmode]
  rfl

theorem textStep_iterate (hlimit : 4 ≤ limit) (hmode : stream.mode = .text)
    (h : Holds (stream, arrivals) rest) :
    TextStep limit rest (textResult
      (iterate work (readTextRound limit) (fun _ => transportFailed "timeout") (stream, arrivals))) := by
  refine iterate_ends (fun state => state.1.mode = .text ∧ Holds state rest)
    (fun result => TextStep limit rest (textResult result)) ?_ ?_ ?_ ⟨hmode, h⟩
  · rintro ⟨stream, arrivals⟩ next ⟨hmode, h⟩ hstep
    rcases readTextRound_cases hlimit h with ⟨hround, -⟩ | ⟨n, -, -, -, -, hround⟩ | ⟨-, hround⟩ |
      ⟨heof, hround⟩ <;> rw [hround] at hstep <;> cases hstep
    refine ⟨⟨?_, h.readMore heof⟩, work_readMore heof h.failureCode h.tooLarge⟩
    rw [mode_readMore]
    exact hmode
  · rintro ⟨stream, arrivals⟩ error ⟨hmode, h⟩ hstep
    rcases readTextRound_cases hlimit h with ⟨hround, hbroken⟩ | ⟨n, -, -, -, -, hround⟩ |
      ⟨-, hround⟩ | ⟨-, hround⟩ <;> rw [hround] at hstep <;> cases hstep
    exact .broken hbroken
  rintro ⟨stream, arrivals⟩ result ⟨hmode, h⟩ hstep
  rcases readTextRound_cases hlimit h with ⟨hround, -⟩ | ⟨n, hn, hle, hlength, htext, hround⟩ |
    ⟨hnil, hround⟩ | ⟨-, hround⟩ <;> rw [hround] at hstep <;> cases hstep
  · obtain ⟨coming, hrest, -⟩ := h.coming
    have htake : rest.take n = stream.pending.take n := by
      rw [hrest]
      exact List.take_append_of_le_length hlength
    have hlength' : n ≤ rest.length := by
      rw [hrest, List.length_append]
      exact Nat.le_add_right_of_le hlength
    rw [← htake] at htext ⊢
    exact .piece hn hle hlength' htext hmode (h.consume hlength)
  · exact .done hnil hmode h

/-- **A call of `read_text`.** -/
theorem textStep_readText (hlimit : 4 ≤ limit) (hmax : limit ≤ maxChunkBytes)
    (hmode : stream.mode ≠ .sse) (h : Holds (stream, arrivals) rest) :
    TextStep limit rest (readText limit { stream := some stream, arrivals := arrivals }) := by
  rw [readText_of_valid hlimit hmax hmode]
  exact textStep_iterate hlimit rfl ⟨h.tooLarge, h.failureCode, h.coming⟩

/-! ## Runs of calls -/

/-- The bytes that the calls of a run returned. -/
def returned (results : List (Except HttpError HttpStreamChunk)) : List UInt8 :=
  results.flatMap fun
    | .ok chunk => chunk.data
    | .error _ => []

/-- The results of a run of calls put a body together. -/
structure Reassembles (body : List UInt8) (limits : List ℕ)
    (results : List (Except HttpError HttpStreamChunk)) : Prop where
  /-- Every piece is a text within its limit, and empty only at the end. -/
  pieces : ∀ limit chunk, (limit, .ok chunk) ∈ limits.zip results →
    IsText chunk.data ∧ chunk.data.length ≤ limit ∧ (chunk.data = [] ↔ chunk.done = true)
  /-- The pieces are a beginning of the body. -/
  beginning : returned results <+: body
  /-- The end is told only when all of the body was returned. -/
  whole : ∀ before chunk after, results = before ++ .ok chunk :: after → chunk.done = true →
    returned before = body
  /-- Only a body that is no text makes a call fail. -/
  sound : ∀ error, .error error ∈ results → ¬ IsText body
  /-- A body that is no text makes a call fail, if there are enough of them. -/
  rejects : ¬ IsText body → body.length < limits.length → ∃ error, .error error ∈ results
  /-- A body that is a text comes to its end, if there are enough calls. -/
  finishes : IsText body → body.length < limits.length →
    ∃ chunk, .ok chunk ∈ results ∧ chunk.done = true

theorem readTexts_closed {limits : List ℕ}
    (hlimits : ∀ limit ∈ limits, 4 ≤ limit ∧ limit ≤ maxChunkBytes) :
    readTexts limits .closed = limits.map fun _ => .error invalidOrClosed := by
  induction limits with
  | nil => rfl
  | cons limit limits ih =>
    obtain ⟨⟨hmin, hmax⟩, hlimits⟩ := List.forall_mem_cons.mp hlimits
    have hcall : readText limit .closed = (.error invalidOrClosed, .closed) := by
      rw [readText, if_neg (by omega)]
      rfl
    rw [readTexts, hcall, List.map_cons, ← ih hlimits]

section

variable {body : List UInt8} {limits : List ℕ} {results : List (Except HttpError HttpStreamChunk)}
  {n : ℕ}

theorem returned_map_error {error : HttpError} :
    returned (limits.map fun _ => .error error) = [] := by
  induction limits with
  | nil => rfl
  | cons limit limits ih => exact ih

theorem reassembles_nil : Reassembles body [] [] where
  pieces := nofun
  beginning := List.nil_prefix
  whole := by
    intro before chunk after h
    exact absurd h.symm (List.append_ne_nil_of_right_ne_nil _ (List.cons_ne_nil _ _))
  sound := nofun
  rejects := fun _ h => absurd h (Nat.not_lt_zero _)
  finishes := fun _ h => absurd h (Nat.not_lt_zero _)

theorem reassembles_broken {error closed : HttpError} (h : ¬ IsText body) :
    Reassembles body (limit :: limits) (.error error :: limits.map fun _ => .error closed) where
  pieces := by
    intro limit' chunk hmem
    rw [List.zip_cons_cons, List.mem_cons] at hmem
    rcases hmem with heq | hmem
    · cases heq
    · obtain ⟨_, -, heq⟩ := List.mem_map.mp (List.of_mem_zip hmem).2
      cases heq
  beginning := by
    show returned (limits.map fun _ => .error closed) <+: body
    rw [returned_map_error]
    exact List.nil_prefix
  whole := by
    intro before chunk after heq
    have hmem : Except.ok chunk ∈ (.error error : Except HttpError HttpStreamChunk) ::
        limits.map fun _ => .error closed := by
      rw [heq]
      exact List.mem_append_right _ List.mem_cons_self
    simp at hmem
  sound := fun _ _ => h
  rejects := fun _ _ => ⟨error, List.mem_cons_self⟩
  finishes := fun hbody => absurd hbody h

theorem length_drop_lt (hn : 0 < n) (hlength : n ≤ body.length)
    (hlt : body.length < (limit :: limits).length) : (body.drop n).length < limits.length := by
  rw [List.length_drop]
  rw [List.length_cons] at hlt
  omega

theorem Reassembles.piece (h : Reassembles (body.drop n) limits results) (hn : 0 < n)
    (hle : n ≤ limit) (hlength : n ≤ body.length) (htext : IsText (body.take n)) :
    Reassembles body (limit :: limits) (.ok { data := body.take n, done := false } :: results) where
  pieces := by
    intro limit' chunk hmem
    rw [List.zip_cons_cons, List.mem_cons] at hmem
    rcases hmem with heq | hmem
    · cases heq
      refine ⟨htext, (List.length_take_le _ _).trans hle, ?_⟩
      have hne : body.take n ≠ [] := by
        rw [← List.length_pos_iff, List.length_take]
        omega
      simpa using hne
    · exact h.pieces limit' chunk hmem
  beginning := by
    show body.take n ++ returned results <+: body
    calc body.take n ++ returned results <+: body.take n ++ body.drop n :=
          (List.prefix_append_right_inj _).mpr h.beginning
      _ = body := List.take_append_drop n body
  whole := by
    intro before chunk after heq hdone
    cases before with
    | nil =>
      cases (List.cons.inj heq).1
      cases hdone
    | cons first before =>
      obtain ⟨rfl, hrest⟩ := List.cons.inj heq
      show body.take n ++ returned before = body
      rw [h.whole before chunk after hrest hdone, List.take_append_drop]
  sound := by
    intro error hmem hbody
    rcases List.mem_cons.mp hmem with heq | hmem
    · cases heq
    · refine h.sound error hmem (htext.of_append ?_)
      rwa [List.take_append_drop]
  rejects := by
    intro hbody hlt
    have hrest : ¬ IsText (body.drop n) := by
      intro hrest
      refine hbody ?_
      rw [← List.take_append_drop n body]
      exact htext.append hrest
    obtain ⟨error, hmem⟩ := h.rejects hrest (length_drop_lt hn hlength hlt)
    exact ⟨error, List.mem_cons_of_mem _ hmem⟩
  finishes := by
    intro hbody hlt
    have hrest : IsText (body.drop n) := by
      refine htext.of_append ?_
      rwa [List.take_append_drop]
    obtain ⟨chunk, hmem, hdone⟩ := h.finishes hrest (length_drop_lt hn hlength hlt)
    exact ⟨chunk, List.mem_cons_of_mem _ hmem, hdone⟩

theorem Reassembles.done (h : Reassembles [] limits results) :
    Reassembles [] (limit :: limits) (.ok { data := [], done := true } :: results) where
  pieces := by
    intro limit' chunk hmem
    rw [List.zip_cons_cons, List.mem_cons] at hmem
    rcases hmem with heq | hmem
    · cases heq
      exact ⟨isText_nil, Nat.zero_le _, by simp⟩
    · exact h.pieces limit' chunk hmem
  beginning := h.beginning
  whole := by
    intro before chunk after heq hdone
    cases before with
    | nil => rfl
    | cons first before =>
      obtain ⟨rfl, hrest⟩ := List.cons.inj heq
      exact h.whole before chunk after hrest hdone
  sound := by
    intro error hmem
    rcases List.mem_cons.mp hmem with heq | hmem
    · cases heq
    · exact h.sound error hmem
  rejects := fun hbody => absurd isText_nil hbody
  finishes := fun _ _ => ⟨_, List.mem_cons_self, rfl⟩

end

/-- A run of calls on a stream in good order puts the rest of its body together. -/
theorem reassembles_of_holds {limits : List ℕ}
    (hlimits : ∀ limit ∈ limits, 4 ≤ limit ∧ limit ≤ maxChunkBytes) (hmode : stream.mode ≠ .sse)
    (h : Holds (stream, arrivals) rest) :
    Reassembles rest limits (readTexts limits { stream := some stream, arrivals := arrivals }) := by
  induction limits generalizing stream arrivals rest with
  | nil => exact reassembles_nil
  | cons limit limits ih =>
    obtain ⟨⟨hmin, hmax⟩, hlimits⟩ := List.forall_mem_cons.mp hlimits
    have hstep := textStep_readText hmin hmax hmode h
    rw [readTexts]
    generalize readText limit { stream := some stream, arrivals := arrivals } = call at hstep ⊢
    cases hstep with
    | broken hbroken =>
      show Reassembles rest (limit :: limits) (.error notText :: readTexts limits .closed)
      rw [readTexts_closed hlimits]
      exact reassembles_broken hbroken
    | piece hn hle hlength htext hmode h =>
      exact (ih hlimits (by rw [hmode]; exact nofun) h).piece hn hle hlength htext
    | done hnil hmode h =>
      subst hnil
      exact (ih hlimits (by rw [hmode]; exact nofun) h).done

/-- **Reading a response as text puts its body together**, for every way the transport delivers it and
every run of calls with limits that `read_text` accepts. -/
theorem reassembles {body : List UInt8} {maxResponseBytes : ℕ} {eof : Bool} {arrivals : List Arrival}
    {limits : List ℕ} (hmax : body.length ≤ maxResponseBytes) (hbody : Delivers eof arrivals body)
    (hlimits : ∀ limit ∈ limits, 4 ≤ limit ∧ limit ≤ maxChunkBytes) :
    Reassembles body limits
      (readTexts limits { stream := some (.opened maxResponseBytes eof), arrivals := arrivals }) :=
  reassembles_of_holds hlimits (nofun) (holds_opened hbody hmax)

/-- A body of one character, which the transport cuts in two. -/
theorem reassembles_split_character :
    (∀ limit ∈ [4, 4], 4 ≤ limit ∧ limit ≤ maxChunkBytes) ∧
    Delivers false [.chunk [0xc3] false, .chunk [0xa9] true] [0xc3, 0xa9] ∧
    Reassembles [0xc3, 0xa9] [4, 4]
      (readTexts [4, 4] { stream := some (.opened 8 false),
                          arrivals := [.chunk [0xc3] false, .chunk [0xa9] true] }) := by
  have hlimits : ∀ limit ∈ [4, 4], 4 ≤ limit ∧ limit ≤ maxChunkBytes := by decide
  have hbody : Delivers false [.chunk [0xc3] false, .chunk [0xa9] true] [0xc3, 0xa9] :=
    @Delivers.chunk [0xc3] [0xa9] _ _ (by decide) (@Delivers.chunk [0xa9] [] _ _ (by decide) .ended)
  exact ⟨hlimits, hbody, reassembles (by decide) hbody hlimits⟩

/-- **A limit above a mebibyte is refused**, whatever the body: here it is a text of one character. -/
theorem large_limit_refused :
    ¬ ∀ (body : List UInt8) (maxResponseBytes : ℕ) (eof : Bool) (arrivals : List Arrival)
      (limits : List ℕ), body.length ≤ maxResponseBytes → Delivers eof arrivals body →
      (∀ limit ∈ limits, 4 ≤ limit) →
      Reassembles body limits
        (readTexts limits { stream := some (.opened maxResponseBytes eof), arrivals := arrivals }) := by
  intro hclaim
  have hbody : Delivers false [.chunk [97] true] [97] :=
    @Delivers.chunk [97] [] _ _ (by decide) .ended
  have h := hclaim [97] 1 false [.chunk [97] true] [maxChunkBytes + 1] le_rfl hbody (by decide)
  have htext : IsText [97] := @IsText.cons 97 [] ⟨⟨by decide, by decide⟩, by decide⟩ isText_nil
  refine h.sound invalidChunkLimit ?_ htext
  rw [readTexts, readText, if_pos (.inr (Nat.lt_succ_self _))]
  exact List.mem_cons_self

end Nomo.Streams
