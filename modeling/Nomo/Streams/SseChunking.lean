import Nomo.Streams.Sse

/-!
# Events and the chunks that they come in

What `next_sse` returns, compared over all the ways to deliver one body.

`decode` is what the calls make of a body that is all there: the abstract decoder. With any delivery a
call follows it line by line (`Invariant.cases`), unless it gives up on a line that has not come in full
(`GivesUp`). A line can be held back up to its terminator and the carriage return of that, so it can be
given up when this is more than the event has room for (`Held`).

Hence the calls return the same for every delivery exactly when every line that can be held back too long
belongs to an event that is refused for its size anyway (`same_iff`).
-/

namespace Nomo.Streams

open Nomo.Lib.Scanning

/-! ## The abstract decoder -/

/-- A line of a body that is all there. -/
def decodeRound (limit : ℕ) (state : Decoder × List UInt8) :
    Except HttpError ((Decoder × List UInt8) ⊕ (Option SseEvent × Decoder × List UInt8)) :=
  let (decoder, rest) := state
  if !decoder.pendingWithin limit then .error eventTooLarge
  else match nextLine rest true with
    | some (line, consumed) =>
      match decoder.takeLine limit line with
      | .error error => .error error
      | .ok (some event, decoder) => .ok (.inr (some event, decoder, rest.drop consumed))
      | .ok (none, decoder) => .ok (.inl (decoder, rest.drop consumed))
    | none =>
      if 0 < decoder.data.length then .ok (.inr (some decoder.dispatched, decoder.afterDispatch, rest))
      else .ok (.inr (none, decoder, rest))

/-- The next event of a body that is all there. -/
def decode (limit : ℕ) : Decoder × List UInt8 →
    Except HttpError (Option SseEvent × Decoder × List UInt8) :=
  iterate (fun state => state.2.length) (decodeRound limit) fun _ => eventTooLarge

/-- The next events of a body that is all there; nothing follows an error. -/
def decodes (limit : ℕ) :
    ℕ → Option (Decoder × List UInt8) → List (Except HttpError (Option SseEvent))
  | 0, _ => []
  | n + 1, none => .error invalidOrClosed :: decodes limit n none
  | n + 1, some state =>
    match decode limit state with
    | .error error => .error error :: decodes limit n none
    | .ok (event, state) => .ok event :: decodes limit n (some state)

/-- The decoder goes from a line to the next, within an event or at its end. -/
def Steps (limit : ℕ) (state next : Decoder × List UInt8) : Prop :=
  decodeRound limit state = .ok (.inl next) ∨
    ∃ event, decodeRound limit state = .ok (.inr (event, next))

/-- The lines that the decoder comes to. -/
def Onward (limit : ℕ) : Decoder × List UInt8 → Decoder × List UInt8 → Prop :=
  Relation.ReflTransGen (Steps limit)

/-- A line can be held back for longer than its event has room for. -/
def Held (limit : ℕ) (state : Decoder × List UInt8) : Prop :=
  limit - state.1.eventBytes < heldBack state.2

/-- A line makes its event too large. -/
def Refused (limit : ℕ) (state : Decoder × List UInt8) : Prop :=
  decodeRound limit state = .error eventTooLarge

/-- The event of a line is refused for its size, at this line or at a later one. -/
def IsRefused (limit : ℕ) (state : Decoder × List UInt8) : Prop :=
  Comes (decodeRound limit) (Refused limit) state

instance (limit : ℕ) (state : Decoder × List UInt8) : Decidable (Held limit state) :=
  inferInstanceAs (Decidable (_ < _))

variable {limit n : ℕ} {t t' : Decoder × List UInt8} {event : Option SseEvent}

theorem length_lt_of_line (h : decodeRound limit t = .ok (.inl t')) : t'.2.length < t.2.length := by
  obtain ⟨decoder, rest⟩ := t
  simp only [decodeRound] at h
  by_cases hwithin : (!decoder.pendingWithin limit) = true
  · rw [if_pos hwithin] at h
    cases h
  rw [if_neg hwithin] at h
  split at h
  · next line consumed hline =>
    split at h <;> cases h
    obtain ⟨hpos, hle⟩ := nextLine_bounds hline
    simp only [List.length_drop]
    exact Nat.sub_lt (hpos.trans_le hle) hpos
  · by_cases hdata : 0 < decoder.data.length
    · rw [if_pos hdata] at h
      cases h
    · rw [if_neg hdata] at h
      cases h

theorem decode_of_line (h : decodeRound limit t = .ok (.inl t')) :
    decode limit t = decode limit t' :=
  iterate_of_next h (length_lt_of_line h)

theorem IsRefused.decode_eq (h : IsRefused limit t) : decode limit t = .error eventTooLarge := by
  induction h with
  | here h => exact iterate_of_error h
  | later hstep _ ih => rw [decode_of_line hstep, ih]

theorem isRefused_of_decode (h : decode limit t = .error eventTooLarge) : IsRefused limit t := by
  induction hlength : t.2.length using Nat.strong_induction_on generalizing t with
  | _ length ih =>
  cases hround : decodeRound limit t with
  | error error =>
    rw [decode, iterate_of_error hround] at h
    cases h
    exact .here hround
  | ok outcome =>
    rcases outcome with t' | ⟨event, t'⟩
    · have hlt := length_lt_of_line hround
      rw [decode_of_line hround] at h
      exact .later hround (ih _ (by omega) h rfl)
    · rw [decode, iterate_of_done hround] at h
      cases h

theorem IsRefused.step (h : IsRefused limit t) (hstep : Steps limit t t') : IsRefused limit t' := by
  rcases comes_iff.mp h with hrefused | ⟨next, hnext, hcomes⟩
  · rw [Refused] at hrefused
    rcases hstep with hround | ⟨event, hround⟩ <;> rw [hround] at hrefused <;> cases hrefused
  · rcases hstep with hround | ⟨event, hround⟩ <;> rw [hround] at hnext <;> cases hnext
    exact hcomes

theorem IsRefused.onward (h : IsRefused limit t) (honward : Onward limit t t') : IsRefused limit t' := by
  induction honward with
  | refl => exact h
  | tail _ hstep ih => exact ih.step hstep

/-! ## A round against the decoder -/

/-- A stream in good order beside the decoder, which has the rest of its body at once. -/
structure Beside (s : HttpStream × List Arrival) (t : Decoder × List UInt8) : Prop where
  holds : Holds s t.2
  decoder : s.1.decoder = t.1
  mode : s.1.mode = .sse

/-- A call gives up on a line that has not come in full. -/
structure GivesUp (limit : ℕ) (s : HttpStream × List Arrival) : Prop where
  eof : s.1.eof = false
  line : nextLine s.1.pending false = none
  room : limit - s.1.decoder.eventBytes < s.1.pending.length

/-- A call waits for more of a line. -/
structure WaitsFor (limit : ℕ) (s : HttpStream × List Arrival) : Prop where
  eof : s.1.eof = false
  line : nextLine s.1.pending false = none
  room : s.1.pending.length ≤ limit - s.1.decoder.eventBytes

/-- The bytes that a round takes: those of a complete line, or none at the end of the body. -/
def Takes (s : HttpStream × List Arrival) (n : ℕ) : Prop :=
  (∃ line, nextLine s.1.pending s.1.eof = some (line, n)) ∨
    (s.1.eof = true ∧ s.1.pending = [] ∧ n = 0)

/-- A stream after a line. -/
def advance (s : HttpStream × List Arrival) (n : ℕ) (decoder : Decoder) :
    HttpStream × List Arrival :=
  ({ s.1 with pending := s.1.pending.drop n, decoder := decoder }, s.2)

/-- What a round does with a stream when the decoder takes a line. -/
def resume (s : HttpStream × List Arrival) (n : ℕ) :
    Except HttpError ((Decoder × List UInt8) ⊕ (Option SseEvent × Decoder × List UInt8)) →
    Except HttpError ((HttpStream × List Arrival) ⊕ (Option SseEvent × HttpStream × List Arrival))
  | .error error => .error error
  | .ok (.inl (decoder, _)) => .ok (.inl (advance s n decoder))
  | .ok (.inr (event, decoder, _)) => .ok (.inr (event, advance s n decoder))

variable {s s' : HttpStream × List Arrival}

theorem Takes.le (h : Takes s n) : n ≤ s.1.pending.length := by
  rcases h with ⟨line, hline⟩ | ⟨-, -, rfl⟩
  · exact (nextLine_bounds hline).2
  · exact Nat.zero_le _

theorem work_advance (hpos : 0 < n) (hle : n ≤ s.1.pending.length) {decoder : Decoder} :
    work (advance s n decoder) < work s := by
  have hwaits : waits (advance s n decoder).1 s.2 = waits s.1 s.2 := rfl
  show (s.1.pending.drop n).length + arriving s.2 + waits (advance s n decoder).1 s.2 < work s
  rw [List.length_drop, hwaits, work]
  omega

theorem Beside.advance (h : Beside s t) (hn : n ≤ s.1.pending.length) (decoder : Decoder) :
    Beside (advance s n decoder) (decoder, t.2.drop n) where
  holds := h.holds.consume hn
  decoder := rfl
  mode := h.mode

theorem Beside.wait (h : Beside s t) (heof : s.1.eof = false) :
    Beside (readMore s.1 s.2) t where
  holds := h.holds.readMore heof
  decoder := by rw [decoder_readMore, h.decoder]
  mode := by rw [mode_readMore, h.mode]

theorem Beside.nextLine_eq (h : Beside s t) {result : List UInt8 × ℕ}
    (hline : nextLine s.1.pending s.1.eof = some result) : nextLine t.2 true = some result := by
  cases heof : s.1.eof with
  | true => rwa [← h.holds.pending_eq heof, ← heof]
  | false =>
    obtain ⟨coming, hrest, -⟩ := h.holds.coming
    rw [heof] at hline
    rw [hrest]
    exact nextLineFrom_append hline

theorem round_at_end {stream : HttpStream} {arrivals : List Arrival}
    (hwithin : stream.decoder.pendingWithin limit = true) (htooLarge : stream.tooLarge = false)
    (hfailure : stream.failureCode = none) (heof : stream.eof = true) (hpending : stream.pending = []) :
    nextSseRound limit (stream, arrivals) =
      resume (stream, arrivals) 0 (decodeRound limit (stream.decoder, [])) := by
  obtain ⟨maxResponseBytes, responseBytes, mode, eof, tooLarge, failureCode, pending, decoder⟩ := stream
  dsimp only at hwithin htooLarge hfailure heof hpending
  subst htooLarge hfailure heof hpending
  have hnone : nextLine [] true = none := rfl
  simp only [nextSseRound, decodeRound, hwithin, hnone, Bool.not_true, Bool.false_eq_true, if_false,
    if_true]
  by_cases hdata : 0 < decoder.data.length
  · rw [if_pos hdata, if_pos hdata]
    rfl
  · rw [if_neg hdata, if_neg hdata]
    rfl

/-- A round: refused before the line, the decoder's round, given up, or waiting. -/
theorem round_cases (limit : ℕ) (h : Beside s t) :
    (decodeRound limit t = .error eventTooLarge ∧ nextSseRound limit s = .error eventTooLarge) ∨
    (∃ n, Takes s n ∧ nextSseRound limit s = resume s n (decodeRound limit t)) ∨
    (GivesUp limit s ∧ nextSseRound limit s = .error eventTooLarge) ∨
    (WaitsFor limit s ∧ nextSseRound limit s = .ok (.inl (readMore s.1 s.2))) := by
  obtain ⟨stream, arrivals⟩ := s
  obtain ⟨decoder, rest⟩ := t
  obtain rfl : stream.decoder = decoder := h.decoder
  have htooLarge : stream.tooLarge = false := h.holds.tooLarge
  have hfailure : stream.failureCode = none := h.holds.failureCode
  by_cases hwithin : stream.decoder.pendingWithin limit = true
  · right
    cases hline : nextLine stream.pending stream.eof with
    | some result =>
      obtain ⟨line, consumed⟩ := result
      refine .inl ⟨consumed, .inl ⟨line, hline⟩, ?_⟩
      have hrest := h.nextLine_eq hline
      simp only [nextSseRound, decodeRound, hwithin, hline, hrest, Bool.not_true, Bool.false_eq_true,
        if_false]
      rcases stream.decoder.takeLine limit line with error | ⟨event | event, decoder⟩ <;> rfl
    | none =>
      by_cases heof : stream.eof = true
      · -- at the end nothing is pending
        rw [heof] at hline
        have hpending : stream.pending = [] := nextLineFrom_true_eq_none.mp hline
        have hrest : rest = [] := by
          rw [← hpending]
          exact (h.holds.pending_eq heof).symm
        refine .inl ⟨0, .inr ⟨heof, hpending, rfl⟩, ?_⟩
        rw [hrest]
        exact round_at_end hwithin htooLarge hfailure heof hpending
      · have hopen : stream.eof = false := by simpa using heof
        rw [hopen] at hline
        have hround : nextSseRound limit (stream, arrivals) =
            if limit - stream.decoder.eventBytes < stream.pending.length then .error eventTooLarge
            else .ok (.inl (readMore stream arrivals)) := by
          simp only [nextSseRound, hwithin, hopen, hline, htooLarge, hfailure, Bool.not_true,
            Bool.false_eq_true, if_false]
        by_cases hroom : limit - stream.decoder.eventBytes < stream.pending.length
        · exact .inr (.inl ⟨⟨hopen, hline, hroom⟩, by rw [hround, if_pos hroom]⟩)
        · exact .inr (.inr ⟨⟨hopen, hline, not_lt.mp hroom⟩, by rw [hround, if_neg hroom]⟩)
  · left
    simp only [decodeRound, nextSseRound, hwithin]
    exact ⟨rfl, rfl⟩

theorem Beside.drop_eq (h : Beside s t) (htakes : Takes s n)
    (hround : Steps limit t t') : t'.2 = t.2.drop n := by
  unfold Steps at hround
  obtain ⟨decoder, rest⟩ := t
  have hwithin : (!decoder.pendingWithin limit) = false := by
    by_contra hwithin
    rw [decodeRound] at hround
    simp [hwithin] at hround
  simp only [decodeRound, hwithin, Bool.false_eq_true, if_false] at hround
  rcases htakes with ⟨line, hline⟩ | ⟨heof, hpending, rfl⟩
  · have hrest : nextLine rest true = some (line, n) := h.nextLine_eq hline
    simp only [hrest] at hround
    split at hround <;> rcases hround with hround | ⟨_, hround⟩ <;> cases hround <;> rfl
  have hrest : rest = [] := by
    rw [← hpending]
    exact (h.holds.pending_eq heof).symm
  have hnone : nextLine rest true = none := by rw [hrest]; rfl
  simp only [hnone] at hround
  split_ifs at hround <;> rcases hround with hround | ⟨_, hround⟩ <;> cases hround <;> rfl

/-! ## Calls against the decoder -/

/-- A relation of streams and decoders that calls keep. -/
structure Invariant (limit : ℕ) (inv : HttpStream × List Arrival → Decoder × List UInt8 → Prop) :
    Prop where
  beside : ∀ {s t}, inv s t → Beside s t
  wait : ∀ {s t}, inv s t → WaitsFor limit s → inv (readMore s.1 s.2) t
  take : ∀ {s t n t'}, inv s t → Takes s n → Steps limit t t' → inv (advance s n t'.1) t'

/-- A call goes on as the decoder does with its next line. -/
def Follows (limit : ℕ) (inv : HttpStream × List Arrival → Decoder × List UInt8 → Prop)
    (s : HttpStream × List Arrival) (t : Decoder × List UInt8) : Prop :=
  (∃ error, decodeRound limit t = .error error ∧ nextSseLoop limit s = .error error) ∨
  (∃ s' t', decodeRound limit t = .ok (.inl t') ∧ inv s' t' ∧
    nextSseLoop limit s = nextSseLoop limit s') ∨
  ∃ event s' t', decodeRound limit t = .ok (.inr (event, t')) ∧ inv s' t' ∧
    nextSseLoop limit s = .ok (event, s')

namespace Invariant

variable {inv : HttpStream × List Arrival → Decoder × List UInt8 → Prop}

/-- Waiting comes to an end: the call is refused, takes a line or gives up. -/
theorem settles (hinv : Invariant limit inv) (h : inv s t) :
    ∃ s₀, inv s₀ t ∧ nextSseLoop limit s = nextSseLoop limit s₀ ∧
      ((decodeRound limit t = .error eventTooLarge ∧
          nextSseRound limit s₀ = .error eventTooLarge) ∨
        (∃ n, Takes s₀ n ∧ nextSseRound limit s₀ = resume s₀ n (decodeRound limit t)) ∨
        (GivesUp limit s₀ ∧ nextSseRound limit s₀ = .error eventTooLarge)) := by
  induction hwork : work s using Nat.strong_induction_on generalizing s with
  | _ size ih =>
  have hbeside := hinv.beside h
  rcases round_cases limit hbeside with hrefused | htakes | hgives | ⟨hwait, hround⟩
  · exact ⟨s, h, rfl, .inl hrefused⟩
  · exact ⟨s, h, rfl, .inr (.inl htakes)⟩
  · exact ⟨s, h, rfl, .inr (.inr hgives)⟩
  · have hless : work (readMore s.1 s.2) < work s :=
      work_readMore hwait.eof hbeside.holds.failureCode hbeside.holds.tooLarge
    obtain ⟨s₀, hs₀, hloop, hdone⟩ := ih _ (by omega) (hinv.wait h hwait) rfl
    exact ⟨s₀, hs₀, (iterate_of_next hround hless).trans hloop, hdone⟩

theorem follows_of_takes (hinv : Invariant limit inv) (h : inv s t) (htakes : Takes s n)
    (hround : nextSseRound limit s = resume s n (decodeRound limit t)) : Follows limit inv s t := by
  have hbeside := hinv.beside h
  cases hdecode : decodeRound limit t with
  | error error =>
    rw [hdecode] at hround
    exact .inl ⟨error, hdecode, iterate_of_error hround⟩
  | ok outcome =>
    rw [hdecode] at hround
    rcases outcome with t' | ⟨event, t'⟩
    · have hdrop := hbeside.drop_eq htakes (.inl hdecode)
      have hlt := length_lt_of_line hdecode
      rw [hdrop, List.length_drop] at hlt
      have hless : work (advance s n t'.1) < work s := work_advance (by omega) htakes.le
      exact .inr (.inl ⟨_, t', hdecode, hinv.take h htakes (.inl hdecode), iterate_of_next hround hless⟩)
    · exact .inr (.inr ⟨event, _, t', hdecode, hinv.take h htakes (.inr ⟨event, hdecode⟩),
        iterate_of_done hround⟩)

/-- **A call goes on as the decoder does, unless it gives up.** -/
theorem cases (hinv : Invariant limit inv) (h : inv s t) :
    (Follows limit inv s t ∧
      (decodeRound limit t = .error eventTooLarge ∨ ∃ s₀ n, inv s₀ t ∧ Takes s₀ n)) ∨
    (nextSseLoop limit s = .error eventTooLarge ∧ ∃ s₀, inv s₀ t ∧ GivesUp limit s₀) := by
  obtain ⟨s₀, hs₀, hloop, ⟨hdecode, hround⟩ | ⟨n, htakes, hround⟩ | ⟨hgives, hround⟩⟩ :=
    hinv.settles h
  · have hresult : nextSseLoop limit s = .error eventTooLarge := by
      rw [hloop]
      exact iterate_of_error hround
    exact .inl ⟨.inl ⟨_, hdecode, hresult⟩, .inl hdecode⟩
  · have hfollows := hinv.follows_of_takes hs₀ htakes hround
    rw [Follows, ← hloop] at hfollows
    exact .inl ⟨hfollows, .inr ⟨s₀, n, hs₀, htakes⟩⟩
  · refine .inr ⟨?_, s₀, hs₀, hgives⟩
    rw [hloop]
    exact iterate_of_error hround

theorem loop_eq_decode (hinv : Invariant limit inv)
    (hgives : ∀ {s t}, inv s t → GivesUp limit s → IsRefused limit t) (h : inv s t) :
    (∃ error, decode limit t = .error error ∧ nextSseLoop limit s = .error error) ∨
    ∃ event s' t', decode limit t = .ok (event, t') ∧ inv s' t' ∧
      nextSseLoop limit s = .ok (event, s') := by
  induction hlength : t.2.length using Nat.strong_induction_on generalizing s t with
  | _ length ih =>
  rcases hinv.cases h with ⟨hfollows, -⟩ | ⟨hloop, s₀, hs₀, hgivesUp⟩
  · rcases hfollows with ⟨error, hdecode, hloop⟩ | ⟨s', t', hdecode, hs', hloop⟩ |
      ⟨event, s', t', hdecode, hs', hloop⟩
    · exact .inl ⟨error, iterate_of_error hdecode, hloop⟩
    · have hlt := length_lt_of_line hdecode
      rw [decode_of_line hdecode, hloop]
      exact ih _ (by omega) hs' rfl
    · exact .inr ⟨event, s', t', iterate_of_done hdecode, hs', hloop⟩
  · exact .inl ⟨_, (hgives hs₀ hgivesUp).decode_eq, hloop⟩

end Invariant

/-! ## Runs of calls -/

/-- The result of a call, and the stream it leaves. -/
def sseResult : Except HttpError (Option SseEvent × HttpStream × List Arrival) →
    Except HttpError (Option SseEvent) × Session
  | .error error => (.error error, .closed)
  | .ok (event, stream, arrivals) => (.ok event, { stream := some stream, arrivals := arrivals })

/-- A limit that `next_sse` accepts. -/
def IsEventLimit (limit : ℕ) : Prop := 0 < limit ∧ limit ≤ maxEventBytes

instance (limit : ℕ) : Decidable (IsEventLimit limit) := inferInstanceAs (Decidable (_ ∧ _))

theorem nextSse_of_limit (hlimit : IsEventLimit limit) {stream : HttpStream} {arrivals : List Arrival}
    (hmode : stream.mode ≠ .text) :
    nextSse limit { stream := some stream, arrivals := arrivals } =
      sseResult (nextSseLoop limit ({ stream with mode := .sse }, arrivals)) := by
  obtain ⟨hpos, hmax⟩ := hlimit
  simp only [nextSse]
  rw [if_neg (by omega), if_neg hmode]
  rfl

/-- The session of a stream that is being decoded. -/
def sessionOf (s : HttpStream × List Arrival) : Session where
  stream := some s.1
  arrivals := s.2

theorem nextSse_sessionOf (hlimit : IsEventLimit limit) (h : s.1.mode = .sse) :
    nextSse limit (sessionOf s) = sseResult (nextSseLoop limit s) := by
  obtain ⟨stream, arrivals⟩ := s
  have hstream : { stream with mode := .sse } = stream := by
    rw [← show stream.mode = .sse from h]
  rw [sessionOf, nextSse_of_limit hlimit (by rw [show stream.mode = .sse from h]; exact nofun), hstream]

theorem nextSses_closed (hlimit : IsEventLimit limit) (n : ℕ) :
    nextSses limit n .closed = decodes limit n none := by
  obtain ⟨hpos, hmax⟩ := hlimit
  induction n with
  | zero => rfl
  | succ n ih =>
    have hcall : nextSse limit .closed = (.error invalidOrClosed, .closed) := by
      rw [nextSse, if_neg (by omega)]
      rfl
    rw [nextSses, hcall, decodes, ← ih]

theorem Invariant.nextSses_eq {inv : HttpStream × List Arrival → Decoder × List UInt8 → Prop}
    (hinv : Invariant limit inv) (hlimit : IsEventLimit limit)
    (hgives : ∀ {s t}, inv s t → GivesUp limit s → IsRefused limit t) (h : inv s t) (n : ℕ) :
    nextSses limit n (sessionOf s) = decodes limit n (some t) := by
  induction n generalizing s t with
  | zero => rfl
  | succ n ih =>
    rw [nextSses, nextSse_sessionOf hlimit (hinv.beside h).mode, decodes]
    rcases hinv.loop_eq_decode hgives h with ⟨error, hdecode, hloop⟩ |
      ⟨event, s', t', hdecode, hs', hloop⟩
    · rw [hdecode, hloop]
      show _ :: nextSses limit n .closed = _
      rw [nextSses_closed hlimit]
    · rw [hdecode, hloop]
      show _ :: nextSses limit n (sessionOf s') = _
      rw [ih hs']

/-! ## Deliveries -/

/-- Any stream that is in good order, at a line that the decoder comes to from a first one. -/
def Reaches (limit : ℕ) (start : Decoder × List UInt8) (s : HttpStream × List Arrival)
    (t : Decoder × List UInt8) : Prop :=
  Beside s t ∧ Onward limit start t

theorem invariant_reaches (start : Decoder × List UInt8) : Invariant limit (Reaches limit start) where
  beside := fun h => h.1
  wait := fun h hwait => ⟨h.1.wait hwait.eof, h.2⟩
  take := by
    intro s t n t' h htakes hround
    have hbeside := h.1.advance htakes.le t'.1
    rw [← h.1.drop_eq htakes hround] at hbeside
    exact ⟨hbeside, h.2.tail hround⟩

theorem Beside.pending_prefix (h : Beside s t) : s.1.pending <+: t.2 := by
  obtain ⟨coming, hrest, -⟩ := h.holds.coming
  rw [hrest]
  exact List.prefix_append _ _

theorem held_of_givesUp (h : Beside s t) (hgives : GivesUp limit s) : Held limit t := by
  have hle := (nextLine_eq_none_iff h.pending_prefix).mp hgives.line
  have hroom := hgives.room
  rw [h.decoder] at hroom
  exact hroom.trans_le hle

/-- A stream whose transport tells the end of the body with the last of its bytes. -/
structure Whole (s : HttpStream × List Arrival) (t : Decoder × List UInt8) : Prop where
  beside : Beside s t
  eof : s.1.eof = true ∨ (s.1.pending = [] ∧ (readMore s.1 s.2).1.eof = true)

theorem invariant_whole : Invariant limit Whole where
  beside := Whole.beside
  wait := by
    intro s t h hwait
    refine ⟨h.beside.wait hwait.eof, ?_⟩
    rcases h.eof with heof | ⟨-, heof⟩
    · rw [hwait.eof] at heof
      cases heof
    · exact .inl heof
  take := by
    intro s t n t' h htakes hround
    have hbeside := h.beside.advance htakes.le t'.1
    rw [← h.beside.drop_eq htakes hround] at hbeside
    refine ⟨hbeside, .inl ?_⟩
    rcases h.eof with heof | ⟨hpending, -⟩
    · exact heof
    -- without pending bytes nothing is taken before the end
    rcases htakes with ⟨line, hline⟩ | ⟨heof, -⟩
    · rw [hpending] at hline
      cases heof : s.1.eof <;> rw [heof] at hline <;> cases hline
    · exact heof

theorem Whole.not_givesUp (h : Whole s t) : ¬ GivesUp limit s := by
  intro hgives
  rcases h.eof with heof | ⟨hpending, -⟩
  · rw [hgives.eof] at heof
    cases heof
  · have hroom := hgives.room
    rw [hpending] at hroom
    exact absurd hroom (Nat.not_lt_zero _)

/-- The arrivals of a body byte by byte. -/
def bytewise (body : List UInt8) : List Arrival :=
  body.map (fun byte => .chunk [byte] false) ++ [.finished]

/-- The pending bytes that a round has seen already. -/
def seenBytes (stream : HttpStream) : ℕ :=
  if stream.eof then stream.pending.length else stream.pending.length - 1

/-- A stream whose body comes byte by byte: what was seen of a line was not complete, and there was room
for it. -/
structure Bytewise (limit : ℕ) (s : HttpStream × List Arrival) (t : Decoder × List UInt8) :
    Prop where
  beside : Beside s t
  arrivals : s.1.eof = true ∨ ∃ coming, s.2 = bytewise coming
  held : seenBytes s.1 ≤ heldBack t.2
  room : seenBytes s.1 ≤ limit - t.1.eventBytes

theorem seenBytes_le (stream : HttpStream) : seenBytes stream ≤ stream.pending.length := by
  unfold seenBytes
  split_ifs
  · exact le_rfl
  · exact Nat.sub_le _ _

theorem Bytewise.seenBytes_le_of_takes (h : Bytewise limit s t) (htakes : Takes s n) :
    seenBytes s.1 ≤ n := by
  rcases htakes with ⟨line, hline⟩ | ⟨-, hpending, rfl⟩
  · by_contra hlt
    have hlength : (s.1.pending.take (seenBytes s.1)).length = seenBytes s.1 :=
      List.length_take_of_le (seenBytes_le _)
    have hbegins := List.take_prefix (seenBytes s.1) s.1.pending
    have hsome := nextLineFrom_of_lt hline hbegins (by rw [hlength]; simp; omega)
    have hnone := (nextLine_eq_none_iff (hbegins.trans h.beside.pending_prefix)).mpr
      (by rw [hlength]; exact h.held)
    rw [nextLine, hsome] at hnone
    cases hnone
  · have hle := seenBytes_le s.1
    rwa [hpending] at hle

theorem readMore_bytewise (h : Beside s t) (heof : s.1.eof = false)
    (harrivals : s.1.eof = true ∨ ∃ coming, s.2 = bytewise coming) :
    ((readMore s.1 s.2).1.eof = true ∨ ∃ coming, (readMore s.1 s.2).2 = bytewise coming) ∧
      seenBytes (readMore s.1 s.2).1 = s.1.pending.length := by
  obtain ⟨stream, arrivals⟩ := s
  obtain ⟨coming, rfl⟩ : ∃ coming, arrivals = bytewise coming := by
    rcases harrivals with heof' | harrivals
    · rw [heof] at heof'
      cases heof'
    · exact harrivals
  have hfits := (h.wait heof).holds.tooLarge
  have htooLarge : stream.tooLarge = false := h.holds.tooLarge
  have hfailure : stream.failureCode = none := h.holds.failureCode
  have hopen : stream.eof = false := heof
  cases coming with
  | nil => simp [readMore, bytewise, seenBytes, hopen, hfailure, htooLarge]
  | cons byte coming =>
    have harrivals : bytewise (byte :: coming) = .chunk [byte] false :: bytewise coming := rfl
    rw [harrivals] at hfits ⊢
    simp only [readMore, hopen, hfailure, htooLarge, Option.isSome_none, Bool.or_self,
      Bool.false_eq_true, if_false] at hfits ⊢
    split_ifs at hfits ⊢ with hlarge
    · exact ⟨.inr ⟨coming, rfl⟩, by simp [seenBytes]⟩

theorem invariant_bytewise : Invariant limit (Bytewise limit) where
  beside := Bytewise.beside
  wait := by
    intro s t h hwait
    have hbeside := h.beside.wait hwait.eof
    have hheld := (nextLine_eq_none_iff h.beside.pending_prefix).mp hwait.line
    have hroom := hwait.room
    rw [h.beside.decoder] at hroom
    obtain ⟨harrivals, hseen⟩ := readMore_bytewise h.beside hwait.eof h.arrivals
    exact ⟨hbeside, harrivals, by rwa [hseen], by rwa [hseen]⟩
  take := by
    intro s t n t' h htakes hround
    have hbeside := h.beside.advance htakes.le t'.1
    rw [← h.beside.drop_eq htakes hround] at hbeside
    have hseen : seenBytes (advance s n t'.1).1 = 0 := by
      have hle := h.seenBytes_le_of_takes htakes
      simp only [seenBytes, advance, List.length_drop] at hle ⊢
      split_ifs at hle ⊢ <;> omega
    refine ⟨hbeside, h.arrivals, ?_, ?_⟩ <;> rw [hseen] <;> exact Nat.zero_le _

theorem Bytewise.not_takes (h : Bytewise limit s t) (hheld : Held limit t) : ¬ Takes s n := by
  intro htakes
  have hseen : heldBack t.2 ≤ seenBytes s.1 := by
    cases heof : s.1.eof with
    | true =>
      rw [seenBytes, if_pos heof, h.beside.holds.pending_eq heof]
      exact heldBack_le_length _
    | false =>
      rcases htakes with ⟨line, hline⟩ | ⟨heof', -⟩
      · rw [heof] at hline
        have hsome := (nextLine_eq_none_iff h.beside.pending_prefix).not.mp (by rw [hline]; exact nofun)
        rw [seenBytes, if_neg (by rw [heof]; exact Bool.false_ne_true)]
        omega
      · rw [heof] at heof'
        cases heof'
  exact absurd (hseen.trans h.room) (not_le.mpr hheld)

/-! ## When all deliveries give the same -/

/-- Runs of calls return the same. -/
def Agree (limit : ℕ) (s s' : HttpStream × List Arrival) : Prop :=
  ∀ n, nextSses limit n (sessionOf s) = nextSses limit n (sessionOf s')

variable {s₁ s₁' : HttpStream × List Arrival}

theorem nextSses_succ (hlimit : IsEventLimit limit) (hmode : s.1.mode = .sse) (n : ℕ) :
    nextSses limit (n + 1) (sessionOf s) = match nextSseLoop limit s with
      | .error error => .error error :: nextSses limit n .closed
      | .ok (event, s') => .ok event :: nextSses limit n (sessionOf s') := by
  rw [nextSses, nextSse_sessionOf hlimit hmode]
  rcases nextSseLoop limit s with error | ⟨event, s'⟩ <;> rfl

theorem Agree.error (h : Agree limit s s') (hlimit : IsEventLimit limit) (hmode : s.1.mode = .sse)
    (hmode' : s'.1.mode = .sse) {error : HttpError} (hloop : nextSseLoop limit s = .error error) :
    nextSseLoop limit s' = .error error := by
  have hfirst := h 1
  rw [nextSses_succ hlimit hmode, nextSses_succ hlimit hmode', hloop] at hfirst
  rcases hloop' : nextSseLoop limit s' with error' | ⟨event, s''⟩ <;> rw [hloop'] at hfirst <;>
    cases hfirst
  rfl

theorem Agree.after_line (h : Agree limit s s') (hlimit : IsEventLimit limit) (hmode : s.1.mode = .sse)
    (hmode' : s'.1.mode = .sse) (hmode₁ : s₁.1.mode = .sse) (hmode₁' : s₁'.1.mode = .sse)
    (hloop : nextSseLoop limit s = nextSseLoop limit s₁)
    (hloop' : nextSseLoop limit s' = nextSseLoop limit s₁') : Agree limit s₁ s₁' := by
  intro n
  cases n with
  | zero => rfl
  | succ n =>
    have hcalls := h (n + 1)
    rw [nextSses_succ hlimit hmode, nextSses_succ hlimit hmode', hloop, hloop'] at hcalls
    rw [nextSses_succ hlimit hmode₁, nextSses_succ hlimit hmode₁', hcalls]

theorem Agree.after_event (h : Agree limit s s') (hlimit : IsEventLimit limit) (hmode : s.1.mode = .sse)
    (hmode' : s'.1.mode = .sse) (hloop : nextSseLoop limit s = .ok (event, s₁))
    (hloop' : nextSseLoop limit s' = .ok (event, s₁')) : Agree limit s₁ s₁' := by
  intro n
  have hcalls := h (n + 1)
  rw [nextSses_succ hlimit hmode, nextSses_succ hlimit hmode', hloop, hloop'] at hcalls
  exact (List.cons.inj hcalls).2

/-- A body that comes byte by byte against one that comes whole: if the calls return the same, a line
that can be held back too long is of an event that is refused. -/
theorem isRefused_of_held (hlimit : IsEventLimit limit) (hagree : Agree limit s s')
    (hbytes : Bytewise limit s t) (hwhole : Whole s' t) (hheld : Held limit t) : IsRefused limit t := by
  have hloop : nextSseLoop limit s = .error eventTooLarge := by
    rcases invariant_bytewise.cases hbytes with ⟨hfollows, hdecode | ⟨s₀, n, hs₀, htakes⟩⟩ | ⟨hloop, -⟩
    · rcases hfollows with ⟨error, hdecode', hloop⟩ | ⟨s', t', hdecode', -⟩ |
        ⟨event, s', t', hdecode', -⟩ <;> rw [hdecode] at hdecode' <;> cases hdecode'
      exact hloop
    · exact absurd htakes (hs₀.not_takes hheld)
    · exact hloop
  have hloop' := hagree.error hlimit hbytes.beside.mode hwhole.beside.mode hloop
  refine isRefused_of_decode ?_
  have hinv : Invariant limit Whole := invariant_whole
  rcases hinv.loop_eq_decode (fun h hgives => absurd hgives h.not_givesUp) hwhole with
    ⟨error, hdecode, hresult⟩ | ⟨event, s'', t', -, -, hresult⟩ <;> rw [hloop'] at hresult <;>
    cases hresult
  exact hdecode

theorem isRefused_of_onward (hlimit : IsEventLimit limit) (hagree : Agree limit s s')
    (hbytes : Bytewise limit s t) (hwhole : Whole s' t) (honward : Onward limit t t')
    (hheld : Held limit t') : IsRefused limit t' := by
  induction honward using Relation.ReflTransGen.head_induction_on generalizing s s' with
  | refl => exact isRefused_of_held hlimit hagree hbytes hwhole hheld
  | @head t t₁ hstep honward ih =>
    by_cases hfirst : Held limit t
    · exact ((isRefused_of_held hlimit hagree hbytes hwhole hfirst).step hstep).onward honward
    have hmode := hbytes.beside.mode
    have hmode' := hwhole.beside.mode
    have hfollows : Follows limit (Bytewise limit) s t := by
      rcases invariant_bytewise.cases hbytes with ⟨hfollows, -⟩ | ⟨-, s₀, hs₀, hgives⟩
      · exact hfollows
      · exact absurd (held_of_givesUp hs₀.beside hgives) hfirst
    have hinv : Invariant limit Whole := invariant_whole
    have hfollows' : Follows limit Whole s' t := by
      rcases hinv.cases hwhole with ⟨hfollows, -⟩ | ⟨-, s₀, hs₀, hgives⟩
      · exact hfollows
      · exact absurd hgives hs₀.not_givesUp
    rcases hstep with hround | ⟨event, hround⟩
    · rcases hfollows with ⟨error, hdecode, -⟩ | ⟨s₁, t', hdecode, hs₁, hloop⟩ |
        ⟨event, s₁, t', hdecode, -⟩ <;> rw [hround] at hdecode <;> cases hdecode
      rcases hfollows' with ⟨error, hdecode, -⟩ | ⟨s₁', t', hdecode, hs₁', hloop'⟩ |
        ⟨event, s₁', t', hdecode, -⟩ <;> rw [hround] at hdecode <;> cases hdecode
      exact ih (hagree.after_line hlimit hmode hmode' hs₁.beside.mode hs₁'.beside.mode hloop hloop')
        hs₁ hs₁'
    · rcases hfollows with ⟨error, hdecode, -⟩ | ⟨s₁, t', hdecode, -⟩ |
        ⟨event, s₁, t', hdecode, hs₁, hloop⟩ <;> rw [hround] at hdecode <;> cases hdecode
      rcases hfollows' with ⟨error, hdecode, -⟩ | ⟨s₁', t', hdecode, -⟩ |
        ⟨event, s₁', t', hdecode, hs₁', hloop'⟩ <;> rw [hround] at hdecode <;> cases hdecode
      exact ih (hagree.after_event hlimit hmode hmode' hloop hloop') hs₁ hs₁'

/-- A stream that was just opened, before the first call. -/
def openedSession (maxResponseBytes : ℕ) (eof : Bool) (arrivals : List Arrival) : Session where
  stream := some (.opened maxResponseBytes eof)
  arrivals := arrivals

/-- The stream of the first call. -/
def firstState (maxResponseBytes : ℕ) (eof : Bool) (arrivals : List Arrival) :
    HttpStream × List Arrival :=
  ({ HttpStream.opened maxResponseBytes eof with mode := .sse }, arrivals)

section

variable {maxResponseBytes : ℕ} {eof : Bool} {arrivals : List Arrival} {body : List UInt8}

theorem nextSses_openedSession (hlimit : IsEventLimit limit) (n : ℕ) :
    nextSses limit n (openedSession maxResponseBytes eof arrivals) =
      nextSses limit n (sessionOf (firstState maxResponseBytes eof arrivals)) := by
  cases n with
  | zero => rfl
  | succ n =>
    have hmode : (HttpStream.opened maxResponseBytes eof).mode ≠ .text := nofun
    rw [nextSses_succ hlimit rfl, nextSses, openedSession, nextSse_of_limit hlimit hmode, firstState]
    rcases nextSseLoop limit ({ HttpStream.opened maxResponseBytes eof with mode := .sse }, arrivals) with
      error | ⟨event, s'⟩ <;> rfl

theorem beside_firstState (hmax : body.length ≤ maxResponseBytes) (hbody : Delivers eof arrivals body) :
    Beside (firstState maxResponseBytes eof arrivals) (.start, body) where
  holds :=
    let h := holds_opened hbody hmax
    ⟨h.tooLarge, h.failureCode, h.coming⟩
  decoder := rfl
  mode := rfl

theorem nextSses_of_not_limit (hlimit : ¬ IsEventLimit limit) (n : ℕ) (session : Session) :
    nextSses limit n session = List.replicate n (.error invalidEventLimit) := by
  have hcall : nextSse limit session = (.error invalidEventLimit, session) := by
    have hinvalid : limit = 0 ∨ maxEventBytes < limit := by
      unfold IsEventLimit at hlimit
      omega
    rw [nextSse, if_pos hinvalid]
  induction n with
  | zero => rfl
  | succ n ih => rw [nextSses, hcall, List.replicate_succ, ← ih]

/-- The ways to deliver a body all give the same results. -/
def SameForAllDeliveries (limit maxResponseBytes : ℕ) (body : List UInt8) : Prop :=
  ∀ (eof eof' : Bool) (arrivals arrivals' : List Arrival), Delivers eof arrivals body →
    Delivers eof' arrivals' body → ∀ n,
      nextSses limit n (openedSession maxResponseBytes eof arrivals) =
        nextSses limit n (openedSession maxResponseBytes eof' arrivals')

theorem delivers_bytewise (body : List UInt8) : Delivers false (bytewise body) body := by
  induction body with
  | nil => exact .finished
  | cons byte body ih => exact @Delivers.chunk [byte] body _ _ (List.cons_ne_nil _ _) ih

/-- The arrivals of a body at once, with its end. -/
def atOnce (body : List UInt8) : List Arrival :=
  if body = [] then [.finished] else [.chunk body true]

theorem delivers_atOnce (body : List UInt8) : Delivers false (atOnce body) body := by
  unfold atOnce
  split_ifs with hnil
  · rw [hnil]
    exact .finished
  · have h : Delivers false [.chunk body true] (body ++ []) := .chunk hnil .ended
    rwa [List.append_nil] at h

theorem whole_firstState (hmax : body.length ≤ maxResponseBytes) :
    Whole (firstState maxResponseBytes false (atOnce body)) (.start, body) where
  beside := beside_firstState hmax (delivers_atOnce body)
  eof := by
    refine .inr ⟨rfl, ?_⟩
    unfold atOnce
    split_ifs with hnil
    · rfl
    · simp [firstState, HttpStream.opened, readMore, not_lt.mpr hmax]

theorem bytewise_firstState (hmax : body.length ≤ maxResponseBytes) :
    Bytewise limit (firstState maxResponseBytes false (bytewise body)) (.start, body) where
  beside := beside_firstState hmax (delivers_bytewise body)
  arrivals := .inr ⟨body, rfl⟩
  held := Nat.zero_le _
  room := Nat.zero_le _

/-- **Events do not depend on the chunks of a body exactly when** every line that can be held back for
longer than its event has room for is of an event that is refused for its size. -/
theorem same_iff (limit maxResponseBytes : ℕ) (body : List UInt8)
    (hmax : body.length ≤ maxResponseBytes) :
    SameForAllDeliveries limit maxResponseBytes body ↔
      (IsEventLimit limit → ∀ t, Onward limit (.start, body) t → Held limit t →
        IsRefused limit t) := by
  constructor
  · intro hsame hlimit t honward hheld
    refine isRefused_of_onward hlimit ?_ (bytewise_firstState hmax) (whole_firstState hmax) honward
      hheld
    intro n
    rw [← nextSses_openedSession hlimit, ← nextSses_openedSession hlimit]
    exact hsame _ _ _ _ (delivers_bytewise body) (delivers_atOnce body) n
  intro hcondition eof eof' arrivals arrivals' hbody hbody' n
  by_cases hlimit : IsEventLimit limit
  · -- both runs have the results of the decoder
    have hresults : ∀ {eof : Bool} {arrivals : List Arrival}, Delivers eof arrivals body →
        nextSses limit n (openedSession maxResponseBytes eof arrivals) =
          decodes limit n (some (.start, body)) := by
      intro eof arrivals hbody
      rw [nextSses_openedSession hlimit]
      refine (invariant_reaches (.start, body)).nextSses_eq hlimit ?_
        ⟨beside_firstState hmax hbody, .refl⟩ n
      intro s t hreaches hgives
      exact hcondition hlimit t hreaches.2 (held_of_givesUp hreaches.1 hgives)
    rw [hresults hbody, hresults hbody']
  · rw [nextSses_of_not_limit hlimit, nextSses_of_not_limit hlimit]

/-- A line as long as its event has room for, in a body with short lines. -/
theorem same_iff_short_line :
    (ascii "data:x\n\n").length ≤ 8 ∧
      (SameForAllDeliveries 6 8 (ascii "data:x\n\n") ↔
        (IsEventLimit 6 → ∀ t, Onward 6 (.start, ascii "data:x\n\n") t → Held 6 t →
          IsRefused 6 t)) :=
  ⟨by decide, same_iff 6 8 (ascii "data:x\n\n") (by decide)⟩

/-- **A line at the limit that is cut within its terminator** is given up, and is an event if it is not
cut there. -/
theorem cut_terminator_differs :
    ¬ ∀ (limit maxResponseBytes : ℕ) (body : List UInt8), body.length ≤ maxResponseBytes →
      SameForAllDeliveries limit maxResponseBytes body := by
  intro hclaim
  have hcut : Delivers false [.chunk (ascii "data:x\r") false, .chunk (ascii "\n\r\n") true]
      (ascii "data:x\r\n\r\n") :=
    @Delivers.chunk (ascii "data:x\r") (ascii "\n\r\n") _ _ (by decide)
      (@Delivers.chunk (ascii "\n\r\n") [] _ _ (by decide) .ended)
  have hwhole : Delivers false [.chunk (ascii "data:x\r\n\r\n") true] (ascii "data:x\r\n\r\n") :=
    @Delivers.chunk (ascii "data:x\r\n\r\n") [] _ _ (by decide) .ended
  have h := hclaim 6 10 (ascii "data:x\r\n\r\n") (by decide) false false _ _ hcut hwhole 1
  revert h
  decide +kernel

end

end Nomo.Streams
