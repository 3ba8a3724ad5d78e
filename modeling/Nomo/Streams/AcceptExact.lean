import Nomo.Streams.Accept

/-!
# When a request is read exactly

Where the loop of `http.accept` can stop depends on how `recv` cuts the stream (`Ends`): once the blank
line has come, at the first cut from the expected length on, or at the end of the stream.

A stream is read exactly when each of these places gives what the stream says (`readsExactly_iff`): its
body, up to the first zero byte, has the length that the field gives, and the loop does not stop before
its end; or its request line is malformed, and no place shows as many spaces as a request line has.
-/

namespace Nomo.Streams

open Nomo.Lib

variable {stream : List UInt8} {headersEnd a b n : ℕ}

/-! ## Where the loop stops -/

/-- The end of the head of a stream. -/
def headEnd (stream : List UInt8) : Option ℕ := strstr blankLine (cstring stream)

/-- The loop can stop at a length: `seen` is what has come when the blank line is seen. -/
def Ends (stream : List UInt8) (headersEnd stop : ℕ) : Prop :=
  ∃ seen, headersEnd + 4 ≤ seen ∧ seen < headersEnd + 4 + receiveBytes ∧ seen ≤ stream.length ∧
    let expected := expectedLength (stream.take seen) headersEnd
    (expected ≤ seen ∧ stop = seen) ∨
    (seen < expected ∧ expected ≤ stop ∧ stop < expected + receiveBytes ∧ stop ≤ stream.length) ∨
    (seen < expected ∧ stream.length < expected ∧ stop = stream.length)

theorem headEnd_take (stream : List UInt8) (b : ℕ) :
    headEnd (stream.take b) = (headEnd stream).filter fun headersEnd => headersEnd + 4 ≤ b := by
  rw [headEnd, cstring_take, strstr_take (by decide)]
  rfl

theorem headEnd_take_of_le (h : headEnd stream = some headersEnd) (hb : headersEnd + 4 ≤ b) :
    headEnd (stream.take b) = some headersEnd := by
  rw [headEnd_take, h]
  simp [Option.filter, hb]

theorem headEnd_take_of_lt (h : headEnd stream = some headersEnd) (hb : b < headersEnd + 4) :
    headEnd (stream.take b) = none := by
  rw [headEnd_take, h]
  simp [Option.filter, not_le.mpr hb]

theorem headEnd_le (h : headEnd stream = some headersEnd) :
    headersEnd + 4 ≤ (cstring stream).length ∧ headersEnd + 4 ≤ stream.length := by
  have hle := (prefix_of_strstr h).2
  have hlength : blankLine.length = 4 := rfl
  rw [hlength] at hle
  exact ⟨hle, hle.trans (cstring_isPrefix stream).length_le⟩

section

variable {piece : List UInt8} {pieces : List (List UInt8)} {expected : ℕ}

theorem take_append_piece (h : (piece :: pieces).flatten = stream.drop a) :
    stream.take a ++ piece = stream.take (a + piece.length) ∧
      pieces.flatten = stream.drop (a + piece.length) := by
  rw [List.flatten_cons] at h
  constructor
  · rw [List.take_add, ← h, List.take_left]
  · rw [← List.drop_drop, ← h, List.drop_left]

theorem received_before (h : headEnd (stream.take a ++ piece) = none) :
    received { request := stream.take a, expected := expected } piece =
      (false, { request := stream.take a ++ piece, expected := expected }) := by
  unfold headEnd at h
  simp only [received, h]

theorem received_after (h : headEnd (stream.take a ++ piece) = some headersEnd) {expected' : ℕ}
    (hexpected : expected' = if expected = 0 then
      expectedLength (stream.take a ++ piece) headersEnd else expected) :
    received { request := stream.take a, expected := expected } piece =
      (decide (expected' ≤ (stream.take a ++ piece).length),
        { request := stream.take a ++ piece, expected := expected' }) := by
  unfold headEnd at h
  simp only [received, h, ← hexpected]

theorem receive_cons (hne : piece ≠ []) (reading : Reading) :
    receive .closed reading (piece :: pieces) =
      if (received reading piece).1 then .ok (received reading piece).2.request
      else receive .closed (received reading piece).2 pieces := by
  rw [receive, if_neg hne]
  rcases received reading piece with ⟨_ | _, reading'⟩ <;> rfl

theorem receive_before (h : headEnd stream = some headersEnd)
    (hcut : (piece :: pieces).flatten = stream.drop a) (hne : piece ≠ [])
    (hb : a + piece.length < headersEnd + 4) :
    receive .closed { request := stream.take a, expected := expected } (piece :: pieces) =
      receive .closed { request := stream.take (a + piece.length), expected := expected } pieces := by
  obtain ⟨htake, -⟩ := take_append_piece hcut
  have hnone := headEnd_take_of_lt h hb
  rw [← htake] at hnone
  rw [receive_cons hne, received_before hnone, htake]
  rfl

theorem receive_after (h : headEnd stream = some headersEnd)
    (hcut : (piece :: pieces).flatten = stream.drop a) (hne : piece ≠ [])
    (hb : headersEnd + 4 ≤ a + piece.length) (hlength : a + piece.length ≤ stream.length)
    {expected' : ℕ} (hexpected : expected' = if expected = 0 then
      expectedLength (stream.take (a + piece.length)) headersEnd else expected) :
    receive .closed { request := stream.take a, expected := expected } (piece :: pieces) =
      if expected' ≤ a + piece.length then .ok (stream.take (a + piece.length))
      else receive .closed
        { request := stream.take (a + piece.length), expected := expected' } pieces := by
  obtain ⟨htake, -⟩ := take_append_piece hcut
  have hsome := headEnd_take_of_le h hb
  rw [← htake] at hsome hexpected
  rw [receive_cons hne, received_after hsome hexpected, htake, List.length_take_of_le hlength]
  by_cases hdone : expected' ≤ a + piece.length <;> simp [hdone]

theorem length_piece_le (hcut : (piece :: pieces).flatten = stream.drop a) (ha : a ≤ stream.length) :
    a + piece.length ≤ stream.length := by
  have hlength := congrArg List.length hcut
  rw [List.flatten_cons, List.length_append, List.length_drop] at hlength
  omega

/-- After the blank line the loop goes on to the expected length, or to the end. -/
theorem receive_expected (h : headEnd stream = some headersEnd)
    (hcut : pieces.flatten = stream.drop a) (ha : a ≤ stream.length) (hb : headersEnd + 4 ≤ a)
    (hsizes : ∀ piece ∈ pieces, piece ≠ [] ∧ piece.length ≤ receiveBytes) (hexpected : a < expected) :
    ∃ stop, receive .closed { request := stream.take a, expected := expected } pieces =
        .ok (stream.take stop) ∧
      ((expected ≤ stop ∧ stop < expected + receiveBytes ∧ stop ≤ stream.length) ∨
        (stream.length < expected ∧ stop = stream.length)) := by
  induction pieces generalizing a with
  | nil =>
    have hend : stream.length ≤ a := List.drop_eq_nil_iff.mp hcut.symm
    refine ⟨a, rfl, .inr ⟨by omega, by omega⟩⟩
  | cons piece pieces ih =>
    obtain ⟨⟨hne, hsize⟩, hsizes⟩ := List.forall_mem_cons.mp hsizes
    have hlength := length_piece_le hcut ha
    have hnonzero : ¬ expected = 0 := by omega
    rw [receive_after h hcut hne (by omega) hlength (by rw [if_neg hnonzero])]
    split_ifs with hdone
    · exact ⟨_, rfl, .inl ⟨hdone, by omega, hlength⟩⟩
    · exact ih (take_append_piece hcut).2 hlength (by omega) hsizes (by omega)

/-- **The loop stops where it can.** -/
theorem receive_ends (h : headEnd stream = some headersEnd) (hcut : pieces.flatten = stream.drop a)
    (ha : a < headersEnd + 4) (hsizes : ∀ piece ∈ pieces, piece ≠ [] ∧ piece.length ≤ receiveBytes) :
    ∃ stop, receive .closed { request := stream.take a, expected := 0 } pieces =
      .ok (stream.take stop) ∧ Ends stream headersEnd stop := by
  have hhead := (headEnd_le h).2
  induction pieces generalizing a with
  | nil =>
    have hend : stream.length ≤ a := List.drop_eq_nil_iff.mp hcut.symm
    omega
  | cons piece pieces ih =>
    obtain ⟨⟨hne, hsize⟩, hsizes⟩ := List.forall_mem_cons.mp hsizes
    have hlength := length_piece_le hcut (by omega)
    by_cases hseen : a + piece.length < headersEnd + 4
    · rw [receive_before h hcut hne hseen]
      exact ih (take_append_piece hcut).2 hseen hsizes
    -- the blank line is seen with this piece
    rw [receive_after h hcut hne (by omega) hlength (by rw [if_pos rfl])]
    split_ifs with hdone
    · exact ⟨_, rfl, a + piece.length, by omega, by omega, hlength, .inl ⟨hdone, rfl⟩⟩
    obtain ⟨stop, hresult, hstop⟩ := receive_expected h (take_append_piece hcut).2 hlength
      (by omega) hsizes (not_le.mp hdone)
    refine ⟨stop, hresult, a + piece.length, by omega, by omega, hlength, .inr ?_⟩
    rcases hstop with hstop | hstop
    · exact .inl ⟨not_le.mp hdone, hstop⟩
    · exact .inr ⟨not_le.mp hdone, hstop⟩

theorem receive_all (h : headEnd stream = none) (hcut : pieces.flatten = stream.drop a)
    (hsizes : ∀ piece ∈ pieces, piece ≠ [] ∧ piece.length ≤ receiveBytes) :
    receive .closed { request := stream.take a, expected := 0 } pieces = .ok stream := by
  induction pieces generalizing a with
  | nil =>
    have hend : stream.length ≤ a := List.drop_eq_nil_iff.mp hcut.symm
    rw [receive, List.take_of_length_le hend]
  | cons piece pieces ih =>
    obtain ⟨⟨hne, hsize⟩, hsizes⟩ := List.forall_mem_cons.mp hsizes
    obtain ⟨htake, hrest⟩ := take_append_piece hcut
    have hnone : headEnd (stream.take a ++ piece) = none := by
      rw [htake, headEnd_take, h]
      rfl
    rw [receive_cons hne, received_before hnone, htake]
    exact ih hrest hsizes

/-! ## Cuts for every place -/

/-- A text byte by byte. -/
def bytePieces (text : List UInt8) : List (List UInt8) := text.map fun byte => [byte]

theorem flatten_bytePieces (text : List UInt8) : (bytePieces text).flatten = text := by
  induction text with
  | nil => rfl
  | cons byte text ih => exact congrArg (byte :: ·) ih

theorem sizes_bytePieces (text : List UInt8) :
    ∀ piece ∈ bytePieces text, piece ≠ [] ∧ piece.length ≤ receiveBytes := by
  intro piece hpiece
  obtain ⟨byte, -, rfl⟩ := List.mem_map.mp hpiece
  exact ⟨List.cons_ne_nil _ _, Nat.succ_le_of_lt (by decide)⟩

/-- The bytes of a stream from one place to another. -/
def part (stream : List UInt8) (a b : ℕ) : List UInt8 := (stream.drop a).take (b - a)

theorem part_append_drop (stream : List UInt8) (hab : a ≤ b) :
    part stream a b ++ stream.drop b = stream.drop a := by
  have hdrop : stream.drop b = (stream.drop a).drop (b - a) := by
    rw [List.drop_drop, Nat.add_sub_cancel' hab]
  rw [part, hdrop, List.take_append_drop]

theorem length_part (hb : b ≤ stream.length) : (part stream a b).length = b - a := by
  rw [part, List.length_take_of_le]
  rw [List.length_drop]
  omega

/-- Bytes that arrive one by one are each received as `hstep` says. -/
theorem receive_bytes {text : List UInt8} (hcut : text ++ pieces.flatten = stream.drop a)
    (hstep : ∀ i byte rest, i < a + text.length → ([byte] :: rest).flatten = stream.drop i → a ≤ i →
      receive .closed { request := stream.take i, expected := expected } ([byte] :: rest) =
        receive .closed { request := stream.take (i + 1), expected := expected } rest) :
    receive .closed { request := stream.take a, expected := expected } (bytePieces text ++ pieces) =
      receive .closed { request := stream.take (a + text.length), expected := expected } pieces := by
  induction text generalizing a with
  | nil => rfl
  | cons byte text ih =>
    have hfirst : ([byte] :: (bytePieces text ++ pieces)).flatten = stream.drop a := by
      rw [← hcut, List.flatten_cons, List.flatten_append, flatten_bytePieces]
      rfl
    obtain ⟨-, hrest⟩ := take_append_piece hfirst
    rw [List.flatten_append, flatten_bytePieces, List.length_singleton] at hrest
    rw [List.length_cons] at hstep ⊢
    show receive .closed _ ([byte] :: (bytePieces text ++ pieces)) = _
    rw [hstep a _ _ (by omega) hfirst le_rfl,
      ih hrest fun i byte rest hi hcut hle => hstep i byte rest (by omega) hcut (by omega)]
    congr 3
    omega

theorem receive_bytes_before (h : headEnd stream = some headersEnd) {text : List UInt8}
    (hcut : text ++ pieces.flatten = stream.drop a) (hb : a + text.length < headersEnd + 4) :
    receive .closed { request := stream.take a, expected := expected } (bytePieces text ++ pieces) =
      receive .closed { request := stream.take (a + text.length), expected := expected } pieces :=
  receive_bytes hcut fun i byte rest hi hcut _ =>
    receive_before h hcut (List.cons_ne_nil _ _) (by rw [List.length_singleton]; omega)

theorem receive_bytes_expected (h : headEnd stream = some headersEnd) {text : List UInt8}
    (hcut : text ++ pieces.flatten = stream.drop a)
    (hhead : headersEnd + 4 ≤ a) (hb : a + text.length < expected) :
    receive .closed { request := stream.take a, expected := expected } (bytePieces text ++ pieces) =
      receive .closed { request := stream.take (a + text.length), expected := expected } pieces := by
  refine receive_bytes hcut fun i byte rest hi hcut hle => ?_
  have hlength := congrArg List.length hcut
  rw [List.flatten_cons, List.length_append, List.length_singleton, List.length_drop] at hlength
  rw [receive_after h hcut (List.cons_ne_nil _ _) (by rw [List.length_singleton]; omega)
    (by rw [List.length_singleton]; omega) (by rw [if_neg (by omega)]), List.length_singleton,
    if_neg (by omega)]

theorem exists_cut_after (h : headEnd stream = some headersEnd) {seen : ℕ}
    (hseen : headersEnd + 4 ≤ seen) (hlength : seen ≤ stream.length) (hexpected : seen < expected)
    {stop : ℕ} (hstop : (expected ≤ stop ∧ stop < expected + receiveBytes ∧ stop ≤ stream.length) ∨
      (stream.length < expected ∧ stop = stream.length)) :
    ∃ pieces : List (List UInt8), pieces.flatten = stream.drop seen ∧
      (∀ piece ∈ pieces, piece ≠ [] ∧ piece.length ≤ receiveBytes) ∧
      receive .closed { request := stream.take seen, expected := expected } pieces =
        .ok (stream.take stop) := by
  rcases hstop with ⟨hle, hlt, hend⟩ | ⟨hlarge, rfl⟩
  · -- byte by byte up to the last byte before the expected length, then one piece
    have hlast : (part stream (expected - 1) stop).length = stop - (expected - 1) := length_part hend
    have hbefore : (part stream seen (expected - 1)).length = expected - 1 - seen :=
      length_part (by omega)
    have hpiece : (part stream (expected - 1) stop :: bytePieces (stream.drop stop)).flatten =
        stream.drop (expected - 1) := by
      rw [List.flatten_cons, flatten_bytePieces, part_append_drop _ (by omega)]
    have hne : part stream (expected - 1) stop ≠ [] := by
      rw [← List.length_pos_iff, hlast]
      omega
    refine ⟨bytePieces (part stream seen (expected - 1)) ++
      part stream (expected - 1) stop :: bytePieces (stream.drop stop), ?_, ?_, ?_⟩
    · rw [List.flatten_append, flatten_bytePieces, hpiece, part_append_drop _ (by omega)]
    · refine List.forall_mem_append.mpr ⟨sizes_bytePieces _, List.forall_mem_cons.mpr ⟨⟨hne, ?_⟩,
        sizes_bytePieces _⟩⟩
      rw [hlast]
      omega
    · rw [receive_bytes_expected h (by rw [hpiece, part_append_drop _ (by omega)]) hseen
        (by rw [hbefore]; omega), hbefore]
      have hsum : seen + (expected - 1 - seen) = expected - 1 := by omega
      have hsum' : expected - 1 + (stop - (expected - 1)) = stop := by omega
      have hnonzero : ¬ expected = 0 := by omega
      rw [hsum, receive_after h hpiece hne (by rw [hlast]; omega) (by rw [hlast]; omega)
        (by rw [if_neg hnonzero]), hlast, hsum', if_pos hle]
  · refine ⟨bytePieces (stream.drop seen), flatten_bytePieces _, sizes_bytePieces _, ?_⟩
    have hrest : (stream.drop seen).length = stream.length - seen := List.length_drop
    have hcut : stream.drop seen ++ List.flatten [] = stream.drop seen := List.append_nil _
    have hshort : seen + (stream.drop seen).length < expected := by
      rw [hrest]
      omega
    have hrun := receive_bytes_expected h hcut hseen hshort
    rw [List.append_nil, hrest, Nat.add_sub_cancel' hlength] at hrun
    rw [hrun]
    rfl

/-- **Everywhere that the loop can stop it does, for some cut.** -/
theorem exists_cut (h : headEnd stream = some headersEnd) {stop : ℕ}
    (hends : Ends stream headersEnd stop) :
    ∃ pieces, Cuts stream pieces ∧
      receive .closed { request := [], expected := 0 } pieces = .ok (stream.take stop) := by
  obtain ⟨seen, hseen, hnear, hlength, hends⟩ := hends
  dsimp only at hends
  generalize hexpected : expectedLength (stream.take seen) headersEnd = expected at hends
  -- byte by byte up to the last byte of the blank line, and then up to where it is seen
  have hbefore : (stream.take (headersEnd + 3)).length = headersEnd + 3 :=
    List.length_take_of_le (by omega)
  have hpiece : (part stream (headersEnd + 3) seen).length = seen - (headersEnd + 3) :=
    length_part hlength
  have hne : part stream (headersEnd + 3) seen ≠ [] := by
    rw [← List.length_pos_iff, hpiece]
    omega
  have hsum : headersEnd + 3 + (seen - (headersEnd + 3)) = seen := by omega
  have hfirst (pieces : List (List UInt8)) : pieces.flatten = stream.drop seen →
      (part stream (headersEnd + 3) seen :: pieces).flatten = stream.drop (headersEnd + 3) := by
    intro hpieces
    rw [List.flatten_cons, hpieces, part_append_drop _ (by omega)]
  obtain ⟨pieces, hpieces, hsizes, hrest⟩ : ∃ pieces : List (List UInt8),
      pieces.flatten = stream.drop seen ∧
      (∀ piece ∈ pieces, piece ≠ [] ∧ piece.length ≤ receiveBytes) ∧
      (if expected ≤ seen then .ok (stream.take seen)
        else receive .closed { request := stream.take seen, expected := expected } pieces) =
        .ok (stream.take stop) := by
    rcases hends with ⟨hdone, rfl⟩ | ⟨hwait, hstop⟩ | ⟨hwait, hstop⟩
    · exact ⟨bytePieces (stream.drop stop), flatten_bytePieces _, sizes_bytePieces _, by rw [if_pos hdone]⟩
    · obtain ⟨pieces, hpieces, hsizes, hrun⟩ := exists_cut_after h hseen hlength hwait (.inl hstop)
      exact ⟨pieces, hpieces, hsizes, by rw [if_neg (not_le.mpr hwait), hrun]⟩
    · obtain ⟨pieces, hpieces, hsizes, hrun⟩ := exists_cut_after h hseen hlength hwait (.inr hstop)
      exact ⟨pieces, hpieces, hsizes, by rw [if_neg (not_le.mpr hwait), hrun]⟩
  have hall := hfirst pieces hpieces
  refine ⟨bytePieces (stream.take (headersEnd + 3)) ++ part stream (headersEnd + 3) seen :: pieces,
    ⟨?_, ?_⟩, ?_⟩
  · rw [List.flatten_append, flatten_bytePieces, hall, List.take_append_drop]
  · refine List.forall_mem_append.mpr ⟨sizes_bytePieces _, List.forall_mem_cons.mpr ⟨⟨hne, ?_⟩, hsizes⟩⟩
    rw [hpiece]
    omega
  have hcut : stream.take (headersEnd + 3) ++
      (part stream (headersEnd + 3) seen :: pieces).flatten = stream.drop 0 := by
    rw [hall, List.take_append_drop, List.drop_zero]
  have hrun := @receive_bytes_before stream headersEnd 0 _ 0 h _ hcut (by rw [hbefore]; omega)
  rw [List.take_zero, Nat.zero_add, hbefore] at hrun
  rw [hrun, receive_after h hall hne (by rw [hpiece]; omega) (by rw [hpiece]; omega)
    (by rw [if_pos rfl, hpiece, hsum, hexpected]), hpiece, hsum]
  exact hrest

end

theorem exists_ends (h : headEnd stream = some headersEnd) :
    ∃ stop, Ends stream headersEnd stop := by
  have hhead := (headEnd_le h).2
  have hnear : headersEnd + 4 < headersEnd + 4 + receiveBytes := by simp [receiveBytes]
  by_cases hdone : expectedLength (stream.take (headersEnd + 4)) headersEnd ≤ headersEnd + 4
  · exact ⟨_, headersEnd + 4, le_rfl, hnear, hhead, .inl ⟨hdone, rfl⟩⟩
  · by_cases hend : stream.length < expectedLength (stream.take (headersEnd + 4)) headersEnd
    · exact ⟨_, headersEnd + 4, le_rfl, hnear, hhead, .inr (.inr ⟨not_le.mp hdone, hend, rfl⟩)⟩
    · exact ⟨_, headersEnd + 4, le_rfl, hnear, hhead,
        .inr (.inl ⟨not_le.mp hdone, le_rfl, by simp [receiveBytes], not_lt.mp hend⟩)⟩

theorem Ends.le (h : Ends stream headersEnd b) : headersEnd + 4 ≤ b ∧ b ≤ stream.length := by
  obtain ⟨seen, hseen, -, hlength, hends⟩ := h
  dsimp only at hends
  rcases hends with ⟨-, rfl⟩ | ⟨hwait, hle, -, hend⟩ | ⟨-, -, rfl⟩
  · exact ⟨hseen, hlength⟩
  · exact ⟨by omega, hend⟩
  · exact ⟨by omega, le_rfl⟩

theorem exists_ends_ge {seen : ℕ} (hseen : headersEnd + 4 ≤ seen)
    (hnear : seen < headersEnd + 4 + receiveBytes) (hlength : seen ≤ stream.length) :
    ∃ stop, seen ≤ stop ∧ Ends stream headersEnd stop := by
  by_cases hdone : expectedLength (stream.take seen) headersEnd ≤ seen
  · exact ⟨_, le_rfl, seen, hseen, hnear, hlength, .inl ⟨hdone, rfl⟩⟩
  · by_cases hend : stream.length < expectedLength (stream.take seen) headersEnd
    · exact ⟨_, hlength, seen, hseen, hnear, hlength, .inr (.inr ⟨not_le.mp hdone, hend, rfl⟩)⟩
    · exact ⟨_, (not_le.mp hdone).le, seen, hseen, hnear, hlength,
        .inr (.inl ⟨not_le.mp hdone, le_rfl, by simp [receiveBytes], not_lt.mp hend⟩)⟩

/-- **A loop that can stop before the end of the stream can stop elsewhere too.** -/
theorem exists_other_end (h : headEnd stream = some headersEnd) (hlt : b < stream.length) :
    ∃ stop, Ends stream headersEnd stop ∧ stop ≠ b := by
  have hhead := (headEnd_le h).2
  have hnear : headersEnd + 4 < headersEnd + 4 + receiveBytes := by simp [receiveBytes]
  have hnear' : headersEnd + 4 + 1 < headersEnd + 4 + receiveBytes := by simp [receiveBytes]
  by_cases hdone : expectedLength (stream.take (headersEnd + 4)) headersEnd ≤ headersEnd + 4
  · -- the loop can stop right behind the blank line, or a byte later
    by_cases hb : b = headersEnd + 4
    · obtain ⟨stop, hge, hstop⟩ :=
        exists_ends_ge (Nat.le_succ _) hnear' (show headersEnd + 4 + 1 ≤ stream.length by omega)
      exact ⟨stop, hstop, by omega⟩
    · exact ⟨headersEnd + 4, ⟨headersEnd + 4, le_rfl, hnear, hhead, .inl ⟨hdone, rfl⟩⟩, Ne.symm hb⟩
  rw [not_le] at hdone
  generalize hexpected : expectedLength (stream.take (headersEnd + 4)) headersEnd = expected at hdone
  have hends (stop) : expected ≤ stop → stop < expected + receiveBytes → stop ≤ stream.length →
      Ends stream headersEnd stop := by
    intro hle hnear' hend
    refine ⟨headersEnd + 4, le_rfl, hnear, hhead, ?_⟩
    dsimp only
    rw [hexpected]
    exact .inr (.inl ⟨hdone, hle, hnear', hend⟩)
  by_cases hend : stream.length < expected
  · refine ⟨stream.length, ⟨headersEnd + 4, le_rfl, hnear, hhead, ?_⟩, by omega⟩
    dsimp only
    rw [hexpected]
    exact .inr (.inr ⟨hdone, hend, rfl⟩)
  · by_cases hb : b = expected
    · exact ⟨expected + 1, hends _ (Nat.le_succ _) (by simp [receiveBytes]) (by omega), by omega⟩
    · exact ⟨expected, hends _ le_rfl (by simp [receiveBytes]) (not_lt.mp hend), Ne.symm hb⟩

/-! ## What a place gives -/

/-- What `accept` returns when the loop has stopped. -/
def outcome (client : ℕ) (buffer : List UInt8) : Except HttpError HttpExchange :=
  match parseRequest buffer with
  | .error message => .error (acceptError message)
  | .ok request => .ok { handle := client, request := request }

theorem accept_eq (handle : ℕ) {client : ℕ} {pieces : List (List UInt8)} {buffer : List UInt8}
    (h : receive .closed { request := [], expected := 0 } pieces = .ok buffer) :
    accept { handle := some handle } (.accepted client pieces .closed) = outcome client buffer := by
  rw [accept, if_neg (by simp)]
  simp only [h]
  rfl

theorem cstring_take_drop (stream : List UInt8) (headersEnd b : ℕ) :
    cstring ((stream.take b).drop (headersEnd + 4)) =
      (cstring (stream.drop (headersEnd + 4))).take (b - (headersEnd + 4)) := by
  rw [List.drop_take, cstring_take]

theorem parseRequest_of_parts (h : headEnd stream = some headersEnd) {method path : List UInt8}
    (hparts : requestLineParts (requestLine (stream.take headersEnd)) = some (method, path))
    (hb : headersEnd + 4 ≤ b) :
    parseRequest (stream.take b) =
      .ok { method := method, path := path, body := cstring ((stream.take b).drop (headersEnd + 4)) } := by
  have hhead : stream.take headersEnd <+: cstring (stream.take b) := by
    obtain ⟨tail, htail⟩ := cstring_isPrefix stream
    have hle := (headEnd_le h).1
    have htake : stream.take headersEnd = (cstring stream).take headersEnd := by
      conv_lhs => rw [← htail]
      exact List.take_append_of_le_length (by omega)
    rw [htake, cstring_take]
    exact List.take_prefix_take_left (by omega)
  obtain ⟨rest, rest', hmethod, hpath⟩ :=
    requestLineParts_of_prefix hparts ((requestLine_isPrefix _).trans hhead)
  have hend : strstr blankLine (cstring (stream.take b)) = some headersEnd := headEnd_take_of_le h hb
  rw [parseRequest_eq, hmethod]
  simp only [hpath, hend]

/-- The error of a request with fewer than two spaces. -/
def spacesError : ℕ → String
  | 0 => "invalid HTTP request line"
  | _ => "invalid HTTP request path"

theorem parseRequest_of_count {buffer : List UInt8} (h : (cstring buffer).count space < 2) :
    parseRequest buffer = .error (spacesError ((cstring buffer).count space)) := by
  rw [parseRequest_eq]
  cases hmethod : cutAt space (cstring buffer) with
  | none => rw [cutAt_eq_none_iff.mp hmethod]; rfl
  | some parts =>
    obtain ⟨method, rest⟩ := parts
    have hcount := count_of_cutAt hmethod
    have hrest : cutAt space rest = none := by
      rw [cutAt_eq_none_iff]
      dsimp only at hcount
      omega
    have hone : (cstring buffer).count space = 1 := by
      rw [hcount, cutAt_eq_none_iff.mp hrest]
    simp only [hrest, hone]
    rfl

theorem parseRequest_of_two {buffer : List UInt8} (h : 2 ≤ (cstring buffer).count space)
    {headersEnd : ℕ} (hend : headEnd buffer = some headersEnd) :
    ∃ request, parseRequest buffer = .ok request := by
  rw [parseRequest_eq]
  cases hmethod : cutAt space (cstring buffer) with
  | none =>
    rw [cutAt_eq_none_iff.mp hmethod] at h
    exact absurd h (by decide)
  | some parts =>
    obtain ⟨method, rest⟩ := parts
    have hcount := count_of_cutAt hmethod
    cases hpath : cutAt space rest with
    | none =>
      rw [hcount, cutAt_eq_none_iff.mp hpath] at h
      exact absurd h (by decide)
    | some parts' =>
      have hfound : strstr blankLine (cstring buffer) = some headersEnd := hend
      simp only [hpath, hfound]
      exact ⟨_, rfl⟩

/-! ## The condition -/

/-- A stream whose request is the same wherever the loop stops: its body, up to the first zero byte, has
the length that its field gives, and the loop does not stop before the end of that; or its request line
has fewer than two spaces, and as many of them can be seen everywhere. -/
def Unambiguous (stream : List UInt8) : Prop :=
  ∀ headersEnd, headEnd stream = some headersEnd →
    (∃ method path length, headOf (stream.take headersEnd) = some (method, path, length) ∧
      (cstring (stream.drop (headersEnd + 4))).length = length ∧
      ∀ stop, Ends stream headersEnd stop → headersEnd + 4 + length ≤ stop) ∨
    (requestLineParts (requestLine (stream.take headersEnd)) = none ∧
      ∃ spaces < 2, ∀ stop, Ends stream headersEnd stop →
        (cstring (stream.take stop)).count space = spaces)

section

variable {handle client : ℕ}

theorem request_of_headEnd_none (h : headEnd stream = none) : request stream = none := by
  unfold headEnd at h
  simp only [request, h]

theorem request_of_headOf_none (h : headEnd stream = some headersEnd)
    (hhead : headOf (stream.take headersEnd) = none) : request stream = none := by
  unfold headEnd at h
  simp only [request, h, hhead]

theorem request_of_headOf (h : headEnd stream = some headersEnd) {method path : List UInt8} {length : ℕ}
    (hhead : headOf (stream.take headersEnd) = some (method, path, length)) :
    request stream = if length ≤ (stream.drop (headersEnd + 4)).length then
      some { method, path, body := (stream.drop (headersEnd + 4)).take length } else none := by
  unfold headEnd at h
  simp only [request, h, hhead]

theorem ReadsExactly.at_stop (h : ReadsExactly handle client stream)
    (hend : headEnd stream = some headersEnd) (hb : Ends stream headersEnd b) :
    IsReading client stream (outcome client (stream.take b)) ∧
      ∀ a, Ends stream headersEnd a →
        outcome client (stream.take a) = outcome client (stream.take b) := by
  obtain ⟨pieces, hcuts, hrun⟩ := exists_cut hend hb
  constructor
  · rw [← accept_eq handle hrun]
    exact h.exact' pieces hcuts
  · intro a ha
    obtain ⟨pieces', hcuts', hrun'⟩ := exists_cut hend ha
    rw [← accept_eq handle hrun, ← accept_eq handle hrun']
    exact h.same pieces' pieces hcuts' hcuts

/-- A request that is read exactly is unambiguous: the case of a good request line. -/
theorem ReadsExactly.fits (h : ReadsExactly handle client stream)
    (hend : headEnd stream = some headersEnd) {method path : List UInt8}
    (hparts : requestLineParts (requestLine (stream.take headersEnd)) = some (method, path)) :
    ∃ method path length, headOf (stream.take headersEnd) = some (method, path, length) ∧
      (cstring (stream.drop (headersEnd + 4))).length = length ∧
      ∀ stop, Ends stream headersEnd stop → headersEnd + 4 + length ≤ stop := by
  -- wherever the loop stops, the stream says what is copied there
  have hbody : ∀ stop, Ends stream headersEnd stop → request stream = some
      { method, path,
        body := (cstring (stream.drop (headersEnd + 4))).take (stop - (headersEnd + 4)) } := by
    intro stop hstop
    have hreading := (h.at_stop hend hstop).1
    rw [outcome, parseRequest_of_parts hend hparts hstop.le.1, cstring_take_drop] at hreading
    unfold IsReading at hreading
    cases hrequest : request stream with
    | none =>
      rw [hrequest] at hreading
      obtain ⟨error, herror⟩ := hreading
      cases herror
    | some request =>
      rw [hrequest] at hreading
      cases hreading
      rfl
  obtain ⟨stop, hstop⟩ := exists_ends hend
  cases hhead : headOf (stream.take headersEnd) with
  | none =>
    have hnone := request_of_headOf_none hend hhead
    rw [hbody stop hstop] at hnone
    cases hnone
  | some head =>
    obtain ⟨method', path', length⟩ := head
    have hlengths (stop) : Ends stream headersEnd stop →
        min (stop - (headersEnd + 4)) (cstring (stream.drop (headersEnd + 4))).length = length := by
      intro hstop
      have hrequest := request_of_headOf hend hhead
      rw [hbody stop hstop] at hrequest
      split_ifs at hrequest with hle
      injection hrequest with hrequest
      have hlength := congrArg (fun request => request.body.length) hrequest
      rwa [List.length_take, List.length_take_of_le hle] at hlength
    refine ⟨method', path', length, rfl, ?_, ?_⟩
    · by_contra hne
      -- otherwise the loop stops at one place only, which is not the end
      have hle := hlengths stop hstop
      have hrest : (cstring (stream.drop (headersEnd + 4))).length ≤
          stream.length - (headersEnd + 4) := by
        have hbegins := (cstring_isPrefix (stream.drop (headersEnd + 4))).length_le
        rwa [List.length_drop] at hbegins
      have hstop' := hstop.le
      obtain ⟨other, hother, hne'⟩ := exists_other_end hend (show stop < stream.length by omega)
      have hle' := hlengths other hother
      have hother' := hother.le
      omega
    · intro stop hstop
      have hle := hlengths stop hstop
      have hstop' := hstop.le
      omega

theorem ReadsExactly.refused (h : ReadsExactly handle client stream)
    (hend : headEnd stream = some headersEnd)
    (hparts : requestLineParts (requestLine (stream.take headersEnd)) = none) :
    ∃ spaces < 2, ∀ stop, Ends stream headersEnd stop →
      (cstring (stream.take stop)).count space = spaces := by
  have hrequest : request stream = none := by
    refine request_of_headOf_none hend ?_
    cases hhead : headOf (stream.take headersEnd) with
    | none => rfl
    | some head =>
      rw [headOf_request hhead] at hparts
      cases hparts
  have hcount (stop) : Ends stream headersEnd stop → (cstring (stream.take stop)).count space < 2 := by
    intro hstop
    by_contra htwo
    obtain ⟨request, hparse⟩ := parseRequest_of_two (not_lt.mp htwo)
      (headEnd_take_of_le hend hstop.le.1)
    have hreading := (h.at_stop hend hstop).1
    rw [IsReading, hrequest, outcome, hparse] at hreading
    obtain ⟨error, herror⟩ := hreading
    cases herror
  obtain ⟨stop, hstop⟩ := exists_ends hend
  refine ⟨_, hcount stop hstop, ?_⟩
  intro other hother
  have hsame := (h.at_stop hend hstop).2 other hother
  have hone := hcount stop hstop
  have hone' := hcount other hother
  rw [outcome, outcome, parseRequest_of_count hone, parseRequest_of_count hone'] at hsame
  -- the two errors tell no space from one
  generalize (cstring (stream.take stop)).count space = spaces at hone hsame ⊢
  generalize (cstring (stream.take other)).count space = spaces' at hone' hsame ⊢
  interval_cases spaces <;> interval_cases spaces' <;> simp_all [spacesError, acceptError]

/-- **A stream is read exactly, and the same however it is cut, exactly when it is unambiguous.** -/
theorem readsExactly_iff (handle client : ℕ) (stream : List UInt8) :
    ReadsExactly handle client stream ↔ Unambiguous stream := by
  constructor
  · intro h headersEnd hend
    cases hparts : requestLineParts (requestLine (stream.take headersEnd)) with
    | none => exact .inr ⟨rfl, h.refused hend hparts⟩
    | some parts => exact .inl (h.fits hend hparts)
  intro h
  -- one result for all the cuts, and the one that the stream says
  suffices hresult : ∃ result, IsReading client stream result ∧ ∀ pieces, Cuts stream pieces →
      accept { handle := some handle } (.accepted client pieces .closed) = result by
    obtain ⟨result, hreading, hall⟩ := hresult
    constructor
    · intro pieces pieces' hcuts hcuts'
      rw [hall pieces hcuts, hall pieces' hcuts']
    · intro pieces hcuts
      rw [hall pieces hcuts]
      exact hreading
  cases hend : headEnd stream with
  | none =>
    have hall : ∀ pieces, Cuts stream pieces →
        receive .closed { request := [], expected := 0 } pieces = .ok stream := by
      intro pieces hcuts
      have hrun := receive_all (a := 0) hend (by rw [hcuts.flatten, List.drop_zero]) hcuts.sizes
      rwa [List.take_zero] at hrun
    refine ⟨outcome client stream, ?_, fun pieces hcuts => accept_eq _ (hall pieces hcuts)⟩
    rw [IsReading, request_of_headEnd_none hend, outcome, parseRequest_eq]
    have hnone : strstr blankLine (cstring stream) = none := hend
    simp only [hnone]
    split
    · exact ⟨_, rfl⟩
    · next hparse =>
      split at hparse
      · cases hparse
      · split at hparse <;> cases hparse
  | some headersEnd =>
    have hall : ∀ pieces, Cuts stream pieces → ∃ stop, Ends stream headersEnd stop ∧
        accept { handle := some handle } (.accepted client pieces .closed) =
          outcome client (stream.take stop) := by
      intro pieces hcuts
      obtain ⟨stop, hrun, hstop⟩ := receive_ends (a := 0) hend
        (by rw [hcuts.flatten, List.drop_zero]) (by omega) hcuts.sizes
      rw [List.take_zero] at hrun
      exact ⟨stop, hstop, accept_eq _ hrun⟩
    rcases h headersEnd hend with ⟨method, path, length, hhead, hlength, hstops⟩ |
      ⟨hparts, spaces, hspaces, hstops⟩
    · have hbegins := cstring_isPrefix (stream.drop (headersEnd + 4))
      have hbody : (stream.drop (headersEnd + 4)).take length = cstring (stream.drop (headersEnd + 4)) := by
        rw [← hlength]
        exact (List.prefix_iff_eq_take.mp hbegins).symm
      refine ⟨.ok { handle := client, request :=
        { method, path, body := cstring (stream.drop (headersEnd + 4)) } }, ?_, ?_⟩
      · rw [IsReading, request_of_headOf hend hhead, hbody,
          if_pos (by rw [← hlength]; exact hbegins.length_le)]
      intro pieces hcuts
      obtain ⟨stop, hstop, haccept⟩ := hall pieces hcuts
      have hle := hstops stop hstop
      rw [haccept, outcome, parseRequest_of_parts hend (headOf_request hhead) hstop.le.1,
        cstring_take_drop, List.take_of_length_le (by omega)]
    · have hrequest : request stream = none := by
        refine request_of_headOf_none hend ?_
        cases hhead : headOf (stream.take headersEnd) with
        | none => rfl
        | some head =>
          rw [headOf_request hhead] at hparts
          cases hparts
      refine ⟨.error (acceptError (spacesError spaces)), ?_, ?_⟩
      · rw [IsReading, hrequest]
        exact ⟨_, rfl⟩
      · intro pieces hcuts
        obtain ⟨stop, hstop, haccept⟩ := hall pieces hcuts
        have hcount := hstops stop hstop
        rw [haccept, outcome, parseRequest_of_count (by omega), hcount]

end

/-- **A byte behind a request without a body** is its body if it comes with the blank line, and is not if
it comes after it. -/
theorem extra_byte_misread :
    ¬ ∀ (handle client : ℕ) (stream : List UInt8), ReadsExactly handle client stream := by
  intro hclaim
  have hcuts : Cuts (ascii "GET / HTTP/1.1\r\n\r\nx") [ascii "GET / HTTP/1.1\r\n\r\nx"] :=
    ⟨by decide, by decide⟩
  have hcuts' : Cuts (ascii "GET / HTTP/1.1\r\n\r\nx") [ascii "GET / HTTP/1.1\r\n\r\n", ascii "x"] :=
    ⟨by decide, by decide⟩
  have h := (hclaim 3 4 (ascii "GET / HTTP/1.1\r\n\r\nx")).same _ _ hcuts hcuts'
  revert h
  decide +kernel

end Nomo.Streams
