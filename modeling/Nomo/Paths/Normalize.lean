import Nomo.Paths.Parts

/-!
# The normaliser computes the normal form

Between two segments the buffer holds the moves so far, written out, and the two stacks hold where each
segment starts and how long it is (`Tracks`).  One segment does to the moves what `Moves.push` does
(`normalizeSegment_tracks`), and the loop does it for all of them (`normalizeLoop_tracks`).  What is in
the buffer and what is left of the path are together at most one byte longer than the path, so every
write is inside.
-/

namespace Nomo.Paths

open Nomo.Lib Nomo.Lib.Block

variable {path data : Block UInt8} {text before segment after : List UInt8} {absolute : Bool} {len : Nat}
  {ms : List (Move (List UInt8))} {move : Move (List UInt8)} {s : Normalizer}

/-! ## Reading segments -/

theorem isDot_of_holds (h : Holds data (before ++ segment ++ after)) :
    isDot data before.length segment.length = some (decide (segment = [dot])) := by
  rw [isDot]
  split
  · next hlen =>
    obtain ⟨c, rfl⟩ := List.length_eq_one_iff.1 hlen
    rw [List.append_assoc] at h
    rw [load_append _ _ h rfl, Option.map_some]
    simp [beq_eq_decide]
  · next hlen =>
    have hne : segment ≠ [dot] := by
      rintro rfl
      exact hlen rfl
    simp [hne]

variable (before segment after) in
theorem isDotDot_of_holds (h : Holds data (before ++ segment ++ after)) :
    isDotDot data before.length segment.length = some (decide (segment = [dot, dot])) := by
  rw [isDotDot]
  by_cases hlen : segment.length = 2
  · obtain ⟨c, d, rfl⟩ := List.length_eq_two.1 hlen
    have hc := load_append before ([c, d] ++ after) (by simpa using h) rfl
    have hd := load_append (before ++ [c]) ([d] ++ after) (by simpa using h) rfl
    rw [List.length_append, List.length_singleton] at hd
    by_cases hdot : c = dot <;> simp [hc, hd, hdot, beq_eq_decide]
  · have hne : segment ≠ [dot, dot] := by
      rintro rfl
      exact hlen rfl
    simp [hlen, hne]

theorem scanWhile_of_holds {p : UInt8 → Bool} (before run after : List UInt8)
    (h : Holds data (before ++ run ++ after)) (hrun : ∀ c ∈ run, p c = true)
    (hafter : ∀ c, after.head? = some c → p c = false) :
    scanWhile p data (before ++ run ++ after).length before.length = some (before.length + run.length) := by
  induction run generalizing before with
  | nil =>
    rw [scanWhile]
    cases after with
    | nil => simp
    | cons c after =>
      have hload := load_append before (c :: after) (by simpa using h) rfl
      simp [hload, hafter c rfl]
  | cons c run ih =>
    have hload := load_append before (c :: run ++ after) (by simpa using h) rfl
    have ih := ih (before ++ [c]) (by simpa using h) fun d hd => hrun d (by simp [hd])
    rw [scanWhile, if_pos (by simp), hload, Option.bind_eq_bind, Option.bind_some,
      if_pos (hrun c (by simp))]
    have htext : before ++ [c] ++ run ++ after = before ++ c :: run ++ after := by simp
    have hone : (before ++ [c]).length = before.length + 1 := by simp
    rw [htext, hone] at ih
    rw [ih, List.length_cons]
    congr 1
    omega

/-! ## The stacks -/

/-- Where the segments of written moves start, the slash before them included. -/
def boundaries (absolute : Bool) (ms : List (Move (List UInt8))) : List Nat :=
  (List.range ms.length).map fun i => (render absolute (ms.take i)).length

theorem boundaries_snoc : boundaries absolute (ms ++ [move]) =
    boundaries absolute ms ++ [(render absolute ms).length] := by
  rw [boundaries, List.length_append, List.length_singleton, List.range_succ, List.map_append,
    List.map_singleton, List.take_left']
  · congr 1
    refine List.map_congr_left fun i hi => ?_
    rw [List.take_append_of_le_length (List.mem_range.1 hi).le]
  · rfl

theorem length_boundaries : (boundaries absolute ms).length = ms.length := by simp [boundaries]

/-- The locals of the normaliser while these moves are left. -/
structure Tracks (absolute : Bool) (len : Nat) (s : Normalizer) (ms : List (Move (List UInt8))) :
    Prop where
  out : Holds s.out (render absolute ms)
  outLen : s.outLen = (render absolute ms).length
  starts : Holds s.starts (boundaries absolute ms)
  lens : Holds s.lens (ms.map fun move => (segmentOf move).length)
  count : s.count = ms.length
  proper : ∀ move ∈ ms, Proper move
  outSize : s.out.length = len + 2
  startsSize : s.starts.length = len + 1
  lensSize : s.lens.length = len + 1

theorem last_segment (h : Proper move) :
    ∃ first last, segmentOf move = first ++ [last] ∧ last ≠ slash := by
  obtain ⟨hne, hslash⟩ := segment_ne h
  obtain ⟨first, last, hsegment⟩ := List.eq_nil_or_concat _ |>.resolve_left hne
  refine ⟨first, last, by simpa using hsegment, ?_⟩
  rintro rfl
  exact hslash (by simp [hsegment])

/-- A slash is needed unless nothing has been written, or the root alone. -/
theorem needsSep_of_tracks (h : Tracks absolute len s ms) :
    (if 0 < s.outLen then (load s.out (s.outLen - 1)).map (· != slash) else some false)
      = some (decide (ms ≠ [])) := by
  have hout := h.out
  rw [h.outLen]
  induction ms using List.reverseRecOn with
  | nil =>
    cases absolute with
    | false => rfl
    | true =>
      have hload := load_append [] [slash] hout rfl
      rw [List.length_nil] at hload
      simp [render_nil, hload]
  | append_singleton ms move _ =>
    obtain ⟨first, last, hsegment, hlast⟩ := last_segment (h.proper move (by simp))
    rw [render_snoc, hsegment, ← List.append_assoc] at hout ⊢
    have hload := load_append _ _ hout rfl
    rw [if_pos (by simp), List.length_append, List.length_singleton, Nat.add_sub_cancel, hload]
    simp [hlast]

variable (absolute ms move) in
theorem length_render_snoc : (render absolute (ms ++ [move])).length =
    (render absolute ms).length + (decide (ms ≠ [])).toNat + (segmentOf move).length := by
  rw [render_snoc]
  by_cases h : ms = []
  · simp [h]
  · simp [h]
    omega

variable (absolute) in
theorem length_le_render (h : ∀ move ∈ ms, Proper move) : ms.length ≤ (render absolute ms).length := by
  induction ms using List.reverseRecOn with
  | nil => exact Nat.zero_le _
  | append_singleton ms move ih =>
    have hpos := List.length_pos_of_ne_nil (segment_ne (h move (by simp))).1
    have ih := ih fun m hm => h m (by simp [hm])
    rw [length_render_snoc, List.length_append, List.length_singleton]
    omega

theorem appendSegment_tracks (h : Tracks absolute len s ms) (hmove : Proper move)
    (hdata : Holds data (before ++ segmentOf move ++ after))
    (hroom : (render absolute (ms ++ [move])).length ≤ len + 1) :
    ∃ s', appendSegment s data before.length (segmentOf move).length = some s' ∧
      Tracks absolute len s' (ms ++ [move]) := by
  have hproper (m) (hm : m ∈ ms ++ [move]) : Proper m := by
    rcases List.mem_append.1 hm with hm | hm
    · exact h.proper m hm
    · exact List.mem_singleton.1 hm ▸ hmove
  have hcount := length_le_render absolute hproper
  rw [List.length_append, List.length_singleton] at hcount
  have hlength := length_render_snoc absolute ms move
  -- the slash
  obtain ⟨out₁, hsep, hout₁, hsize₁⟩ : ∃ out₁,
      (if decide (ms ≠ []) then store s.out s.outLen slash else some s.out) = some out₁ ∧
        Holds out₁ (render absolute ms ++ (if ms = [] then [] else [slash])) ∧
        out₁.length = s.out.length := by
    by_cases hms : ms = []
    · exact ⟨s.out, by simp [hms], by simpa [hms] using h.out, rfl⟩
    · rw [h.outLen]
      simpa [hms] using store_of_holds h.out (by rw [h.outSize]; omega) slash
  -- the stacks
  obtain ⟨starts, hstarts, hholds, hstartsSize⟩ := store_of_holds h.starts
    (by rw [length_boundaries, h.startsSize]; omega) s.outLen
  obtain ⟨lens, hlens, hlensHolds, hlensSize⟩ := store_of_holds h.lens
    (by rw [List.length_map, h.lensSize]; omega) (segmentOf move).length
  rw [length_boundaries] at hstarts
  rw [List.length_map] at hlens
  -- the segment
  have hlen₁ : (render absolute ms ++ (if ms = [] then [] else [slash])).length
      = s.outLen + (decide (ms ≠ [])).toNat := by
    rw [h.outLen]
    by_cases hms : ms = [] <;> simp [hms]
  obtain ⟨out₂, hwrite, hout₂, hsize₂⟩ := write_of_holds (segmentOf move) hout₁ (by
    rw [hlen₁, hsize₁, h.outSize, h.outLen]
    omega)
  rw [hlen₁] at hwrite
  refine ⟨⟨out₂, s.outLen + (decide (ms ≠ [])).toNat + (segmentOf move).length, starts, lens,
    s.count + 1⟩, ?_, ?_⟩
  · simp only [appendSegment, needsSep_of_tracks h, Option.bind_eq_bind, Option.bind_some, hsep, h.count,
      hstarts, hlens, read_of_holds _ _ _ hdata, hwrite]
    rfl
  · refine ⟨by rw [render_snoc]; exact hout₂, by rw [hlength, h.outLen], ?_, ?_, by simp [h.count], hproper,
      by rw [hsize₂, hsize₁, h.outSize], by rw [hstartsSize, h.startsSize], by rw [hlensSize, h.lensSize]⟩
    · rw [boundaries_snoc, ← h.outLen]
      exact hholds
    · simpa using hlensHolds

theorem prevSegmentIsDotdot_snoc (h : Tracks absolute len s (ms ++ [move])) :
    prevSegmentIsDotdot s = some (decide (move = .up)) := by
  have hmove := h.proper move (by simp)
  have hstart := load_append _ [(render absolute ms).length] (boundaries_snoc ▸ h.starts) rfl
  have hlen := load_append (ms.map fun move => (segmentOf move).length) [(segmentOf move).length]
    (by simpa using h.lens) rfl
  have hout := h.out
  rw [render_snoc] at hout
  rw [length_boundaries] at hstart
  rw [List.length_map] at hlen
  have hdots : decide (segmentOf move = [dot, dot]) = decide (move = .up) := by
    refine decide_eq_decide.2 ⟨fun hsegment => ?_, fun hup => by rw [hup]; rfl⟩
    have := moveOf_segmentOf hmove
    rw [hsegment] at this
    exact (Option.some.inj this).symm
  have hread := isDotDot_of_holds (render absolute ms ++ if ms = [] then [] else [slash])
    (segmentOf move) [] (by rw [List.append_nil]; exact hout)
  obtain ⟨c, rest, hsegment⟩ := List.exists_cons_of_ne_nil (segment_ne hmove).1
  have hc : c ≠ slash := by
    rintro rfl
    exact (segment_ne hmove).2 (by simp [hsegment])
  rw [hdots] at hread
  simp only [prevSegmentIsDotdot, h.count, List.length_append, List.length_singleton,
    Nat.add_sub_cancel, Option.bind_eq_bind, hstart, hlen, Option.bind_some]
  by_cases hms : ms = []
  · -- the first segment follows the root, or nothing
    subst hms
    rw [if_pos rfl, List.append_nil] at hout hread
    have hload := load_append _ _ hout (a := c) (by rw [hsegment]; rfl)
    simp [hload, hc, hread]
  · rw [if_neg hms] at hout hread
    have hload := load_append _ (slash :: segmentOf move) (a := slash) (by simpa using hout) rfl
    rw [List.length_append, List.length_singleton] at hread
    simp [hload, hread]

theorem Tracks.pop (h : Tracks absolute len s (ms ++ [move])) :
    Tracks absolute len { s with outLen := (render absolute ms).length, count := ms.length } ms := by
  refine ⟨h.out.mono ?_, rfl, h.starts.mono ?_, h.lens.mono ?_, rfl, fun m hm => h.proper m (by simp [hm]),
    h.outSize, h.startsSize, h.lensSize⟩
  · rw [render_snoc, List.append_assoc]
    exact List.prefix_append ..
  · rw [boundaries_snoc]
    exact List.prefix_append ..
  · rw [List.map_append]
    exact List.prefix_append ..

/-! ## One segment -/

/-- The moves after one more segment. -/
def advance (absolute : Bool) (ms : List (Move (List UInt8))) (segment : List UInt8) :
    List (Move (List UInt8)) :=
  if segment = [] then ms
  else match moveOf segment with
    | none => ms
    | some move => (Moves.push absolute ms.reverse move).reverse

theorem advance_down {name : List UInt8} (h : IsName name) :
    advance absolute ms name = ms ++ [.down name] := by
  rw [advance, if_neg h.ne_nil, moveOf, if_neg h.ne_dot, if_neg h.ne_dots]
  simp

theorem advance_up_nil : advance absolute [] [dot, dot] = if absolute then [] else [.up] := by
  cases absolute <;> rfl

theorem advance_up_snoc : advance absolute (ms ++ [move]) [dot, dot] =
    if move = .up then (if absolute then ms ++ [move] else ms ++ [move] ++ [.up]) else ms := by
  have hadvance : advance absolute (ms ++ [move]) [dot, dot]
      = (Moves.push absolute (move :: ms.reverse) .up).reverse := by
    rw [advance, if_neg (by decide), moveOf, if_neg (by decide), if_pos rfl]
    simp
  rw [hadvance]
  cases move with
  | up => cases absolute <;> simp [Moves.push]
  | down name => simp [Moves.push]

theorem segment_cases (h : slash ∉ segment) :
    segment = [] ∨ segment = [dot] ∨ segment = [dot, dot] ∨ IsName segment := by
  by_cases hnil : segment = []
  · exact .inl hnil
  by_cases hdot : segment = [dot]
  · exact .inr (.inl hdot)
  by_cases hdots : segment = [dot, dot]
  · exact .inr (.inr (.inl hdots))
  · exact .inr (.inr (.inr ⟨hnil, hdot, hdots, h⟩))

variable (absolute ms) in
theorem length_advance_le (h : slash ∉ segment) :
    (render absolute (advance absolute ms segment)).length ≤
      (render absolute ms).length + (decide (ms ≠ [])).toNat + segment.length := by
  rcases segment_cases h with rfl | rfl | rfl | hname
  · exact Nat.le_add_right_of_le (Nat.le_add_right ..)
  · exact Nat.le_add_right_of_le (Nat.le_add_right ..)
  · have hup := length_render_snoc absolute ms .up
    obtain rfl | ⟨ms, move, rfl⟩ := List.eq_nil_or_concat' ms
    · rw [advance_up_nil]
      cases absolute
      · exact hup.le
      · exact Nat.le_add_right_of_le (Nat.le_add_right ..)
    · rw [advance_up_snoc]
      split_ifs
      · omega
      · exact hup.le
      · have hlast := length_render_snoc absolute ms move
        omega
  · rw [advance_down hname, length_render_snoc]
    rfl

variable (before after) in
/-- **One segment of the path** is one move, or none. -/
theorem normalizeSegment_tracks (h : Tracks absolute len s ms) (hsegment : slash ∉ segment)
    (hdata : Holds data (before ++ segment ++ after))
    (hroom : (render absolute ms).length + (decide (ms ≠ [])).toNat + segment.length ≤ len + 1) :
    ∃ s', normalizeSegment data absolute s before.length segment.length = some s' ∧
      Tracks absolute len s' (advance absolute ms segment) := by
  have happend : ∀ move, Proper move → segment = segmentOf move →
      ∃ s', appendSegment s data before.length segment.length = some s' ∧
        Tracks absolute len s' (ms ++ [move]) := by
    rintro move hmove rfl
    exact appendSegment_tracks h hmove hdata (by rw [length_render_snoc]; exact hroom)
  rcases segment_cases hsegment with rfl | rfl | rfl | hname
  · exact ⟨s, rfl, h⟩
  · refine ⟨s, ?_, h⟩
    have hdot := isDot_of_holds hdata
    simp only [List.length_singleton] at hdot
    simp [normalizeSegment, hdot]
  · have hdots := isDotDot_of_holds _ _ _ hdata
    have hup : ∃ s', appendSegment s data before.length 2 = some s' ∧
        Tracks absolute len s' (ms ++ [.up]) := happend .up (fun name hname => by cases hname) rfl
    simp only [List.length_cons, List.length_nil] at hdots
    obtain rfl | ⟨ms, move, rfl⟩ := List.eq_nil_or_concat' ms
    · have hprev : prevSegmentIsDotdot s = some false := by simp [prevSegmentIsDotdot, h.count]
      rw [advance_up_nil]
      cases absolute with
      | true => exact ⟨s, by simp [normalizeSegment, isDot, hdots, hprev, h.count], h⟩
      | false =>
        obtain ⟨s', hs', htracks⟩ := hup
        exact ⟨s', by simpa [normalizeSegment, isDot, hdots, hprev, h.count] using hs', htracks⟩
    have hprev := prevSegmentIsDotdot_snoc h
    rw [advance_up_snoc]
    by_cases hmove : move = .up
    · rw [if_pos hmove]
      cases absolute with
      | true => exact ⟨s, by simp [normalizeSegment, isDot, hdots, hprev, hmove], h⟩
      | false =>
        obtain ⟨s', hs', htracks⟩ := hup
        exact ⟨s', by simpa [normalizeSegment, isDot, hdots, hprev, hmove] using hs', htracks⟩
    · have hstart := load_append _ [(render absolute ms).length] (boundaries_snoc ▸ h.starts) rfl
      rw [length_boundaries] at hstart
      rw [if_neg hmove]
      refine ⟨_, ?_, h.pop⟩
      simp [normalizeSegment, isDot, hdots, hprev, hmove, h.count, hstart]
      rintro rfl hnil
      exact absurd hnil render_ne_nil_of_absolute
  · have hdot := isDot_of_holds hdata
    have hdots := isDotDot_of_holds _ _ _ hdata
    obtain ⟨s', hs', htracks⟩ := happend (.down segment) (by rintro _ ⟨⟩; exact hname) rfl
    refine ⟨s', ?_, by rw [advance_down hname]; exact htracks⟩
    simpa [normalizeSegment, hdot, hdots, hname.ne_nil, hname.ne_dot, hname.ne_dots] using hs'

/-! ## The loop -/

/-- The moves after the segments of a text. -/
def advanceAll (absolute : Bool) (ms : List (Move (List UInt8))) (text : List UInt8) :
    List (Move (List UInt8)) :=
  (segments text).foldl (advance absolute) ms

theorem exists_segment (text : List UInt8) : ∃ k segment after,
    text = List.replicate k slash ++ segment ++ after ∧ slash ∉ segment ∧
      (after = [] ∨ after.head? = some slash) ∧ (segment ++ after).head? ≠ some slash := by
  obtain ⟨slashes, hslashes⟩ : ∃ slashes, slashes = text.takeWhile (· == slash) := ⟨_, rfl⟩
  have hk : slashes = List.replicate slashes.length slash :=
    List.eq_replicate_of_mem fun c hc => by
      have hslash := List.mem_takeWhile_imp (p := (· == slash)) (hslashes ▸ hc)
      exact beq_iff_eq.1 hslash
  refine ⟨slashes.length, (text.dropWhile (· == slash)).takeWhile (· != slash),
    (text.dropWhile (· == slash)).dropWhile (· != slash), ?_, ?_, ?_, ?_⟩
  · rw [← hk, List.append_assoc, List.takeWhile_append_dropWhile, hslashes, List.takeWhile_append_dropWhile]
  · intro hmem
    simpa using List.mem_takeWhile_imp hmem
  · have hhead := List.head?_dropWhile_not (· != slash) (text.dropWhile (· == slash))
    cases hafter : ((text.dropWhile (· == slash)).dropWhile (· != slash)).head? with
    | none => exact .inl (List.head?_eq_none_iff.1 hafter)
    | some c =>
      rw [hafter] at hhead
      exact .inr (by simpa using hhead)
  · rw [List.takeWhile_append_dropWhile]
    intro hhead
    have hdrop := List.head?_dropWhile_not (· == slash) text
    rw [hhead] at hdrop
    simp at hdrop

theorem segments_slashes_append {k : Nat} (hsegment : slash ∉ segment)
    (hafter : after = [] ∨ after.head? = some slash) :
    segments (List.replicate k slash ++ segment ++ after)
      = (if segment = [] then [] else [segment]) ++ segments after := by
  have hwords : segments segment = if segment = [] then [] else [segment] := by
    split
    · next hnil => rw [hnil]; rfl
    · next hne => exact segments_name hne hsegment
  have hslashes : segments (List.replicate k slash ++ segment) = segments segment := by
    by_cases hk : k = 0
    · simp [hk]
    · simpa [segments] using segments_append_slashes [] segment hk
  rw [← hwords]
  rcases hafter with rfl | hhead
  · rw [List.append_nil, hslashes, show segments [] = [] from rfl, List.append_nil]
  · obtain ⟨rest, rfl⟩ := List.head?_eq_some_iff.1 hhead
    rw [segments_append_cons, hslashes, ← List.nil_append (slash :: rest), segments_append_cons]
    rfl

theorem normalizeLoop_tracks (before rest : List UInt8) {rounds : Nat} (h : Tracks absolute len s ms)
    (hdata : Holds data (before ++ rest)) (hlen : (before ++ rest).length = len)
    (hroom : (render absolute ms).length + rest.length ≤ len + 1)
    (hrest : rest = [] ∨ rest.head? = some slash ∨ ms = []) (hrounds : rest.length < rounds) :
    ∃ s', normalizeLoop data absolute len rounds s before.length = some s' ∧
      Tracks absolute len s' (advanceAll absolute ms rest) ∧ s'.outLen ≤ len + 1 := by
  induction rounds generalizing before rest s ms with
  | zero => exact absurd hrounds (Nat.not_lt_zero _)
  | succ rounds ih =>
    rw [normalizeLoop]
    by_cases hnil : rest = []
    · subst hnil
      refine ⟨s, if_neg (by rw [← hlen]; simp), h, ?_⟩
      rw [h.outLen]
      exact hroom
    obtain ⟨k, segment, after, rfl, hsegment, hafter, hhead⟩ := exists_segment rest
    -- the slashes and the segment are scanned
    have hstart := scanWhile_of_holds (p := (· == slash)) before (List.replicate k slash)
      (segment ++ after) (by simpa using hdata)
      (fun c hc => by simp [List.eq_of_mem_replicate hc])
      (fun c hc => by simpa using fun h : c = slash => hhead (h ▸ hc))
    have hindex := scanWhile_of_holds (p := (· != slash)) (before ++ List.replicate k slash) segment after
      (by simpa using hdata)
      (fun c hc => by simpa using fun h : c = slash => hsegment (h ▸ hc))
      (fun c hc => by
        rcases hafter with rfl | hafter
        · cases hc
        · simpa using (Option.some.inj (hafter.symm.trans hc)).symm)
    -- what is written and what is left
    have hsep : (decide (ms ≠ [])).toNat ≤ k := by
      by_cases hms : ms = []
      · simp [hms]
      rcases hrest with hrest | hrest | hrest
      · exact absurd hrest hnil
      · cases k with
        | zero => exact absurd (by simpa using hrest) hhead
        | succ k => simp [hms]
      · exact absurd hrest hms
    have hshorter : 0 < k + segment.length := by
      by_contra hzero
      obtain rfl : k = 0 := by omega
      obtain rfl : segment = [] := List.length_eq_zero_iff.1 (by omega)
      rcases hafter with rfl | hafter
      · exact hnil rfl
      · exact hhead hafter
    simp only [List.length_append, List.length_replicate] at hroom hrounds hlen hstart hindex
    obtain ⟨s', hs', htracks⟩ := normalizeSegment_tracks (before ++ List.replicate k slash) after h
      hsegment (by simpa using hdata) (by omega)
    have hadvance := length_advance_le absolute ms hsegment
    obtain ⟨s'', hs'', htracks', hend⟩ := ih (before ++ List.replicate k slash ++ segment)
      after htracks (by simpa using hdata)
      (by simp; omega) (by omega) (by tauto) (by omega)
    refine ⟨s'', ?_, ?_, hend⟩
    · simp only [List.length_append, List.length_replicate] at hs' hs''
      rw [if_pos (by omega)]
      rw [show before.length + k + (segment.length + after.length) = len by omega] at hstart
      rw [show before.length + k + segment.length + after.length = len by omega] at hindex
      simp [hstart, hindex, hs', hs'']
    · rw [advanceAll, segments_slashes_append hsegment hafter, List.foldl_append]
      by_cases hempty : segment = []
      · rw [if_pos hempty]
        rwa [hempty] at htracks'
      · rw [if_neg hempty]
        exact htracks'

theorem advanceAll_eq (text : List UInt8) :
    advanceAll absolute [] text = Moves.reduce absolute (moves text) := by
  have hall : ∀ (segments : List (List UInt8)) (ms : List (Move (List UInt8))),
      (∀ segment ∈ segments, segment ≠ []) →
      segments.foldl (advance absolute) ms
        = ((segments.filterMap moveOf).foldl (Moves.push absolute) ms.reverse).reverse := by
    intro segments
    induction segments with
    | nil => exact fun ms _ => (List.reverse_reverse ms).symm
    | cons segment segments ih =>
      intro ms hne
      rw [List.foldl_cons, ih _ fun other hother => hne other (by simp [hother]), advance,
        if_neg (hne segment (by simp)), List.filterMap_cons]
      cases moveOf segment with
      | none => rfl
      | some move => simp
  exact hall _ [] fun segment hsegment => (not_space_of_mem_words hsegment).1

/-! ## The whole function -/

theorem zero_notMem_render (hzero : ∀ move ∈ ms, 0 ∉ segmentOf move) : 0 ∉ render absolute ms := by
  induction ms using List.reverseRecOn with
  | nil => cases absolute <;> decide
  | append_singleton ms move ih =>
    have ih := ih fun m hm => hzero m (by simp [hm])
    rw [render_snoc, List.append_assoc, List.mem_append, List.mem_append]
    rintro (hmem | hmem | hmem)
    · exact ih hmem
    · split at hmem
      · cases hmem
      · exact absurd (List.mem_singleton.1 hmem) (by decide)
    · exact hzero move (by simp) hmem

theorem zero_notMem_normalForm (h : 0 ∉ text) : 0 ∉ normalForm text := by
  have hsegments : ∀ move ∈ Moves.reduce (isAbsolute text) (moves text), 0 ∉ segmentOf move := by
    intro move hmove
    obtain ⟨segment, hsegment, hmoveOf⟩ := List.mem_filterMap.1 (Moves.mem_reduce hmove)
    have hfield : segment ∈ text.splitOn slash := List.mem_of_mem_filter hsegment
    rw [moveOf] at hmoveOf
    split_ifs at hmoveOf
    · cases hmoveOf
      decide
    · cases hmoveOf
      exact fun hmem => h (mem_of_mem_splitOn hfield hmem)
  rw [normalForm]
  split
  · decide
  · exact zero_notMem_render hsegments

variable (text) in
theorem tracks_start : ∃ s, normalizeStart (isAbsolute text) text.length = some s ∧
    Tracks (isAbsolute text) text.length s [] := by
  cases habsolute : isAbsolute text with
  | false =>
    exact ⟨_, rfl, holds_nil, rfl, holds_nil, holds_nil, rfl, by simp, by simp, by simp, by simp⟩
  | true =>
    obtain ⟨out, hstore, hout, hsize⟩ := store_of_holds
      (holds_nil : Holds (malloc (text.length + 2) : Block UInt8) []) (by simp) slash
    rw [List.length_nil] at hstore
    refine ⟨⟨out, 1, malloc (text.length + 1), malloc (text.length + 1), 0⟩, ?_, hout, rfl, holds_nil,
      holds_nil, rfl, by simp, by simp [hsize], by simp, by simp⟩
    simp [normalizeStart, hstore]

/-- **The normaliser computes the normal form**, and every access is inside its block. -/
theorem pathNormalize_text (h : Text path text) :
    ∃ out, pathNormalize path = some out ∧ Text out (normalForm text) := by
  by_cases hne : text = []
  · subst hne
    refine ⟨stringLiteral [dot], ?_, text_stringLiteral (by decide)⟩
    simp [pathNormalize, strlen_of_text h]
  have habsolute : (text.head?.getD 0 == slash) = isAbsolute text := by
    cases text with
    | nil => rfl
    | cons c text => simp [isAbsolute]
  obtain ⟨s, hs, htracks⟩ := tracks_start text
  have hroom : (render (isAbsolute text) []).length + text.length ≤ text.length + 1 := by
    cases isAbsolute text
    · exact (Nat.add_comm ..).le.trans (Nat.le_succ _)
    · exact (Nat.add_comm ..).le
  obtain ⟨s', hs', htracks', hend⟩ := normalizeLoop_tracks [] text
    htracks h.holds_text rfl hroom (.inr (.inr rfl)) (Nat.lt_succ_self _)
  rw [advanceAll_eq] at htracks'
  have hzero := zero_notMem_normalForm h.zero
  have hunfold : pathNormalize path = (do
      let out ← (if s'.outLen = 0 then store s'.out 0 dot else some s'.out)
      store out (if s'.outLen = 0 then 1 else s'.outLen) 0) := by
    rw [List.length_nil] at hs'
    simp only [pathNormalize, strlen_of_text h, load_zero_of_text h, habsolute, hs, hs',
      Option.bind_eq_bind, Option.bind_some, List.length_eq_zero_iff, if_neg hne]
  rw [hunfold]
  have hlength := htracks'.outLen
  have hpos := List.length_pos_of_ne_nil hne
  have hout := htracks'.out
  have hsize := htracks'.outSize
  rw [normalForm] at hzero ⊢
  generalize render (isAbsolute text) (Moves.reduce (isAbsolute text) (moves text)) = result
    at hlength hout hzero ⊢
  by_cases hresult : result = []
  · subst hresult
    obtain ⟨out₁, hstore₁, hout₁, hsize₁⟩ := store_of_holds hout (by simp [hsize]) dot
    obtain ⟨out₂, hstore₂, hout₂, -⟩ := store_of_holds hout₁ (by simp [hsize₁, hsize]) 0
    refine ⟨out₂, ?_, hzero, hout₂⟩
    rw [List.length_nil] at hlength hstore₁
    simpa [hlength, hstore₁] using hstore₂
  · obtain ⟨out, hstore, hout, -⟩ := store_of_holds hout (by omega) 0
    rw [if_neg hresult] at hzero ⊢
    refine ⟨out, ?_, hzero, hout⟩
    have hne : s'.outLen ≠ 0 := by
      rw [hlength]
      exact fun hnil => hresult (List.length_eq_zero_iff.1 hnil)
    simp [hne, ← hlength] at hstore ⊢
    exact hstore

/-- The parts of a path, joined and normalised, are the path normalised. -/
theorem pathNormalize_joined (h : Text path text) :
    ∃ dir base whole out, pathDirname path = some dir ∧ pathBasename path = some base ∧
      pathJoin dir base = some whole ∧ pathNormalize whole = some out ∧ Text out (normalForm text) := by
  have hjoin : ∀ (dir base : Block UInt8) {d b : List UInt8}, pathDirname path = some dir →
      pathBasename path = some base → Text dir d → Text base b →
      normalForm (joined d b) = normalForm text →
      ∃ dir base whole out, pathDirname path = some dir ∧ pathBasename path = some base ∧
        pathJoin dir base = some whole ∧ pathNormalize whole = some out ∧ Text out (normalForm text) := by
    intro dir base d b hdir hbase hd hb hnormal
    obtain ⟨whole, hwhole, htext⟩ := pathJoin_text hd hb
    obtain ⟨out, hout, hresult⟩ := pathNormalize_text htext
    exact ⟨dir, base, whole, out, hdir, hbase, hwhole, hout, hnormal ▸ hresult⟩
  rcases path_cases text with rfl | ⟨k, rfl⟩ | ⟨parent, j, name, k, hname⟩
  · refine hjoin (stringLiteral [dot]) (stringLiteral []) ?_ ?_
      (text_stringLiteral (by decide)) (text_stringLiteral (by decide)) (by decide)
    · simp [pathDirname, pathTrimTrailingSlashes, strlen_of_text h, dropSlashes]
    · simp [pathBasename, pathTrimTrailingSlashes, strlen_of_text h, dropSlashes]
  · have htrim : pathTrimTrailingSlashes path = some 1 := by
      rw [pathTrimTrailingSlashes, strlen_of_text h, List.length_replicate, Option.bind_eq_bind,
        Option.bind_some, dropSlashes_root h.holds_text]
    have hroot : isRoot path 1 = some true := by
      rw [isRoot, if_pos rfl, load_zero_of_text h]
      rfl
    refine hjoin (stringLiteral [slash]) (stringLiteral [slash]) ?_ ?_
      (text_stringLiteral (by decide)) (text_stringLiteral (by decide)) ?_
    · simp [pathDirname, htrim, hroot]
    · simp [pathBasename, htrim, hroot]
    · refine normalForm_congr rfl ?_
      rw [moves, moves, segments_slashes]
      rfl
  · obtain ⟨dir, hdir, hd⟩ := pathDirname_hasName h hname
    obtain ⟨base, hbase, hb⟩ := pathBasename_hasName h hname
    exact hjoin dir base hdir hbase hd hb (normalForm_joined hname)

/-- **The path functions are coherent.**  For every path without a zero the normaliser stays inside its
blocks, and what it returns denotes the location of the path in every working directory, is in normal
form and stays as it is; and the folder and the name of the path, joined and normalised, give the same. -/
theorem pathNormalize_coherent (h : Text path text) : ∃ out normal,
    pathNormalize path = some out ∧ Text out normal ∧
      (∀ cwd, locate cwd normal = locate cwd text) ∧ IsNormal (isAbsolute text) normal ∧
      (∃ again, pathNormalize out = some again ∧ Text again normal) ∧
      ∃ dir base whole joint, pathDirname path = some dir ∧ pathBasename path = some base ∧
        pathJoin dir base = some whole ∧ pathNormalize whole = some joint ∧ Text joint normal := by
  obtain ⟨out, hout, htext⟩ := pathNormalize_text h
  obtain ⟨again, hagain, htext'⟩ := pathNormalize_text htext
  refine ⟨out, normalForm text, hout, htext, fun cwd => locate_normalForm cwd text,
    isNormal_normalForm text, ⟨again, hagain, ?_⟩, pathNormalize_joined h⟩
  rwa [normalForm_normalForm] at htext'

/-- Of `/a/../b//` the normaliser makes `/b`. -/
theorem pathNormalize_coherent_parent : ∃ out normal,
    pathNormalize (stringLiteral [47, 97, 47, 46, 46, 47, 98, 47, 47]) = some out ∧ Text out normal ∧
      (∀ cwd, locate cwd normal = locate cwd [47, 97, 47, 46, 46, 47, 98, 47, 47]) ∧
      IsNormal (isAbsolute [47, 97, 47, 46, 46, 47, 98, 47, 47]) normal ∧
      (∃ again, pathNormalize out = some again ∧ Text again normal) ∧
      ∃ dir base whole joint, pathDirname (stringLiteral [47, 97, 47, 46, 46, 47, 98, 47, 47]) = some dir ∧
        pathBasename (stringLiteral [47, 97, 47, 46, 46, 47, 98, 47, 47]) = some base ∧
        pathJoin dir base = some whole ∧ pathNormalize whole = some joint ∧ Text joint normal :=
  pathNormalize_coherent (text_stringLiteral (by decide))

/-- The empty path is normalised to `.`, which is a `.` segment. -/
theorem pathNormalize_empty : ¬ ∀ (path out : Block UInt8) (text normal : List UInt8), Text path text →
    pathNormalize path = some out → Text out normal → [dot] ∉ segments normal := by
  intro h
  exact h (stringLiteral []) (stringLiteral [dot]) [] [dot] (text_stringLiteral (by decide)) rfl
    (text_stringLiteral (by decide)) (by decide)

end Nomo.Paths
