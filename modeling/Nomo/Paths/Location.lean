import Nomo.Lib.Moves
import Nomo.Lib.Words

/-!
# What a path denotes

A path is a text of bytes without a zero.  Read lexically it is a list of moves: its segments are the
words between slashes, `.` stays where it is, `..` goes up and any other segment goes down.  An absolute
path starts at the root, a relative one at the working directory.

`normalForm` is what `path.normalize` is to compute: the reduced moves, written with single slashes, and
`.` where nothing is left.
-/

namespace Nomo.Paths

open Nomo.Lib

/-- `/`. -/
def slash : UInt8 := 47

/-- `.`. -/
def dot : UInt8 := 46

/-- The path starts at the root. -/
def isAbsolute (path : List UInt8) : Bool := path.head? == some slash

/-- The segments of a path that are not empty. -/
def segments (path : List UInt8) : List (List UInt8) := words (· == slash) path

/-- The move that a segment stands for. -/
def moveOf (segment : List UInt8) : Option (Move (List UInt8)) :=
  if segment = [dot] then none
  else if segment = [dot, dot] then some .up
  else some (.down segment)

/-- The moves of a path. -/
def moves (path : List UInt8) : List (Move (List UInt8)) := (segments path).filterMap moveOf

/-- The location that a path denotes in a working directory. -/
def locate (cwd : List (List UInt8)) (path : List UInt8) : List (List UInt8) :=
  Moves.walk (if isAbsolute path then [] else cwd) (moves path)

/-- The segment of a move. -/
def segmentOf : Move (List UInt8) → List UInt8
  | .up => [dot, dot]
  | .down name => name

/-- A segment that goes down. -/
structure IsName (name : List UInt8) : Prop where
  ne_nil : name ≠ []
  ne_dot : name ≠ [dot]
  ne_dots : name ≠ [dot, dot]
  slash : slash ∉ name

/-- A move down has a name. -/
def Proper (move : Move (List UInt8)) : Prop := ∀ name, move = .down name → IsName name

/-- Moves written as a path, with single slashes. -/
def render (absolute : Bool) (ms : List (Move (List UInt8))) : List UInt8 :=
  (if absolute then [slash] else []) ++ [slash].intercalate (ms.map segmentOf)

/-- The normal form of a path. -/
def normalForm (path : List UInt8) : List UInt8 :=
  let text := render (isAbsolute path) (Moves.reduce (isAbsolute path) (moves path))
  if text = [] then [dot] else text

/-! ## Segments -/

theorem segment_ne {move : Move (List UInt8)} (h : Proper move) :
    segmentOf move ≠ [] ∧ slash ∉ segmentOf move := by
  cases move with
  | up => exact ⟨by simp [segmentOf], by decide⟩
  | down name => exact ⟨(h name rfl).ne_nil, (h name rfl).slash⟩

theorem moveOf_segmentOf {move : Move (List UInt8)} (h : Proper move) :
    moveOf (segmentOf move) = some move := by
  cases move with
  | up => rfl
  | down name => rw [segmentOf, moveOf, if_neg (h name rfl).ne_dot, if_neg (h name rfl).ne_dots]

theorem proper_moves (path : List UInt8) : ∀ move ∈ moves path, Proper move := by
  rintro move hmove name rfl
  obtain ⟨segment, hsegment, hmoveOf⟩ := List.mem_filterMap.1 hmove
  obtain ⟨hne, hslash⟩ := not_space_of_mem_words hsegment
  rw [moveOf] at hmoveOf
  split_ifs at hmoveOf with hdot hdots
  · cases hmoveOf
  · cases hmoveOf
    exact ⟨hne, hdot, hdots, fun hmem => by simpa using hslash _ hmem⟩

theorem proper_reduce (rooted : Bool) {ms : List (Move (List UInt8))} (h : ∀ move ∈ ms, Proper move) :
    ∀ move ∈ Moves.reduce rooted ms, Proper move :=
  fun move hmove => h move (Moves.mem_reduce hmove)

/-! ## Writing moves -/

section

variable {absolute : Bool} {ms : List (Move (List UInt8))} {move : Move (List UInt8)}

theorem render_nil : render absolute [] = if absolute then [slash] else [] := by
  cases absolute <;> rfl

theorem render_snoc : render absolute (ms ++ [move]) =
    render absolute ms ++ (if ms = [] then [] else [slash]) ++ segmentOf move := by
  have hsnoc (segments : List (List UInt8)) : ∀ segment, [slash].intercalate (segments ++ [segment]) =
      [slash].intercalate segments ++ (if segments = [] then [] else [slash]) ++ segment := by
    intro segment
    induction segments with
    | nil => simp
    | cons first rest ih =>
      cases rest with
      | nil => simp [List.intercalate_cons_cons]
      | cons second rest =>
        rw [List.cons_append, List.cons_append, List.intercalate_cons_cons, ← List.cons_append, ih,
          List.intercalate_cons_cons]
        simp
  rw [render, List.map_append, List.map_singleton, hsnoc]
  simp [render]

theorem render_ne_nil_of_absolute : render true ms ≠ [] := by simp [render]

variable (absolute) in
theorem head_render (hproper : ∀ move ∈ ms, Proper move) :
    ((render absolute ms).head? == some slash) = absolute := by
  cases absolute with
  | true => simp [render]
  | false =>
    cases ms with
    | nil => rfl
    | cons move ms =>
      obtain ⟨hne, hslash⟩ := segment_ne (hproper move (by simp))
      obtain ⟨c, cs, hsegment⟩ := List.exists_cons_of_ne_nil hne
      have hc : c ≠ slash := by
        rintro rfl
        exact hslash (hsegment ▸ List.mem_cons_self ..)
      cases ms <;> simp [render, hsegment, List.intercalate_cons_cons, hc]

variable (absolute) in
theorem segments_render (hproper : ∀ move ∈ ms, Proper move) :
    segments (render absolute ms) = ms.map segmentOf := by
  have hword (move) : Proper move → words (· == slash) (segmentOf move) = [segmentOf move] := by
    intro hmove
    obtain ⟨hne, hslash⟩ := segment_ne hmove
    refine words_of_forall_not (fun c hc => ?_) hne
    simpa using fun h : c = slash => hslash (h ▸ hc)
  induction ms using List.reverseRecOn with
  | nil => cases absolute <;> rfl
  | append_singleton ms move ih =>
    have ih := ih fun m hm => hproper m (by simp [hm])
    have hmove := hword move (hproper move (by simp))
    rw [render_snoc, List.map_append, List.map_singleton, ← ih]
    by_cases hms : ms = []
    · subst hms
      cases absolute
      · simpa [render_nil, segments] using hmove
      · rw [if_pos rfl, render_nil, if_pos rfl, List.append_nil, segments, List.singleton_append,
          ← List.nil_append (slash :: _), words_append_cons [] _ (by decide), hmove]
        rfl
    · rw [if_neg hms, List.append_assoc, List.singleton_append, segments,
        words_append_cons _ _ (by decide), hmove]
      rfl

variable (absolute) in
theorem moves_render (hproper : ∀ move ∈ ms, Proper move) : moves (render absolute ms) = ms := by
  rw [moves, segments_render _ hproper, List.filterMap_map]
  refine (List.filterMap_congr fun move hmove => ?_).trans List.filterMap_some
  exact moveOf_segmentOf (hproper move hmove)

end

/-! ## The normal form -/

theorem isAbsolute_normalForm (path : List UInt8) : isAbsolute (normalForm path) = isAbsolute path := by
  have hhead := head_render (isAbsolute path)
    (proper_reduce (isAbsolute path) (proper_moves path))
  rw [normalForm]
  split
  · next htext =>
    rw [htext] at hhead
    rw [← hhead]
    rfl
  · exact hhead

theorem moves_normalForm (path : List UInt8) :
    moves (normalForm path) = Moves.reduce (isAbsolute path) (moves path) := by
  have hmoves := moves_render (isAbsolute path)
    (proper_reduce (isAbsolute path) (proper_moves path))
  rw [normalForm]
  split
  · next htext =>
    rw [htext] at hmoves
    rw [← hmoves]
    rfl
  · exact hmoves

theorem normalForm_congr {path other : List UInt8} (habsolute : isAbsolute path = isAbsolute other)
    (hmoves : moves path = moves other) : normalForm path = normalForm other := by
  rw [normalForm, normalForm, habsolute, hmoves]

theorem locate_normalForm (cwd : List (List UInt8)) (path : List UInt8) :
    locate cwd (normalForm path) = locate cwd path := by
  rw [locate, locate, isAbsolute_normalForm, moves_normalForm]
  exact Moves.walk_reduce (fun h => if_pos h) _

theorem normalForm_normalForm (path : List UInt8) : normalForm (normalForm path) = normalForm path := by
  rw [normalForm, isAbsolute_normalForm, moves_normalForm, Moves.reduce_reduce]
  rfl

/-- A text in normal form: the root or nothing, `..` segments if it is relative, and names; `.` alone
stands for a path without segments. -/
def IsNormal (absolute : Bool) (text : List UInt8) : Prop :=
  ∃ (ups : Nat) (names : List (List UInt8)),
    (absolute = true → ups = 0) ∧ (∀ name ∈ names, IsName name) ∧
      text = if absolute = false ∧ ups = 0 ∧ names = [] then [dot]
        else (if absolute then [slash] else []) ++
          [slash].intercalate (List.replicate ups [dot, dot] ++ names)

/-- The normal form has no empty segment, no `.` but a lone one, and no `..` that could be removed. -/
theorem isNormal_normalForm (path : List UInt8) : IsNormal (isAbsolute path) (normalForm path) := by
  have hproper := proper_reduce (isAbsolute path) (proper_moves path)
  obtain ⟨names, ups, hreduce, hups⟩ := Moves.normal_reduce (isAbsolute path) (moves path)
  have hreduce : Moves.reduce (isAbsolute path) (moves path)
      = List.replicate ups .up ++ names.reverse.map .down := by
    rw [← List.reverse_reverse (Moves.reduce _ _), hreduce]
    simp
  rw [hreduce] at hproper
  refine ⟨ups, names.reverse, hups, fun name hname => hproper (.down name) ?_ name rfl, ?_⟩
  · exact List.mem_append_right _ (List.mem_map_of_mem hname)
  have hsegments : (List.replicate ups Move.up ++ names.reverse.map Move.down).map segmentOf
      = List.replicate ups [dot, dot] ++ names.reverse := by
    rw [List.map_append, List.map_replicate, List.map_map]
    exact congrArg _ (List.map_id _)
  have hempty := segments_render (isAbsolute path) hproper
  rw [hsegments, render, hsegments] at hempty
  rw [normalForm, hreduce, render, hsegments]
  generalize isAbsolute path = absolute at hempty hups
  cases absolute with
  | true => simp
  | false =>
    simp only [true_and, Bool.false_eq_true, if_false, List.nil_append] at hempty ⊢
    by_cases h : ups = 0 ∧ names.reverse = []
    · obtain ⟨rfl, hnames⟩ := h
      simp [hnames]
    rw [if_neg h, if_neg]
    intro htext
    have hempty := hempty.symm.trans (congrArg segments htext)
    rw [show segments [] = [] from rfl, List.append_eq_nil_iff, List.replicate_eq_nil_iff] at hempty
    exact h hempty

end Nomo.Paths
