import Nomo.Membership.Patterns

/-!
# What a wildcard stands for

`wildcard_segment_matches` and `wildcard_match` look for the literal parts of a pattern from left to
right and take the first place where a part occurs.  Leftmost places lose nothing: what follows a later
occurrence is a suffix of what follows the first (`afterFirst_leftmost`), and a part that can be placed
in a text can be placed in a longer one.  So the search finds a placement whenever there is one.
-/

namespace Nomo.Membership

open Nomo.Lib

/-- The value is obtained from the pattern by replacing each wildcard with some string. -/
inductive Instance : Text → Text → Prop
  | nil : Instance [] []
  | literal {c : Char} {pattern value : Text} :
      c ≠ '*' → Instance pattern value → Instance (c :: pattern) (c :: value)
  | wildcard (filling : Text) {pattern value : Text} :
      Instance pattern value → Instance ('*' :: pattern) (filling ++ value)

/-- The parts one after the other, with some string between every two. -/
def Filled : List Text → Text → Prop
  | [], _ => False
  | [part], value => value = part
  | part :: next :: parts, value =>
    ∃ filling rest, value = part ++ (filling ++ rest) ∧ Filled (next :: parts) rest

theorem instance_append {front : Text} (hfront : '*' ∉ front) (pattern value : Text) :
    Instance (front ++ pattern) value ↔ ∃ rest, value = front ++ rest ∧ Instance pattern rest := by
  induction front generalizing value with
  | nil => simp
  | cons c front ih =>
    rw [List.mem_cons, not_or] at hfront
    constructor
    · intro h
      cases h with
      | literal _ h =>
        obtain ⟨rest, hvalue, h⟩ := (ih hfront.2 _).1 h
        exact ⟨rest, congrArg (c :: ·) hvalue, h⟩
      | wildcard _ h => exact absurd rfl hfront.1
    · rintro ⟨rest, rfl, h⟩
      exact .literal (Ne.symm hfront.1) ((ih hfront.2 _).2 ⟨rest, rfl, h⟩)

theorem instance_wildcard (pattern value : Text) :
    Instance ('*' :: pattern) value ↔ ∃ filling rest, value = filling ++ rest ∧ Instance pattern rest := by
  constructor
  · intro h
    cases h with
    | literal hc _ => exact absurd rfl hc
    | wildcard filling h => exact ⟨filling, _, rfl, h⟩
  · rintro ⟨filling, rest, rfl, h⟩
    exact .wildcard filling h

theorem instance_nil (value : Text) : Instance [] value ↔ value = [] :=
  ⟨fun h => by cases h; rfl, fun h => h ▸ .nil⟩

theorem instance_iff_filled (pattern value : Text) :
    Instance pattern value ↔ Filled (pattern.splitOn '*') value := by
  induction pattern using words_induction (· == '*') generalizing value with
  | none pattern hall =>
    have hstar : '*' ∉ pattern := fun h => by simpa using hall _ h
    rw [List.splitOn_eq_singleton hstar, ← List.append_nil pattern, instance_append hstar]
    simp [Filled, instance_nil]
  | first part c pattern hc hpart ih =>
    obtain rfl : c = '*' := by simpa using hc
    have hstar : '*' ∉ part := fun h => by simpa using hpart _ h
    obtain ⟨next, parts, hparts⟩ := List.exists_cons_of_ne_nil (List.splitOn_ne_nil '*' pattern)
    rw [List.splitOn_append_cons_self_of_not_mem hstar, instance_append hstar, hparts, Filled, ← hparts]
    simp only [instance_wildcard, ih]
    constructor
    · rintro ⟨_, rfl, filling, rest, rfl, h⟩
      exact ⟨filling, rest, rfl, h⟩
    · rintro ⟨filling, rest, rfl, h⟩
      exact ⟨_, rfl, filling, rest, rfl, h⟩

/-! ## Leftmost places -/

theorem afterFirst_isSome (part rest : Text) : ∃ after, afterFirst part (part ++ rest) = some after ∧
    rest <:+ after := by
  cases hvalue : part ++ rest with
  | nil =>
    obtain ⟨rfl, rfl⟩ := List.append_eq_nil_iff.1 hvalue
    exact ⟨[], rfl, List.suffix_rfl⟩
  | cons c value =>
    rw [afterFirst, ← hvalue, List.dropPrefix?_append_of_beq rest (beq_self_eq_true part)]
    exact ⟨rest, rfl, List.suffix_rfl⟩

/-- **The first place is the best one.** What follows any place of a part ends what follows the first. -/
theorem afterFirst_leftmost (before part rest : Text) :
    ∃ after, afterFirst part (before ++ (part ++ rest)) = some after ∧ rest <:+ after := by
  induction before with
  | nil => exact afterFirst_isSome part rest
  | cons c before ih =>
    obtain ⟨after, hafter, hrest⟩ := ih
    rw [List.cons_append, afterFirst]
    split
    next found hdrop =>
      -- the part stands here already, and everything up to `rest` comes after its start
      refine ⟨found, rfl, ?_⟩
      have hvalue := mem_of_dropPrefix hdrop
      have hlength := congrArg List.length hvalue
      simp only [List.length_cons, List.length_append] at hlength
      have hsuffix : rest <:+ part ++ found := ⟨c :: before ++ part, by rw [← hvalue]; simp⟩
      exact List.suffix_of_suffix_length_le hsuffix (List.suffix_append ..) (by omega)
    next => exact ⟨after, hafter, hrest⟩

/-- The parts are placed somewhere in the value, the last one at its end. -/
def Placed (parts : List Text) (value : Text) : Prop := ∃ rest, rest <:+ value ∧ Filled parts rest

theorem placed_last (part value : Text) : Placed [part] value ↔ part <:+ value :=
  ⟨fun ⟨_, hrest, h⟩ => h ▸ hrest, fun h => ⟨part, h, rfl⟩⟩

theorem placed_cons (part next : Text) (parts : List Text) (value : Text) :
    Placed (part :: next :: parts) value ↔
      ∃ after, afterFirst part value = some after ∧ Placed (next :: parts) after := by
  constructor
  · rintro ⟨_, ⟨before, rfl⟩, filling, rest, rfl, h⟩
    obtain ⟨after, hafter, hsuffix⟩ := afterFirst_leftmost before part (filling ++ rest)
    exact ⟨after, hafter, rest, (List.suffix_append ..).trans hsuffix, h⟩
  · rintro ⟨after, hafter, rest, ⟨filling, rfl⟩, h⟩
    obtain ⟨before, rfl⟩ := mem_of_afterFirst hafter
    exact ⟨part ++ (filling ++ rest), ⟨before, by simp⟩, filling, rest, rfl, h⟩

theorem placed_empty (next : Text) (parts : List Text) (value : Text) :
    Placed ([] :: next :: parts) value ↔ Placed (next :: parts) value := by
  constructor
  · rintro ⟨_, hrest, filling, rest, rfl, h⟩
    exact ⟨rest, (List.suffix_append ..).trans hrest, h⟩
  · rintro ⟨rest, hrest, h⟩
    exact ⟨rest, hrest, [], rest, rfl, h⟩

/-! ## The loop -/

/-- **The loop is exact.** After the first part it succeeds if and only if the parts can be placed. -/
theorem wildcardLoop_iff (pattern : Text) {anchored : Nat → Bool} (hanchored : ∀ index, 0 < index → anchored index = false)
    {count : Nat} (parts : List Text) (start : Nat) (hstart : 0 < start)
    (hcount : start + parts.length = count) (hne : parts ≠ [])
    (hlast : ∀ part ∈ parts.getLast?, part ≠ [] → ['*'].isSuffixOf pattern = false) (value : Text) :
    wildcardLoop anchored pattern count (parts.zipIdx start) value = true ↔ Placed parts value := by
  induction parts generalizing start value with
  | nil => exact absurd rfl hne
  | cons part parts ih =>
    rw [List.zipIdx_cons, wildcardLoop, hanchored start hstart]
    simp only [List.length_cons] at hcount
    cases parts with
    | nil =>
      -- the last part, which must stand at the end unless it is empty
      have hindex : start = count - 1 := by simp at hcount; omega
      rw [placed_last]
      by_cases hempty : part = []
      · simp [hempty, wildcardLoop]
      · simp [hempty, ← hindex, hlast part rfl hempty]
    | cons next parts =>
      have ih := ih (start + 1) (Nat.succ_pos _) (by omega) (by simp)
        (by simpa only [List.getLast?_cons_cons] using hlast)
      have hindex : ¬ start = count - 1 := by simp at hcount; omega
      by_cases hempty : part = []
      · rw [if_pos hempty, ih, hempty, placed_empty]
      rw [if_neg hempty, placed_cons]
      simp only [hindex, decide_false, Bool.false_and, Bool.false_eq_true, if_false]
      cases afterFirst part value with
      | none => simp
      | some after => simpa using ih after

theorem not_isSuffixOf_of_getLast (pattern : Text) :
    ∀ part ∈ (pattern.splitOn '*').getLast?, part ≠ [] → ['*'].isSuffixOf pattern = false := by
  intro part hpart hne
  refine Bool.eq_false_iff.2 fun hsuffix => hne ?_
  obtain ⟨front, rfl⟩ := List.isSuffixOf_iff_suffix.1 hsuffix
  have hsplit : (front ++ ['*']).splitOn '*' = front.splitOn '*' ++ [[]] :=
    List.splitOn_append_cons_self front []
  rw [hsplit, List.getLast?_concat] at hpart
  exact (Option.some.inj hpart).symm

/-- **The wildcard test is exact.** -/
theorem wildcardMatch_iff (pattern value : Text) : wildcardMatch pattern value = true ↔
    Instance pattern value := by
  rw [wildcardMatch, instance_iff_filled]
  have hlast := not_isSuffixOf_of_getLast pattern
  split_ifs with hstar
  · subst hstar
    exact iff_of_true rfl ⟨value, [], by simp, rfl⟩
  have hjoin : ['*'].intercalate (pattern.splitOn '*') = pattern := List.intercalate_splitOn '*'
  obtain ⟨part, parts, hparts⟩ := List.exists_cons_of_ne_nil (List.splitOn_ne_nil '*' pattern)
  rw [hparts] at hlast hjoin ⊢
  cases parts with
  | nil =>
    have hpattern : part = pattern := by simpa [List.intercalate] using hjoin
    simp [Filled, hpattern, eq_comm]
  | cons next parts =>
    have hloop := wildcardLoop_iff pattern (fun index hindex => decide_eq_false (p := index = 0) (by omega))
      (next :: parts) 1 Nat.one_pos (Nat.add_comm ..) (by simp)
      (by simpa only [List.getLast?_cons_cons] using hlast)
    have hfilled : Filled (part :: next :: parts) value ↔
        ∃ rest, value = part ++ rest ∧ Placed (next :: parts) rest := by
      constructor
      · rintro ⟨filling, rest, rfl, h⟩
        exact ⟨_, rfl, rest, List.suffix_append .., h⟩
      · rintro ⟨_, rfl, rest, ⟨filling, rfl⟩, h⟩
        exact ⟨filling, rest, rfl, h⟩
    rw [hfilled]
    show (if (part :: next :: parts).length = 1 then decide (pattern = value)
      else wildcardLoop _ pattern _ ((part, 0) :: (next :: parts).zipIdx 1) value) = true ↔ _
    rw [if_neg (by simp), wildcardLoop]
    by_cases hempty : part = []
    · rw [if_pos hempty, hempty]
      simpa [Nat.add_comm] using hloop value
    simp only [hempty, decide_true, if_true, if_false]
    split
    next hdrop =>
      refine iff_of_false Bool.false_ne_true ?_
      rintro ⟨rest, rfl, -⟩
      rw [List.dropPrefix?_append_of_beq rest (beq_self_eq_true part)] at hdrop
      cases hdrop
    next rest hdrop =>
      obtain rfl := mem_of_dropPrefix hdrop
      have hrest := hloop rest
      simp only [List.append_cancel_left_eq, exists_eq_left']
      simpa [Nat.add_comm] using hrest

/-! ## Segment by segment -/

/-- As many segments, each an instance of the pattern's. -/
def InstanceBySegment (pattern relative : Text) : Prop :=
  List.Forall₂ Instance (segments (trimSlashes pattern)) (segments (trimSlashes relative))

/-- **Both wildcard tests hold of the instances of a pattern and of nothing else**, and the match of a
path goes segment by segment.  A pattern or path `.` stands for the workspace root, and `.` is all it
matches (`nomo_manifest/src/lib.rs:1758–1760`). -/
theorem workspaceWildcards_exact :
    (∀ pattern value : Text, (wildcardSegmentMatches pattern value = true ↔ Instance pattern value) ∧
      (wildcardMatch pattern value = true ↔ Instance pattern value) ∧
      wildcardSegmentMatches pattern value = wildcardMatch pattern value) ∧
    ∀ pattern relative : Text, workspacePatternMatches pattern relative = true ↔
      (pattern = ['.'] ∧ relative = ['.']) ∨
        (pattern ≠ ['.'] ∧ relative ≠ ['.'] ∧ InstanceBySegment pattern relative) := by
  have hsegment := fun pattern value : Text =>
    (wildcardMatch_eq pattern value ▸ wildcardMatch_iff pattern value)
  refine ⟨fun pattern value =>
    ⟨hsegment pattern value, wildcardMatch_iff pattern value, (wildcardMatch_eq pattern value).symm⟩,
    fun pattern relative => ?_⟩
  unfold workspacePatternMatches InstanceBySegment
  by_cases hpattern : pattern = ['.']
  · simp [hpattern, eq_comm]
  by_cases hrelative : relative = ['.']
  · simp [hrelative, hpattern]
  · simp only [hpattern, hrelative, List.forall₂_iff_zip, Bool.and_eq_true, decide_eq_true_eq,
      List.all_eq_true, ← hsegment, Prod.forall, decide_false, Bool.or_self, Bool.false_eq_true,
      if_false, false_and, false_or, ne_eq, not_false_eq_true, true_and]

/-- The wildcard is instantiated by `.`, and yet the pattern `*` does not match the workspace root. -/
theorem not_workspacePatternMatches_root : ¬ ∀ pattern relative : Text,
    workspacePatternMatches pattern relative = true ↔ InstanceBySegment pattern relative := by
  intro h
  have hmatch : InstanceBySegment ['*'] ['.'] := .cons (.wildcard ['.'] .nil) .nil
  exact absurd ((h ['*'] ['.']).2 hmatch) (by decide)

end Nomo.Membership
