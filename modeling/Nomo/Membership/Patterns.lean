import Nomo.Lib.Words

/-!
# Workspace patterns

How the two sides read an entry of `workspace.members` or `workspace.exclude`:
`nomo_manifest/src/lib.rs:1719–1798` matches it against the path of a package below the workspace
root, `nomo/src/project/workspace.rs:476–533` expands it over the directory tree.  Both copies of the
wildcard test are here; they are the same function (`wildcardMatch_eq`).
-/

namespace Nomo.Membership

open Nomo.Lib

/-- The characters of a string. -/
abbrev Text := List Char

/-- What follows the first place where `part` occurs: `find` and the slice after it. -/
def afterFirst (part : Text) : Text → Option Text
  | [] => if part = [] then some [] else none
  | c :: rest =>
    match (c :: rest).dropPrefix? part with
    | some rest => some rest
    | none => afterFirst part rest

/-- The loop of both wildcard tests over the numbered parts of a pattern; `anchored` tells which part
must stand at the start. -/
def wildcardLoop (anchored : Nat → Bool) (pattern : Text) (count : Nat) :
    List (Text × Nat) → Text → Bool
  | [], _ => true
  | (part, index) :: rest, remaining =>
    if part = [] then wildcardLoop anchored pattern count rest remaining
    else if anchored index then
      match remaining.dropPrefix? part with
      | none => false
      | some remaining => wildcardLoop anchored pattern count rest remaining
    else if index = count - 1 && !(['*'].isSuffixOf pattern) then part.isSuffixOf remaining
    else
      match afterFirst part remaining with
      | none => false
      | some remaining => wildcardLoop anchored pattern count rest remaining

/-- `wildcard_segment_matches` (`nomo_manifest/src/lib.rs:1770–1798`). -/
def wildcardSegmentMatches (pattern value : Text) : Bool :=
  if pattern = ['*'] then true
  else
    let parts := pattern.splitOn '*'
    if parts.length = 1 then pattern = value
    else wildcardLoop (fun index => index = 0 && !(['*'].isPrefixOf pattern)) pattern parts.length
      parts.zipIdx value

/-- `wildcard_match` (`workspace.rs:502–526`). -/
def wildcardMatch (pattern value : Text) : Bool :=
  if pattern = ['*'] then true
  else
    let parts := pattern.splitOn '*'
    if parts.length = 1 then pattern = value
    else wildcardLoop (fun index => index = 0) pattern parts.length parts.zipIdx value

/-- `trim_matches('/')`. -/
def trimSlashes (text : Text) : Text := (text.dropWhile (· = '/')).rdropWhile (· = '/')

/-- `replace('\\', "/")`. -/
def replaceBackslashes (text : Text) : Text := text.map fun c => if c = '\\' then '/' else c

/-- The segments of a text. -/
def segments (text : Text) : List Text := text.splitOn '/'

/-- `workspace_pattern_matches` (`nomo_manifest/src/lib.rs:1756–1768`). -/
def workspacePatternMatches (pattern relative : Text) : Bool :=
  if pattern = ['.'] || relative = ['.'] then pattern = relative
  else
    let pattern := segments (trimSlashes pattern)
    let relative := segments (trimSlashes relative)
    pattern.length = relative.length &&
      (pattern.zip relative).all fun (pattern, value) => wildcardSegmentMatches pattern value

/-- The parts that `expand_workspace_pattern` goes by (`workspace.rs:476–485`). -/
def patternParts (pattern : Text) : List Text :=
  (segments (replaceBackslashes pattern)).filter fun part => !part.isEmpty && part != ['.']

/-- `workspace_path_is_excluded` (`workspace.rs:528–533`). -/
def workspacePathIsExcluded (relative : Text) (exclude : List Text) : Bool :=
  exclude.any fun pattern =>
    let pattern := trimSlashes pattern
    relative = pattern || (pattern ++ ['/']).isPrefixOf relative

/-- The exclude test of `workspace_context_includes_root` (`nomo_manifest/src/lib.rs:1746–1752`). -/
def contextExcludes (exclude : List Text) (relative : Text) : Bool :=
  exclude.any fun pattern =>
    workspacePatternMatches pattern relative ||
      (!pattern.contains '*' &&
        match relative.dropPrefix? (trimSlashes pattern) with
        | none => false
        | some suffix => ['/'].isPrefixOf suffix)

/-! ## The two wildcard tests -/

theorem wildcardLoop_congr {anchored anchored' : Nat → Bool} {pattern : Text} {count : Nat}
    (parts : List (Text × Nat)) (value : Text)
    (h : ∀ part ∈ parts, part.1 ≠ [] → anchored part.2 = anchored' part.2) :
    wildcardLoop anchored pattern count parts value
      = wildcardLoop anchored' pattern count parts value := by
  induction parts generalizing value with
  | nil => rfl
  | cons part parts ih =>
    obtain ⟨part, index⟩ := part
    have ih := fun value => ih value fun part hpart => h part (List.mem_cons_of_mem _ hpart)
    unfold wildcardLoop
    by_cases hpart : part = []
    · simp only [hpart, if_true, ih]
    · rw [h (part, index) (List.mem_cons_self ..) hpart]
      simp only [ih]

/-- **Both wildcard tests are one.** A first part that is not empty stands in a pattern that does not
start with a wildcard. -/
theorem wildcardMatch_eq (pattern value : Text) :
    wildcardMatch pattern value = wildcardSegmentMatches pattern value := by
  have hloop : wildcardLoop (fun index => index = 0) pattern (pattern.splitOn '*').length
        (pattern.splitOn '*').zipIdx value
      = wildcardLoop (fun index => index = 0 && !(['*'].isPrefixOf pattern)) pattern
        (pattern.splitOn '*').length (pattern.splitOn '*').zipIdx value := by
    refine wildcardLoop_congr _ _ fun part hpart hne => ?_
    obtain ⟨part, index⟩ := part
    by_cases hindex : index = 0
    · subst hindex
      have hfirst := (List.mem_zipIdx_iff_getElem?.1 hpart)
      cases pattern with
      | nil =>
        have : part = [] := by simpa using hfirst.symm
        exact absurd this hne
      | cons c rest =>
        have hc : c ≠ '*' := by
          rintro rfl
          have hsplit : ('*' :: rest).splitOn '*' = [] :: rest.splitOn '*' :=
            List.splitOn_append_cons_self [] rest
          rw [hsplit] at hfirst
          have : part = [] := by simpa using hfirst.symm
          exact absurd this hne
        have hstar : (['*'].isPrefixOf (c :: rest)) = false := by
          simp [List.isPrefixOf, Ne.symm hc]
        simp [hstar]
    · simp [hindex]
  unfold wildcardMatch wildcardSegmentMatches
  dsimp only
  rw [hloop]

theorem wildcardMatch_literal {pattern : Text} (value : Text) (h : '*' ∉ pattern) :
    wildcardMatch pattern value = decide (pattern = value) := by
  have hne : pattern ≠ ['*'] := by
    rintro rfl
    exact h (List.mem_singleton_self _)
  simp [wildcardMatch, hne, List.splitOn_eq_singleton h]

theorem mem_of_dropPrefix {value part rest : Text} (h : value.dropPrefix? part = some rest) :
    value = part ++ rest := by
  obtain ⟨p, rfl, hp⟩ := List.dropPrefix?_eq_some_iff.1 h
  rw [eq_of_beq hp]

theorem isPrefixOf_append_slash (front text : Text) :
    (front ++ ['/']).isPrefixOf text = match text.dropPrefix? front with
      | none => false
      | some suffix => ['/'].isPrefixOf suffix := by
  induction front generalizing text with
  | nil => rw [List.dropPrefix?_nil, List.nil_append]
  | cons c front ih =>
    cases text with
    | nil => rfl
    | cons d text =>
      rw [List.cons_append, List.isPrefixOf_cons_cons, ih, List.dropPrefix?]
      by_cases hcd : c = d
      · simp [hcd]
      · simp [hcd, Ne.symm hcd]

theorem mem_of_afterFirst {part value rest : Text} (h : afterFirst part value = some rest) :
    ∃ before, value = before ++ part ++ rest := by
  induction value with
  | nil =>
    rw [afterFirst] at h
    split_ifs at h with hpart
    cases h
    exact ⟨[], by simp [hpart]⟩
  | cons c value ih =>
    rw [afterFirst] at h
    split at h
    next rest' hdrop =>
      cases h
      exact ⟨[], by rw [List.nil_append, ← mem_of_dropPrefix hdrop]⟩
    next =>
      obtain ⟨before, rfl⟩ := ih h
      exact ⟨c :: before, by simp⟩

theorem wildcardLoop_mem {anchored : Nat → Bool} {pattern : Text} {count : Nat} (parts : List Text)
    (start : Nat) (hcount : start + parts.length = count) (value : Text)
    (h : wildcardLoop anchored pattern count (parts.zipIdx start) value = true) :
    ∀ part ∈ parts, ∀ c ∈ part, c ∈ value := by
  induction parts generalizing start value with
  | nil => exact fun _ hpart => nomatch hpart
  | cons part parts ih =>
    have ih := fun value => ih (start + 1) (by simp only [List.length_cons] at hcount; omega) value
    rw [List.zipIdx_cons, wildcardLoop] at h
    intro other hother c hc
    split_ifs at h with hempty hanchored hlast
    · rcases List.mem_cons.1 hother with rfl | hother
      · rw [hempty] at hc
        exact nomatch hc
      · exact ih value h other hother c hc
    · split at h
      next => exact nomatch h
      next rest hdrop =>
        rw [mem_of_dropPrefix hdrop]
        rcases List.mem_cons.1 hother with rfl | hother
        · exact List.mem_append_left _ hc
        · exact List.mem_append_right _ (ih rest h other hother c hc)
    · -- the last part, which must stand at the end
      obtain rfl : parts = [] := by
        have hindex : start = count - 1 := by
          simp only [Bool.and_eq_true, decide_eq_true_eq] at hlast
          exact hlast.1
        refine List.length_eq_zero_iff.1 ?_
        simp only [List.length_cons] at hcount
        omega
      obtain rfl := List.mem_singleton.1 hother
      exact (List.isSuffixOf_iff_suffix.1 h).subset hc
    · split at h
      next => exact nomatch h
      next rest hafter =>
        obtain ⟨before, rfl⟩ := mem_of_afterFirst hafter
        rcases List.mem_cons.1 hother with rfl | hother
        · exact List.mem_append_left _ (List.mem_append_right _ hc)
        · exact List.mem_append_right _ (ih rest h other hother c hc)

theorem mem_of_wildcardMatch {pattern value : Text} (h : wildcardMatch pattern value = true) {c : Char}
    (hc : c ∈ pattern) (hne : c ≠ '*') : c ∈ value := by
  unfold wildcardMatch at h
  split_ifs at h with hstar
  · rw [hstar, List.mem_singleton] at hc
    exact absurd hc hne
  dsimp only at h
  split_ifs at h with hone
  · simp only [decide_eq_true_eq] at h
    exact h ▸ hc
  · obtain ⟨part, hpart, hmem⟩ := exists_field_of_mem hc hne
    exact wildcardLoop_mem _ 0 (Nat.zero_add _) value h part hpart c hmem

/-! ## Slashes -/

theorem segments_slash (text : Text) : segments ('/' :: text) = [] :: segments text :=
  List.splitOn_append_cons_self [] text

theorem segments_append_slash (text : Text) : segments (text ++ ['/']) = segments text ++ [[]] :=
  List.splitOn_append_cons_self text []

theorem trimSlashes_eq_self {text : Text} (h : [] ∉ segments text) : trimSlashes text = text := by
  have hfront : text.dropWhile (· = '/') = text := by
    cases text with
    | nil => rfl
    | cons c rest =>
      rw [List.dropWhile_cons]
      split_ifs with hc
      · obtain rfl : c = '/' := by simpa using hc
        rw [segments_slash] at h
        exact absurd (List.mem_cons_self ..) h
      · rfl
  rw [trimSlashes, hfront, List.rdropWhile_eq_self_iff]
  intro hne hlast
  obtain hslash : text.getLast hne = '/' := by simpa using hlast
  rw [← List.dropLast_append_getLast hne, hslash, segments_append_slash] at h
  exact h (by simp)

theorem filter_segments_trimSlashes (text : Text) :
    (segments (trimSlashes text)).filter (fun part => !part.isEmpty)
      = (segments text).filter fun part => !part.isEmpty := by
  have hfront : (segments (text.dropWhile (· = '/'))).filter (fun part => !part.isEmpty)
      = (segments text).filter fun part => !part.isEmpty := by
    induction text with
    | nil => rfl
    | cons c rest ih =>
      rw [List.dropWhile_cons]
      split_ifs with hc
      · obtain rfl : c = '/' := by simpa using hc
        rw [segments_slash, ih]
        rfl
      · rfl
  rw [trimSlashes, ← hfront]
  generalize text.dropWhile (· = '/') = text
  induction text using List.reverseRecOn with
  | nil => rfl
  | append_singleton rest c ih =>
    rw [List.rdropWhile_concat]
    split_ifs with hc
    · obtain rfl : c = '/' := by simpa using hc
      rw [segments_append_slash, ih, List.filter_append]
      simp
    · rfl

theorem mem_trimSlashes {text : Text} {c : Char} (hc : c ∈ text) (hne : c ≠ '/') :
    c ∈ trimSlashes text := by
  have hdrop (text : Text) : c ∈ text → c ∈ text.dropWhile (· = '/') := by
    intro hc
    rw [← List.takeWhile_append_dropWhile (p := fun d => decide (d = '/')) (l := text)] at hc
    refine (List.mem_append.1 hc).resolve_left fun htake => ?_
    exact hne (by simpa using List.mem_takeWhile_imp htake)
  rw [trimSlashes, List.rdropWhile]
  exact List.mem_reverse.2 (hdrop _ (List.mem_reverse.2 (hdrop text hc)))

theorem mem_of_mem_trimSlashes {text : Text} {c : Char} (hc : c ∈ trimSlashes text) : c ∈ text :=
  (List.dropWhile_suffix _).subset ((List.rdropWhile_prefix _ _).subset hc)

theorem replaceBackslashes_eq_self {text : Text} (h : '\\' ∉ text) : replaceBackslashes text = text := by
  unfold replaceBackslashes
  refine (List.map_congr_left fun c hc => ?_).trans (List.map_id _)
  rw [if_neg]
  · rfl
  · rintro rfl
    exact h hc

/-! ## Plain entries -/

/-- The name of an entry of a directory. -/
def ValidName (name : Text) : Prop :=
  name ≠ [] ∧ '/' ∉ name ∧ name ≠ ['.'] ∧ name ≠ ['.', '.']

instance (name : Text) : Decidable (ValidName name) := inferInstanceAs (Decidable (_ ∧ _))

/-- The text of a path below the workspace root, with its backslashes replaced. -/
def pathText (path : List Text) : Text := replaceBackslashes (List.intercalate ['/'] path)

/-- The spelling that both sides read the same way: `.`, or segments that are neither empty nor `.`
and have no backslash. -/
def Plain (pattern : Text) : Prop :=
  pattern = ['.'] ∨
    ∀ part ∈ segments (trimSlashes pattern), part ≠ [] ∧ part ≠ ['.'] ∧ '\\' ∉ part

instance (pattern : Text) : Decidable (Plain pattern) := inferInstanceAs (Decidable (_ ∨ _))

theorem patternParts_dot : patternParts ['.'] = [] := by decide

theorem patternParts_plain {pattern : Text} (h : Plain pattern) (hdot : pattern ≠ ['.']) :
    patternParts pattern = segments (trimSlashes pattern) := by
  have hparts := h.resolve_left hdot
  have hslash : '\\' ∉ pattern := fun hmem => by
    obtain ⟨part, hpart, hc⟩ : ∃ part ∈ segments (trimSlashes pattern), '\\' ∈ part :=
      exists_field_of_mem (mem_trimSlashes hmem (by decide)) (by decide)
    exact (hparts part hpart).2.2 hc
  have hfilter : (segments pattern).filter (fun part => !part.isEmpty)
      = segments (trimSlashes pattern) := by
    rw [← filter_segments_trimSlashes, List.filter_eq_self]
    intro part hpart
    simpa using (hparts part hpart).1
  have hboth : patternParts pattern
      = ((segments pattern).filter fun part => !part.isEmpty).filter (· != ['.']) := by
    rw [patternParts, replaceBackslashes_eq_self hslash, List.filter_filter]
    exact List.filter_congr fun part _ => Bool.and_comm _ _
  rw [hboth, hfilter, List.filter_eq_self]
  intro part hpart
  simpa using (hparts part hpart).2.1

theorem segments_pathText {path : List Text} (hvalid : ∀ name ∈ path, ValidName name)
    (hslash : ∀ name ∈ path, '\\' ∉ name) (hne : path ≠ []) :
    segments (pathText path) = path ∧ trimSlashes (pathText path) = pathText path ∧
      pathText path ≠ ['.'] := by
  have htext : pathText path = List.intercalate ['/'] path := by
    refine replaceBackslashes_eq_self fun hmem => ?_
    have hsplit : segments (List.intercalate ['/'] path) = path :=
      List.splitOn_intercalate '/' (fun name hname => (hvalid name hname).2.1) hne
    obtain ⟨name, hname, hc⟩ : ∃ name ∈ segments (List.intercalate ['/'] path), '\\' ∈ name :=
      exists_field_of_mem hmem (by decide)
    rw [hsplit] at hname
    exact hslash name hname hc
  have hsplit : segments (pathText path) = path := by
    rw [htext]
    exact List.splitOn_intercalate '/' (fun name hname => (hvalid name hname).2.1) hne
  refine ⟨hsplit, trimSlashes_eq_self ?_, ?_⟩
  · rw [hsplit]
    exact fun hmem => (hvalid [] hmem).1 rfl
  · intro hdot
    rw [hdot] at hsplit
    have hname : ['.'] ∈ path := hsplit ▸ List.mem_singleton_self _
    exact (hvalid _ hname).2.2.1 rfl

theorem workspacePatternMatches_iff {pattern : Text} {path : List Text}
    (hvalid : ∀ name ∈ path, ValidName name) (hslash : ∀ name ∈ path, '\\' ∉ name) (hne : path ≠ []) :
    workspacePatternMatches pattern (pathText path) = true ↔
      pattern ≠ ['.'] ∧ List.Forall₂ (fun part name => wildcardMatch part name = true)
        (segments (trimSlashes pattern)) path := by
  obtain ⟨hpath, htrim, hdot⟩ := segments_pathText hvalid hslash hne
  rw [← htrim] at hpath
  unfold workspacePatternMatches
  by_cases hpattern : pattern = ['.']
  · simp [hpattern, Ne.symm hdot]
  · simp only [hpattern, hdot, if_false, hpath, List.forall₂_iff_zip, Bool.and_eq_true,
      decide_eq_true_eq, List.all_eq_true, ← wildcardMatch_eq, ne_eq, not_false_eq_true, true_and,
      Prod.forall, Bool.or_self, Bool.false_eq_true, decide_false]

theorem workspacePatternMatches_not_plain {pattern : Text} {path : List Text}
    (hvalid : ∀ name ∈ path, ValidName name) (hslash : ∀ name ∈ path, '\\' ∉ name) (hne : path ≠ [])
    (hplain : ¬ Plain pattern) : workspacePatternMatches pattern (pathText path) = false := by
  rw [Bool.eq_false_iff]
  intro hmatch
  obtain ⟨hdot, hall⟩ := (workspacePatternMatches_iff hvalid hslash hne).1 hmatch
  refine hplain (Or.inr fun part hpart => ?_)
  obtain ⟨name, hname, hpart⟩ : ∃ name ∈ path, wildcardMatch part name = true := by
    obtain ⟨i, hi, rfl⟩ := List.getElem_of_mem hpart
    have hlt : i < path.length := hall.length_eq ▸ hi
    exact ⟨path[i], List.getElem_mem hlt, (List.forall₂_iff_get.1 hall).2 i hi hlt⟩
  refine ⟨?_, ?_, fun hmem => hslash name hname (mem_of_wildcardMatch hpart hmem (by decide))⟩
  · rintro rfl
    rw [wildcardMatch_literal name (by simp)] at hpart
    exact (hvalid name hname).1 (of_decide_eq_true hpart).symm
  · rintro rfl
    rw [wildcardMatch_literal name (by decide)] at hpart
    exact (hvalid name hname).2.2.1 (of_decide_eq_true hpart).symm

end Nomo.Membership
