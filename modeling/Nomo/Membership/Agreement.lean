import Nomo.Membership.Discovery

/-!
# Discovery and membership

Where discovery succeeds, its projects are the directories that some entry expands to and that its
exclude test lets through.  A package belongs to the workspace when some entry matches its path and
the other exclude test lets it through.  For paths without backslashes the entries that match are
those in plain spelling that expand to the path.
-/

namespace Nomo.Membership

open Nomo.Lib Nomo.Lib.Checked

variable {disk : Disk} {context : WorkspaceContext} {roots roots' : List (List Text × List Text)}

/-! ## What discovery lists -/

/-- The members so far are where their spelled paths lead, below the workspace root, each found
once. -/
def Reached (disk : Disk) (context : WorkspaceContext) (roots : List (List Text × List Text)) : Prop :=
  (∀ root ∈ roots, disk.walk context.root root.2 = some root.1 ∧ context.root <+: root.1) ∧
    (roots.map Prod.fst).Nodup

/-- The paths that discovery's exclude test lets through. -/
def listedRoots (context : WorkspaceContext) (expanded : List (List Text)) : List (List Text) :=
  expanded.filter fun spelled => !workspacePathIsExcluded (pathText spelled) context.exclude

theorem visitRoot_ok {spelled : List Text} (hroots : Reached disk context roots)
    (h : visitRoot disk context roots spelled = .ok roots') :
    Reached disk context roots' ∧
      roots'.map Prod.snd = roots.map Prod.snd ++ listedRoots context [spelled] := by
  unfold visitRoot at h
  dsimp only at h
  by_cases hexcluded : workspacePathIsExcluded (pathText spelled) context.exclude
  · rw [if_pos hexcluded] at h
    cases h
    refine ⟨hroots, ?_⟩
    simp [listedRoots, hexcluded]
  rw [if_neg hexcluded] at h
  cases hwalk : disk.walk context.root spelled with
  | none =>
    rw [hwalk] at h
    exact nomatch h
  | some canonical =>
    rw [hwalk] at h
    dsimp only at h
    split at h
    next => exact nomatch h
    next manifest _ =>
      split_ifs at h with hbelow
      split at h
      next => exact nomatch h
      next hfresh =>
        obtain ⟨_, -, hok⟩ := bind_eq_ok.1 h
        cases hok
        refine ⟨⟨?_, ?_⟩, ?_⟩
        · intro root hroot
          rcases List.mem_append.1 hroot with hroot | hroot
          · exact hroots.1 root hroot
          · obtain rfl := List.mem_singleton.1 hroot
            exact ⟨hwalk, by simpa using hbelow⟩
        · rw [List.map_append, List.nodup_append]
          refine ⟨hroots.2, by simp, ?_⟩
          rintro _ hmem _ hlast rfl
          obtain ⟨root, hroot, rfl⟩ := List.mem_map.1 hmem
          have hne := List.find?_eq_none.1 hfresh root hroot
          rw [List.map_singleton, List.mem_singleton] at hlast
          exact hne (by simpa using hlast)
        · simp [listedRoots, hexcluded]

theorem visitRoots_ok {expanded : List (List Text)} (hroots : Reached disk context roots)
    (h : expanded.foldlM (visitRoot disk context) roots = .ok roots') :
    Reached disk context roots' ∧
      roots'.map Prod.snd = roots.map Prod.snd ++ listedRoots context expanded := by
  induction expanded generalizing roots with
  | nil =>
    cases h
    exact ⟨hroots, by simp [listedRoots]⟩
  | cons spelled expanded ih =>
    rw [List.foldlM_cons] at h
    obtain ⟨roots₁, h1, h2⟩ := bind_eq_ok.1 h
    obtain ⟨hreached, hmap⟩ := visitRoot_ok hroots h1
    obtain ⟨hreached', hmap'⟩ := ih hreached h2
    refine ⟨hreached', ?_⟩
    rw [hmap', hmap, List.append_assoc]
    congr 1
    exact (List.filter_append [spelled] expanded).symm

theorem visitPatterns_ok {patterns : List Text} (hroots : Reached disk context roots)
    (h : patterns.foldlM (visitPattern disk context) roots = .ok roots') :
    Reached disk context roots' ∧ roots'.map Prod.snd = roots.map Prod.snd
      ++ listedRoots context (patterns.flatMap (expandWorkspacePattern disk context)) := by
  induction patterns generalizing roots with
  | nil =>
    cases h
    exact ⟨hroots, by simp [listedRoots]⟩
  | cons pattern patterns ih =>
    rw [List.foldlM_cons] at h
    obtain ⟨roots₁, h1, h2⟩ := bind_eq_ok.1 h
    rw [visitPattern] at h1
    split_ifs at h1
    obtain ⟨hreached, hmap⟩ := visitRoots_ok hroots h1
    obtain ⟨hreached', hmap'⟩ := ih hreached h2
    refine ⟨hreached', ?_⟩
    rw [hmap', hmap, List.append_assoc, List.flatMap_cons]
    congr 1
    exact (List.filter_append _ _).symm

/-- **What discovery lists.** The projects are what the entries expand to and the exclude test lets
through, and no two of them are the same directory. -/
theorem workspaceProjectsFromPatterns_ok {discoverProject : List Text → Except String Unit}
    {patterns : List Text} {projects : List (List Text)}
    (h : workspaceProjectsFromPatterns disk context discoverProject patterns = .ok projects) :
    projects = listedRoots context (patterns.flatMap (expandWorkspacePattern disk context)) ∧
      (projects.map (disk.walk context.root)).Nodup ∧
        ∀ spelled ∈ projects, ∀ dir, disk.walk context.root spelled = some dir →
          context.root <+: dir := by
  obtain ⟨roots, h1, h2⟩ := bind_eq_ok.1 h
  have hempty : Reached disk context [] := ⟨fun _ hr => (nomatch hr), List.nodup_nil⟩
  obtain ⟨⟨hwalk, hnodup⟩, hmap⟩ := visitPatterns_ok hempty h1
  have hprojects : projects = roots.map Prod.snd := by
    clear hwalk hnodup hmap h1 h
    induction roots generalizing projects with
    | nil =>
      cases h2
      rfl
    | cons root roots ih =>
      rw [List.mapM_cons] at h2
      obtain ⟨spelled, h3, h2⟩ := bind_eq_ok.1 h2
      obtain ⟨_, -, h3⟩ := bind_eq_ok.1 h3
      cases h3
      obtain ⟨rest, h4, h2⟩ := bind_eq_ok.1 h2
      cases h2
      rw [ih h4]
      rfl
  refine ⟨hprojects.trans hmap, ?_, ?_⟩
  · have hcanonical : projects.map (disk.walk context.root) = (roots.map Prod.fst).map some := by
      rw [hprojects, List.map_map, List.map_map]
      exact List.map_congr_left fun root hroot => (hwalk root hroot).1
    rw [hcanonical]
    exact hnodup.map (Option.some_injective _)
  · rw [hprojects]
    intro spelled hspelled dir hdir
    obtain ⟨root, hroot, rfl⟩ := List.mem_map.1 hspelled
    obtain ⟨hcanonical, hbelow⟩ := hwalk root hroot
    obtain rfl : root.1 = dir := Option.some.inj (hcanonical.symm.trans hdir)
    exact hbelow

/-! ## Entries and paths -/

section

variable {pattern : Text} {t : List Text}

theorem validateWorkspacePatterns_ok {field : String} {patterns : List Text}
    (h : validateWorkspacePatterns field patterns = .ok ()) (hpattern : pattern ∈ patterns) :
    parentDir ∉ segments pattern := by
  unfold validateWorkspacePatterns at h
  induction patterns with
  | nil => exact nomatch hpattern
  | cons first patterns ih =>
    have h : (validateWorkspacePattern field first >>= fun _ =>
      patterns.forM (validateWorkspacePattern field)) = .ok () := h
    obtain ⟨_, h1, h2⟩ := bind_eq_ok.1 h
    rcases List.mem_cons.1 hpattern with rfl | hpattern
    · unfold validateWorkspacePattern at h1
      split_ifs at h1 with hbad
      simp only [Bool.or_eq_true, not_or] at hbad
      simpa using hbad.2
    · exact ih h2 hpattern

theorem parentDir_not_mem_patternParts (hplain : Plain pattern)
    (hvalid : parentDir ∉ segments pattern) : parentDir ∉ patternParts pattern := by
  by_cases hdot : pattern = ['.']
  · rw [hdot, patternParts_dot]
    exact List.not_mem_nil
  rw [patternParts_plain hplain hdot]
  intro hmem
  have hfilter : parentDir ∈ (segments (trimSlashes pattern)).filter fun part => !part.isEmpty :=
    List.mem_filter.2 ⟨hmem, rfl⟩
  rw [filter_segments_trimSlashes] at hfilter
  exact hvalid (List.mem_filter.1 hfilter).1

theorem walk_of_plain (hplain : Plain pattern) (hvalid : parentDir ∉ segments pattern)
    (h : t ∈ expandWorkspacePattern disk context pattern) :
    disk.walk context.root t = some (context.root ++ t) := by
  obtain ⟨t, rfl, hparent, hwalk, -⟩ :=
    expandWorkspacePatternParts_sound (parentDir_not_mem_patternParts hplain hvalid) h
  obtain ⟨target, htarget⟩ := Option.isSome_iff_exists.1 hwalk
  rw [htarget, Disk.walk_eq htarget hparent]

/-- **What an entry means for a package.** For a path without backslashes an entry matches if and only
if it is plain and expands to the path. -/
theorem workspacePatternMatches_iff_expands (hpackage : disk.IsPackage (context.root ++ t))
    (hslash : ∀ name ∈ t, '\\' ∉ name) (hvalid : parentDir ∉ segments pattern) :
    workspacePatternMatches pattern (relativeText t) = true ↔
      Plain pattern ∧ t ∈ expandWorkspacePattern disk context pattern := by
  have hwalk := hpackage.walk_root
  have hnames (name) (hname : name ∈ t) : ValidName name := hpackage.valid name (List.mem_append_right _ hname)
  by_cases ht : t = []
  · subst ht
    have hmatch : workspacePatternMatches pattern (relativeText []) = true ↔ pattern = ['.'] := by
      simp [workspacePatternMatches, relativeText]
    rw [hmatch]
    constructor
    · rintro rfl
      refine ⟨Or.inl rfl, ?_⟩
      rw [expandWorkspacePattern, patternParts_dot, expandWorkspacePatternParts, hwalk]
      exact List.mem_singleton_self _
    · rintro ⟨hplain, hmem⟩
      by_contra hdot
      obtain ⟨u, hu, -, -, hall⟩ :=
        expandWorkspacePatternParts_sound (parentDir_not_mem_patternParts hplain hvalid) hmem
      obtain rfl : u = [] := by simpa using hu.symm
      rw [patternParts_plain hplain hdot, List.forall₂_nil_right_iff] at hall
      exact List.splitOn_ne_nil _ _ hall
  · rw [relativeText, if_neg ht]
    by_cases hplain : Plain pattern
    · rw [workspacePatternMatches_iff hnames hslash ht]
      by_cases hdot : pattern = ['.']
      · refine iff_of_false (fun h => h.1 hdot) fun h => ht ?_
        have hmem := h.2
        rw [hdot, expandWorkspacePattern, patternParts_dot, expandWorkspacePatternParts] at hmem
        split_ifs at hmem
        · exact List.mem_singleton.1 hmem
        · cases hmem
      rw [← patternParts_plain hplain hdot]
      constructor
      · rintro ⟨-, hall⟩
        refine ⟨hplain, ?_⟩
        have hmem : [] ++ t ∈ expandWorkspacePattern disk context pattern :=
          expandWorkspacePatternParts_complete (parentDir_not_mem hnames)
            (by rw [List.nil_append, hwalk]; rfl) hall
        rwa [List.nil_append] at hmem
      · rintro ⟨-, hmem⟩
        obtain ⟨u, hu, -, -, hall⟩ :=
          expandWorkspacePatternParts_sound (parentDir_not_mem_patternParts hplain hvalid) hmem
        rw [List.nil_append] at hu
        exact ⟨hdot, hu ▸ hall⟩
    · rw [workspacePatternMatches_not_plain hnames hslash ht hplain]
      exact iff_of_false Bool.false_ne_true fun h => hplain h.1

end

/-! ## Agreement -/

/-- Some plain entry expands to the path. -/
def Named (disk : Disk) (context : WorkspaceContext) (t : List Text) : Prop :=
  ∃ pattern ∈ context.members, Plain pattern ∧ t ∈ expandWorkspacePattern disk context pattern

/-- Some entry that is not plain leads to the directory, past discovery's exclude test. -/
def Misnamed (disk : Disk) (context : WorkspaceContext) (dir : List Text) : Prop :=
  ∃ pattern ∈ context.members, ¬ Plain pattern ∧
    ∃ spelled ∈ expandWorkspacePattern disk context pattern,
      disk.walk context.root spelled = some dir ∧
        workspacePathIsExcluded (pathText spelled) context.exclude = false

/-- The entries of a workspace are read the same way for one package below its root.  Where the path
has no backslash: no entry that is not plain leads there (or a plain one does as well, and only
discovery excludes it), and if a plain one does then both exclude tests say the same.  Where it has
one, texts and paths are not the same any more, and what is listed past one exclude test must be what
matches past the other. -/
def Understood (disk : Disk) (context : WorkspaceContext) (t : List Text) : Prop :=
  if ∀ name ∈ t, '\\' ∉ name then
    (Misnamed disk context (context.root ++ t) →
      Named disk context t ∧ contextExcludes context.exclude (relativeText t) = false) ∧
    (¬ Misnamed disk context (context.root ++ t) → Named disk context t →
      workspacePathIsExcluded (pathText t) context.exclude
        = contextExcludes context.exclude (relativeText t))
  else
    (∃ pattern ∈ context.members, ∃ spelled ∈ expandWorkspacePattern disk context pattern,
        disk.walk context.root spelled = some (context.root ++ t) ∧
          workspacePathIsExcluded (pathText spelled) context.exclude = false) ↔
      (∃ pattern ∈ context.members, workspacePatternMatches pattern (relativeText t) = true) ∧
        contextExcludes context.exclude (relativeText t) = false

section

variable {discoverProject : List Text → Except String Unit} {projects : List (List Text)}
  {t dir : List Text}

theorem listed_iff
    (h : workspaceProjectsFromPatterns disk context discoverProject context.members = .ok projects) :
    (∃ spelled ∈ projects, disk.walk context.root spelled = some dir) ↔
      ∃ pattern ∈ context.members, ∃ spelled ∈ expandWorkspacePattern disk context pattern,
        disk.walk context.root spelled = some dir ∧
          workspacePathIsExcluded (pathText spelled) context.exclude = false := by
  rw [(workspaceProjectsFromPatterns_ok h).1]
  constructor
  · rintro ⟨spelled, hspelled, hwalk⟩
    obtain ⟨hmem, hexcluded⟩ := List.mem_filter.1 hspelled
    obtain ⟨pattern, hpattern, hmem⟩ := List.mem_flatMap.1 hmem
    exact ⟨pattern, hpattern, spelled, hmem, hwalk, by simpa using hexcluded⟩
  · rintro ⟨pattern, hpattern, spelled, hmem, hwalk, hexcluded⟩
    refine ⟨spelled, List.mem_filter.2 ⟨List.mem_flatMap.2 ⟨pattern, hpattern, hmem⟩, ?_⟩, hwalk⟩
    simp [hexcluded]

theorem includes_iff (t : List Text) :
    workspaceContextIncludesRoot context (context.root ++ t) = true ↔
      (∃ pattern ∈ context.members, workspacePatternMatches pattern (relativeText t) = true) ∧
        contextExcludes context.exclude (relativeText t) = false := by
  have hdrop : (context.root ++ t).dropPrefix? context.root = some t :=
    List.dropPrefix?_append_of_beq t (by simp)
  unfold workspaceContextIncludesRoot
  rw [hdrop]
  simp [List.any_eq_true]

/-- One directory is not listed through a plain entry and through one that is not. -/
theorem not_misnamed_of_named
    (h : workspaceProjectsFromPatterns disk context discoverProject context.members = .ok projects)
    (hnamed : Named disk context t)
    (hexcluded : workspacePathIsExcluded (pathText t) context.exclude = false) :
    ¬ Misnamed disk context (context.root ++ t) := by
  rintro ⟨p, hp, hunplain, s, hs, hwalk, hsexcluded⟩
  obtain ⟨q, hq, hplain, ht⟩ := hnamed
  obtain ⟨hprojects, hnodup, -⟩ := workspaceProjectsFromPatterns_ok h
  have hwalk' := walk_of_plain hplain (validateWorkspacePatterns_ok context.members_valid hq) ht
  rw [hprojects, listedRoots, List.filter_flatMap, List.map_flatMap, List.nodup_flatMap] at hnodup
  have hne : p ≠ q := by
    rintro rfl
    exact hunplain hplain
  have : Std.Symm (Function.onFun List.Disjoint fun pattern =>
      ((expandWorkspacePattern disk context pattern).filter fun spelled =>
        !workspacePathIsExcluded (pathText spelled) context.exclude).map (disk.walk context.root)) :=
    ⟨fun _ _ hd => hd.symm⟩
  have hdisjoint := hnodup.2.forall hp hq hne
  refine hdisjoint (a := some (context.root ++ t)) ?_ ?_
  · exact List.mem_map.2 ⟨s, List.mem_filter.2 ⟨hs, by simp [hsexcluded]⟩, hwalk⟩
  · exact List.mem_map.2 ⟨t, List.mem_filter.2 ⟨ht, by simp [hexcluded]⟩, hwalk'⟩

theorem listed_iff_named
    (h : workspaceProjectsFromPatterns disk context discoverProject context.members = .ok projects) :
    (∃ spelled ∈ projects, disk.walk context.root spelled = some (context.root ++ t)) ↔
      Misnamed disk context (context.root ++ t) ∨
        (Named disk context t ∧ workspacePathIsExcluded (pathText t) context.exclude = false) := by
  rw [listed_iff h]
  constructor
  · rintro ⟨pattern, hpattern, spelled, hmem, hwalk, hexcluded⟩
    by_cases hplain : Plain pattern
    · have hwalk' := walk_of_plain hplain
        (validateWorkspacePatterns_ok context.members_valid hpattern) hmem
      rw [hwalk'] at hwalk
      obtain rfl : spelled = t := List.append_cancel_left (Option.some.inj hwalk)
      exact Or.inr ⟨⟨pattern, hpattern, hplain, hmem⟩, hexcluded⟩
    · exact Or.inl ⟨pattern, hpattern, hplain, spelled, hmem, hwalk, hexcluded⟩
  · rintro (⟨pattern, hpattern, -, spelled, hmem, hwalk, hexcluded⟩ |
      ⟨⟨pattern, hpattern, hplain, hmem⟩, hexcluded⟩)
    · exact ⟨pattern, hpattern, spelled, hmem, hwalk, hexcluded⟩
    · exact ⟨pattern, hpattern, t, hmem, walk_of_plain hplain
        (validateWorkspacePatterns_ok context.members_valid hpattern) hmem, hexcluded⟩

theorem includes_iff_named (hpackage : disk.IsPackage (context.root ++ t))
    (hslash : ∀ name ∈ t, '\\' ∉ name) :
    workspaceContextIncludesRoot context (context.root ++ t) = true ↔
      Named disk context t ∧ contextExcludes context.exclude (relativeText t) = false := by
  rw [includes_iff]
  refine and_congr_left fun _ => exists_congr fun pattern => and_congr_right fun hpattern => ?_
  exact workspacePatternMatches_iff_expands hpackage hslash
    (validateWorkspacePatterns_ok context.members_valid hpattern)

/-- For an entry without wildcards other than `.`, both exclude tests ask whether the package lies in
the directory it names. -/
theorem excludes_agree {pattern : Text} (hpackage : disk.IsPackage (context.root ++ t))
    (hslash : ∀ name ∈ t, '\\' ∉ name) (hne : t ≠ []) (hstar : '*' ∉ pattern) :
    workspacePathIsExcluded (pathText t) [pattern] = contextExcludes [pattern] (relativeText t) := by
  have hnames (name) (hname : name ∈ t) : ValidName name := hpackage.valid name (List.mem_append_right _ hname)
  obtain ⟨hsegments, htrim, hdot⟩ := segments_pathText hnames hslash hne
  have hmatch : workspacePatternMatches pattern (pathText t) = true ↔ pathText t = trimSlashes pattern := by
    rw [workspacePatternMatches_iff hnames hslash hne]
    have hliteral : ∀ part ∈ segments (trimSlashes pattern), '*' ∉ part := fun part hpart hmem =>
      hstar (mem_of_mem_trimSlashes (mem_of_mem_splitOn hpart hmem))
    constructor
    · rintro ⟨-, hall⟩
      have hsame : segments (trimSlashes pattern) = t := by
        generalize segments (trimSlashes pattern) = parts at hall hliteral
        clear hsegments htrim hdot hne hnames hslash hpackage
        induction hall with
        | nil => rfl
        | cons hpart _ ih =>
          rw [wildcardMatch_literal _ (hliteral _ (List.mem_cons_self ..))] at hpart
          rw [of_decide_eq_true hpart, ih fun part hp => hliteral part (List.mem_cons_of_mem _ hp)]
      have hjoin := congrArg (List.intercalate ['/']) (hsegments.trans hsame.symm)
      rwa [segments, segments, List.intercalate_splitOn, List.intercalate_splitOn] at hjoin
    · intro hsame
      refine ⟨?_, ?_⟩
      · rintro rfl
        exact hdot hsame
      rw [← hsame, hsegments, List.forall₂_same]
      intro name hname
      rw [wildcardMatch_literal name]
      · exact decide_eq_true rfl
      · intro hmem
        refine hliteral name ?_ hmem
        rwa [← hsame, hsegments]
  rw [relativeText, if_neg hne]
  have hcontains : pattern.contains '*' = false := by simpa using hstar
  simp only [workspacePathIsExcluded, contextExcludes, List.any_cons, List.any_nil, Bool.or_false,
    hcontains, Bool.not_false, Bool.true_and, isPrefixOf_append_slash]
  congr 1
  rw [Bool.eq_iff_iff, hmatch, decide_eq_true_eq]

/-- Where the entries of `members` are plain and those of `exclude` have no wildcards, packages below
the root without backslashes in their paths are understood. -/
theorem understood_of_plain (hmembers : ∀ pattern ∈ context.members, Plain pattern)
    (hexclude : ∀ pattern ∈ context.exclude, '*' ∉ pattern)
    (hpackage : disk.IsPackage (context.root ++ t)) (hslash : ∀ name ∈ t, '\\' ∉ name) (hne : t ≠ []) :
    Understood disk context t := by
  rw [Understood, if_pos hslash]
  refine ⟨?_, fun _ _ => ?_⟩
  · rintro ⟨pattern, hpattern, hunplain, -⟩
    exact absurd (hmembers pattern hpattern) hunplain
  generalize context.exclude = exclude at hexclude
  induction exclude with
  | nil => rfl
  | cons pattern exclude ih =>
    have hfirst := excludes_agree hpackage hslash hne (hexclude pattern (List.mem_cons_self ..))
    have hrest := ih fun pattern hp => hexclude pattern (List.mem_cons_of_mem _ hp)
    simp only [workspacePathIsExcluded, contextExcludes, List.any_cons, List.any_nil,
      Bool.or_false] at hfirst hrest ⊢
    rw [hfirst, hrest]

end

/-! ## A member spelled with a dot -/

/-- A workspace in `/ws` with one package, in `/ws/a`. -/
def onePackage : Disk where
  children path :=
    if path = [] then [['w', 's']] else if path = [['w', 's']] then [['a']] else []
  manifest path := if path = [['w', 's'], ['a']] then some (.ok ⟨.ok true, .ok false⟩) else none
  children_valid path name hname := by
    split_ifs at hname
    · obtain rfl := List.mem_singleton.1 hname
      decide
    · obtain rfl := List.mem_singleton.1 hname
      decide
    · exact nomatch hname

/-- Its manifest with `members = ["./a"]`. -/
def dotted : WorkspaceContext :=
  ⟨[['w', 's']], [['.', '/', 'a']], [], by decide, by decide⟩

/-- Its manifest with `members = ["a"]`. -/
def undotted : WorkspaceContext := ⟨[['w', 's']], [['a']], [], by decide, by decide⟩

theorem isPackage_a : onePackage.IsPackage [['w', 's'], ['a']] :=
  ⟨by decide, by decide⟩

end Nomo.Membership
