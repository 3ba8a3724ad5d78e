import Nomo.Deps.Version

/-!
# Choosing a version

`select_highest_version` (`nomo_resolver/src/solver.rs`): of the candidates that are not yanked, the
highest that satisfies every constraint. A version that is listed both as available and as yanked
counts as yanked, in whatever order the registry lists the two.
-/

namespace Nomo.Deps

open Nomo.Lib Nomo.Lib.Checked

/-- `VersionCandidate`. -/
structure VersionCandidate (V : Type) where
  version : V
  yanked : Bool
deriving DecidableEq

/-- `ConstraintOrigin`: a constraint, and the dependency edges that led to it. -/
structure ConstraintOrigin (V R : Type) where
  requirement : VersionConstraint V R
  dependencyPath : List String
deriving DecidableEq

/-- `ResolutionConflict`. -/
structure ResolutionConflict (V R : Type) where
  package : String
  constraints : List (ConstraintOrigin V R)
  availableVersions : List V
  yankedVersions : List V

variable {V R : Type} (semver : Semver V R)

/-- `ConstraintOrigin::sort_key`. -/
def ConstraintOrigin.sortKey (origin : ConstraintOrigin V R) : String ×ₗ String :=
  toLex (" -> ".intercalate origin.dependencyPath, origin.requirement.normalized semver)

/-- Sorting constraints by their keys, constraints with the same key in the order they came in. -/
def sortConstraints (constraints : List (ConstraintOrigin V R)) : List (ConstraintOrigin V R) :=
  constraints.insertionSort fun a b => a.sortKey semver ≤ b.sortKey semver

/-- `ResolutionConflict::render`. -/
def ResolutionConflict.render (conflict : ResolutionConflict V R) : String :=
  let required := conflict.constraints.map fun constraint =>
    s!"\n- `{constraint.requirement.normalized semver}` required by " ++
      " -> ".intercalate constraint.dependencyPath
  let available :=
    if conflict.availableVersions = [] then
      "\n- the registry has no non-yanked versions available"
    else
      "\n- available versions: " ++ ", ".intercalate (conflict.availableVersions.map semver.text)
  let yanked :=
    if conflict.yankedVersions = [] then ""
    else
      "\n- yanked versions excluded: " ++ ", ".intercalate (conflict.yankedVersions.map semver.text)
  s!"failed to resolve package `{conflict.package}`: no available version satisfies all constraints"
    ++ String.join required ++ available ++ yanked
    ++ "\nhelp: align the listed dependency requirements or use `nomo deps update <package> --precise <version>`"

variable [LinearOrder V]

/-- One round of the loop of `normalized_candidates`: the available and the yanked versions. -/
def normalizeCandidate (sets : Std.TreeSet V × Std.TreeSet V) (candidate : VersionCandidate V) :
    Std.TreeSet V × Std.TreeSet V :=
  if candidate.yanked then (sets.1.erase candidate.version, sets.2.insert candidate.version)
  else if candidate.version ∈ sets.2 then sets
  else (sets.1.insert candidate.version, sets.2)

/-- `normalized_candidates`. -/
def normalizedCandidates (candidates : List (VersionCandidate V)) : List V × List V :=
  let sets := candidates.foldl normalizeCandidate (∅, ∅)
  (sets.1.toList, sets.2.toList)

/-- A version satisfies every constraint. -/
def satisfiesAll (constraints : List (ConstraintOrigin V R)) (version : V) : Bool :=
  constraints.all fun constraint => constraint.requirement.matches semver version

/-- `has_satisfying_version`. -/
def hasSatisfyingVersion (available : List V) (constraints : List (ConstraintOrigin V R)) : Bool :=
  available.any (satisfiesAll semver constraints)

/-- The loop of `minimal_unsatisfied_constraints`, with the constraints before and from `index`. -/
def minimalUnsatisfied (available : List V) (kept : List (ConstraintOrigin V R)) :
    List (ConstraintOrigin V R) → List (ConstraintOrigin V R)
  | [] => kept
  | constraint :: rest =>
    if hasSatisfyingVersion semver available (kept ++ rest) then
      minimalUnsatisfied available (kept ++ [constraint]) rest
    else minimalUnsatisfied available kept rest

/-- `select_highest_version`. -/
def selectHighestVersion (package : String) (candidates : List (VersionCandidate V))
    (constraints : List (ConstraintOrigin V R)) : Except (ResolutionConflict V R) V :=
  let (available, yanked) := normalizedCandidates candidates
  match available.reverse.find? (satisfiesAll semver constraints) with
  | some selected => .ok selected
  | none => .error
      { package
        constraints := minimalUnsatisfied semver available [] (sortConstraints semver constraints)
        availableVersions := available
        yankedVersions := yanked }

/-! ## What it selects -/

/-- A version on offer: a candidate has it, and no candidate says that it is yanked. -/
def Available (candidates : List (VersionCandidate V)) (version : V) : Prop :=
  (∃ candidate ∈ candidates, candidate.version = version) ∧
    ∀ candidate ∈ candidates, candidate.version = version → candidate.yanked = false

variable {candidates : List (VersionCandidate V)}

omit [LinearOrder V] in
theorem available_append {candidate : VersionCandidate V} {version : V} :
    Available (candidates ++ [candidate]) version ↔
      (Available candidates version ∨
          ((∀ c ∈ candidates, c.version ≠ version) ∧ candidate.version = version)) ∧
        (candidate.version = version → candidate.yanked = false) := by
  unfold Available
  simp only [List.mem_append, List.mem_singleton]
  grind

theorem mem_normalize (candidates : List (VersionCandidate V)) (version : V) :
    (version ∈ (candidates.foldl normalizeCandidate (∅, ∅)).1 ↔ Available candidates version) ∧
      (version ∈ (candidates.foldl normalizeCandidate (∅, ∅)).2 ↔
        ∃ candidate ∈ candidates, candidate.version = version ∧ candidate.yanked = true) := by
  induction candidates using List.reverseRecOn with
  | nil => simp [Available]
  | append_singleton candidates candidate ih =>
    rw [List.foldl_append, available_append]
    generalize candidates.foldl normalizeCandidate (∅, ∅) = sets at ih ⊢
    obtain ⟨available, yanked⟩ := sets
    obtain ⟨havailable, hyanked⟩ := ih
    have hlast : (∃ c ∈ candidates ++ [candidate], c.version = version ∧ c.yanked = true) ↔
        version ∈ yanked ∨ (candidate.version = version ∧ candidate.yanked = true) := by
      rw [hyanked]
      simp [or_and_right, exists_or]
    rw [hlast]
    simp only at havailable hyanked
    cases hy : candidate.yanked with
    | true =>
      simp only [List.foldl_cons, List.foldl_nil, normalizeCandidate, hy, if_true,
        Std.TreeSet.mem_erase, Std.TreeSet.mem_insert, havailable, ne_eq,
        Std.LawfulEqCmp.compare_eq_iff_eq]
      grind
    | false =>
      by_cases hmem : candidate.version ∈ yanked
      · have hnot : version = candidate.version → ¬ Available candidates version := by
          rintro rfl havail
          obtain ⟨c, hc, hversion, hyank⟩ := hyanked.mp hmem
          simp [havail.2 c hc hversion] at hyank
        have hsome : version = candidate.version → ∃ c ∈ candidates, c.version = version := by
          rintro rfl
          obtain ⟨c, hc, hversion, -⟩ := hyanked.mp hmem
          exact ⟨c, hc, hversion⟩
        simp only [List.foldl_cons, List.foldl_nil, normalizeCandidate, hy, hmem, if_true,
          Bool.false_eq_true, if_false, havailable]
        grind
      · simp only [List.foldl_cons, List.foldl_nil, normalizeCandidate, hy, hmem,
          Bool.false_eq_true, if_false, Std.TreeSet.mem_insert, havailable,
          Std.LawfulEqCmp.compare_eq_iff_eq]
        have hfresh : candidate.version = version → ¬ Available candidates version →
            ∀ c ∈ candidates, c.version ≠ version := by
          rintro rfl hnot c hc hversion
          refine hnot ⟨⟨c, hc, hversion⟩, fun c' hc' hversion' => ?_⟩
          by_contra hyank
          exact hmem (hyanked.mpr ⟨c', hc', hversion', by simpa using hyank⟩)
        grind

theorem mem_normalizedCandidates {version : V} :
    version ∈ (normalizedCandidates candidates).1 ↔ Available candidates version := by
  rw [← (mem_normalize candidates version).1]
  exact Std.TreeSet.mem_toList

theorem sorted_normalizedCandidates (candidates : List (VersionCandidate V)) :
    (normalizedCandidates candidates).1.Pairwise (· < ·) := by
  have hsorted := (candidates.foldl normalizeCandidate (∅, ∅)).1.ordered_toList
  exact hsorted.imp compare_lt_iff_lt.mp

variable {constraints : List (ConstraintOrigin V R)}

/-- **The highest version on offer** that satisfies every constraint is selected. -/
theorem isGreatest_selectHighestVersion {package : String} {selected : V}
    (h : selectHighestVersion semver package candidates constraints = .ok selected) :
    IsGreatest {version | Available candidates version ∧
      ∀ origin ∈ constraints, origin.requirement.matches semver version = true} selected := by
  unfold selectHighestVersion at h
  have hsorted := sorted_normalizedCandidates candidates
  have hmem (version) : version ∈ (normalizedCandidates candidates).1 ↔ _ := mem_normalizedCandidates
  generalize normalizedCandidates candidates = sets at h hsorted hmem
  obtain ⟨available, yanked⟩ := sets
  simp only at h hsorted hmem
  split at h
  · rename_i found hfound
    obtain rfl : found = selected := by simpa using h
    have hsat := List.find?_some hfound
    simp only [satisfiesAll, List.all_eq_true] at hsat
    refine ⟨⟨(hmem _).mp ?_, hsat⟩, ?_⟩
    · simpa using List.mem_of_find?_eq_some hfound
    rintro version ⟨havailable, hversion⟩
    obtain ⟨-, before, after, hsplit, hbefore⟩ := List.find?_eq_some_iff_append.mp hfound
    have hin : version ∈ before ++ found :: after := by
      rw [← hsplit]
      simpa using (hmem _).mpr havailable
    have hpairwise : (before ++ found :: after).Pairwise (· > ·) := by
      rw [← hsplit]
      exact List.pairwise_reverse.mpr hsorted
    rcases List.mem_append.mp hin with hb | hf
    · have hnot := hbefore version hb
      simp only [satisfiesAll, List.all_eq_true.mpr hversion] at hnot
      simp at hnot
    · rcases List.mem_cons.mp hf with rfl | ha
      · exact le_refl _
      · have htail := (List.pairwise_append.mp hpairwise).2.1
        exact le_of_lt (List.rel_of_pairwise_cons htail ha)
  · cases h

/-! ## What it reports -/

variable {available : List V}

theorem hasSatisfyingVersion_iff :
    hasSatisfyingVersion semver available constraints = true ↔
      ∃ version ∈ available, ∀ origin ∈ constraints,
        origin.requirement.matches semver version = true := by
  simp [hasSatisfyingVersion, satisfiesAll]

theorem hasSatisfyingVersion_mono {fewer : List (ConstraintOrigin V R)}
    (hsubset : fewer ⊆ constraints) (h : hasSatisfyingVersion semver available constraints = true) :
    hasSatisfyingVersion semver available fewer = true := by
  rw [hasSatisfyingVersion_iff] at h ⊢
  obtain ⟨version, hversion, hall⟩ := h
  exact ⟨version, hversion, fun origin horigin => hall origin (hsubset horigin)⟩

/-- **The constraints left over**: some of those given, which no version satisfies together, and any but
one of them are satisfied by some version. What was kept stays needed, since the constraints only get
fewer. -/
theorem minimalUnsatisfied_spec {kept rest : List (ConstraintOrigin V R)}
    (hunsatisfied : hasSatisfyingVersion semver available (kept ++ rest) = false)
    (hneeded : ∀ before constraint after, kept = before ++ constraint :: after → hasSatisfyingVersion semver available (before ++ after ++ rest) = true) :
    (minimalUnsatisfied semver available kept rest).Sublist (kept ++ rest) ∧
      hasSatisfyingVersion semver available (minimalUnsatisfied semver available kept rest) = false ∧
      ∀ before constraint after,
        minimalUnsatisfied semver available kept rest = before ++ constraint :: after →
          hasSatisfyingVersion semver available (before ++ after) = true := by
  induction rest generalizing kept with
  | nil =>
    simp only [List.append_nil] at hunsatisfied hneeded ⊢
    exact ⟨.refl kept, hunsatisfied, hneeded⟩
  | cons constraint rest ih =>
    unfold minimalUnsatisfied
    split_ifs with hwithout
    · -- it is needed
      have hsplit : kept ++ constraint :: rest = kept ++ [constraint] ++ rest := by simp
      rw [hsplit] at hunsatisfied ⊢
      refine ih hunsatisfied fun before other after hkept => ?_
      rcases List.eq_nil_or_concat after with rfl | ⟨after, last, rfl⟩
      · obtain ⟨rfl, -⟩ := List.append_inj' hkept rfl
        simpa using hwithout
      have hlast : kept ++ [constraint] = before ++ other :: after ++ [last] := by simpa using hkept
      obtain ⟨hinit, hconstraint⟩ := List.append_inj' hlast rfl
      obtain rfl := List.singleton_inj.mp hconstraint
      have hbefore := hneeded before other after hinit
      simpa using hbefore
    · -- it is not: what is left is unsatisfied without it
      have hfewer : hasSatisfyingVersion semver available (kept ++ rest) = false := by
        simpa using hwithout
      obtain ⟨hsublist, hresult⟩ := ih hfewer fun before other after hkept =>
        hasSatisfyingVersion_mono semver
          (List.append_subset.2 ⟨List.subset_append_left _ _, fun origin horigin => by simp [horigin]⟩)
          (hneeded before other after hkept)
      exact ⟨hsublist.trans ((List.Sublist.refl kept).append (List.sublist_cons_self _ _)), hresult⟩

theorem normalizedCandidates_perm {candidates' : List (VersionCandidate V)}
    (h : candidates.Perm candidates') :
    normalizedCandidates candidates = normalizedCandidates candidates' := by
  have hlist : ∀ {set set' : Std.TreeSet V}, (∀ version, version ∈ set ↔ version ∈ set') →
      set.toList = set'.toList := by
    intro set set' hsame
    have hsorted (set : Std.TreeSet V) : set.toList.Pairwise (· < ·) := set.ordered_toList.imp compare_lt_iff_lt.mp
    exact (hsorted set).eq_of_mem_iff (hsorted set') fun {version} => by
      rw [Std.TreeSet.mem_toList, Std.TreeSet.mem_toList, hsame]
  refine Prod.ext (hlist fun version => ?_) (hlist fun version => ?_)
  · rw [(mem_normalize candidates version).1, (mem_normalize candidates' version).1]
    simp only [Available, h.mem_iff]
  · rw [(mem_normalize candidates version).2, (mem_normalize candidates' version).2]
    simp only [h.mem_iff]

/-- The versions that `select_highest_version` chooses from. -/
def SatisfyingVersions (candidates : List (VersionCandidate V)) (constraints : List (ConstraintOrigin V R)) :
    Set V :=
  {version | Available candidates version ∧
    ∀ origin ∈ constraints, origin.requirement.matches semver version = true}

theorem satisfyingVersions_perm {candidates' : List (VersionCandidate V)}
    {constraints' : List (ConstraintOrigin V R)} (hcandidates : candidates.Perm candidates')
    (hconstraints : constraints.Perm constraints') :
    SatisfyingVersions semver candidates constraints = SatisfyingVersions semver candidates' constraints' := by
  ext version
  simp only [SatisfyingVersions, Available, Set.mem_ofPred_eq, hcandidates.mem_iff, hconstraints.mem_iff]

theorem hasSatisfyingVersion_normalized :
    hasSatisfyingVersion semver (normalizedCandidates candidates).1 constraints = true ↔
      (SatisfyingVersions semver candidates constraints).Nonempty := by
  rw [hasSatisfyingVersion_iff]
  simp only [mem_normalizedCandidates]
  rfl

theorem selectHighestVersion_eq_error {package : String} {conflict : ResolutionConflict V R}
    (h : selectHighestVersion semver package candidates constraints = .error conflict) :
    SatisfyingVersions semver candidates constraints = ∅ ∧
      conflict.constraints = minimalUnsatisfied semver (normalizedCandidates candidates).1 []
        (sortConstraints semver constraints) := by
  unfold selectHighestVersion at h
  simp only at h
  split at h
  · cases h
  rename_i hnone
  obtain rfl := Except.error.inj h
  refine ⟨?_, rfl⟩
  rw [← Set.not_nonempty_iff_eq_empty, ← hasSatisfyingVersion_normalized, hasSatisfyingVersion_iff]
  rintro ⟨version, hversion, hall⟩
  have hnot := List.find?_eq_none.mp hnone version (List.mem_reverse.mpr hversion)
  simp only [satisfiesAll, List.all_eq_true] at hnot
  exact hnot hall

/-- **Version selection.** The version selected is the greatest that satisfies every constraint and is
yanked in no candidate, whatever the order of the candidates and of the constraints. If there is none, a
conflict is reported: constraints out of those given that no candidate satisfies together, of which any
one can be dropped for a candidate to satisfy the others. The order of the candidates does not change
the report either. -/
theorem selectHighestVersion_correct (package : String) (candidates : List (VersionCandidate V))
    (constraints : List (ConstraintOrigin V R)) :
    (∀ selected, selectHighestVersion semver package candidates constraints = .ok selected ↔
      IsGreatest (SatisfyingVersions semver candidates constraints) selected) ∧
    (∀ candidates' constraints', candidates'.Perm candidates → constraints'.Perm constraints →
      (selectHighestVersion semver package candidates' constraints').toOption =
        (selectHighestVersion semver package candidates constraints).toOption) ∧
    (∀ candidates', candidates'.Perm candidates →
      selectHighestVersion semver package candidates' constraints =
        selectHighestVersion semver package candidates constraints) ∧
    ∀ conflict, selectHighestVersion semver package candidates constraints = .error conflict →
      conflict.constraints.Subperm constraints ∧
      SatisfyingVersions semver candidates conflict.constraints = ∅ ∧
      ∀ before constraint after, conflict.constraints = before ++ constraint :: after →
        (SatisfyingVersions semver candidates (before ++ after)).Nonempty := by
  have hok : ∀ candidates constraints selected,
      selectHighestVersion semver package candidates constraints = .ok selected ↔
        IsGreatest (SatisfyingVersions semver candidates constraints) selected := by
    intro candidates constraints selected
    refine ⟨isGreatest_selectHighestVersion semver, fun hgreatest => ?_⟩
    cases hselect : selectHighestVersion semver package candidates constraints with
    | ok other =>
      rw [hgreatest.unique (isGreatest_selectHighestVersion semver hselect)]
    | error conflict =>
      have hempty := (selectHighestVersion_eq_error semver hselect).1
      exact absurd hgreatest.1 (hempty ▸ Set.notMem_empty selected)
  refine ⟨hok candidates constraints, fun candidates' constraints' hcandidates hconstraints => ?_,
    fun candidates' hcandidates => ?_, fun conflict hconflict => ?_⟩
  · have hsame := satisfyingVersions_perm semver hcandidates hconstraints
    ext selected
    have htoOption (result : Except (ResolutionConflict V R) V) :
        result.toOption = some selected ↔ result = .ok selected := by
      cases result <;> simp [Except.toOption]
    rw [htoOption, htoOption, hok, hok, hsame]
  · unfold selectHighestVersion
    rw [normalizedCandidates_perm hcandidates]
  obtain ⟨hempty, hconstraints⟩ := selectHighestVersion_eq_error semver hconflict
  have hsorted : (sortConstraints semver constraints).Perm constraints :=
    List.perm_insertionSort _ constraints
  have hunsatisfied : hasSatisfyingVersion semver (normalizedCandidates candidates).1
      ([] ++ sortConstraints semver constraints) = false := by
    rw [List.nil_append, ← Bool.not_eq_true, hasSatisfyingVersion_normalized,
      satisfyingVersions_perm semver (.refl candidates) hsorted, hempty]
    exact Set.not_nonempty_empty
  obtain ⟨hsublist, hnone, hneeded⟩ := minimalUnsatisfied_spec semver hunsatisfied
    (fun before constraint after h => by simp at h)
  rw [← hconstraints] at hsublist hnone hneeded
  refine ⟨hsublist.subperm.trans hsorted.subperm, ?_, fun before constraint after hsplit => ?_⟩
  · rw [← Set.not_nonempty_iff_eq_empty, ← hasSatisfyingVersion_normalized, hnone]
    exact Bool.false_ne_true
  · exact (hasSatisfyingVersion_normalized semver).mp (hneeded before constraint after hsplit)

end Nomo.Deps
