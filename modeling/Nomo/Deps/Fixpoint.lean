import Nomo.Deps.Resolution

/-!
# An unchanged pass is a fixpoint

A call of `select` early in a pass keeps the selection of the pass before, which was made under other
constraints. What makes the end of an unchanged pass consistent is a relation between the calls made
so far and the solver (`Consistent`): as long as `changed` is not set, the selection of a package is
what every call for it returned, and the constraints recorded for it are those of the calls. The end
of the pass then compares every selection with the highest version under all of them.
-/

namespace Nomo.Deps

open Nomo.Lib Nomo.Lib.Checked Nomo.SupplyChain Nomo.Resolver
open Attempt

section Fixpoint

variable {σ V R : Type}

/-- Candidates that the registry answered with. -/
def Offered (sources : Sources σ V) (package registry : String)
    (candidates : List (VersionCandidate V)) : Prop :=
  ∃ base aliasName offline authorization world world',
    (sources.loadRegistryVersionCandidates base aliasName package registry offline
      authorization).Gives world candidates world'

/-- Where the candidates for a package come from: its exact constraints, when it has no other, or its
registry. -/
def CandidatesFrom (sources : Sources σ V) (package : String) (registry : Option String)
    (constraints : List (ConstraintOrigin V R)) (candidates : List (VersionCandidate V)) : Prop :=
  (allExact constraints = true ∧ candidates = exactConstraintCandidates constraints) ∨
    (allExact constraints = false ∧ ∃ endpoint ∈ registry, Offered sources package endpoint candidates)

/-- The run goes on, in its `n`th pass. -/
def Running (n : Nat) (s : Resolution σ V R) : Prop := s.aborted = false ∧ s.passes = n

/-- The solver and the calls of this pass. -/
structure Consistent (sources : Sources σ V) (s : Resolution σ V R) : Prop where
  selected : s.solver.changed = false → ∀ call ∈ s.calls,
    s.solver.selections[call.package]? = some call.selected
  recorded : ∀ package origin, origin ∈ s.solver.constraints[package]?.getD [] ↔
    ∃ call ∈ s.calls, call.package = package ∧ call.origin = origin
  registered : ∀ call ∈ s.calls, s.solver.registries call.package = some call.registry
  loaded : ∀ package constraints, s.solver.constraints[package]? = some constraints →
    ∃ candidates, s.solver.candidatesFor package constraints = some candidates
  offered : ∀ package registry candidates,
    s.solver.candidates package registry = some candidates →
      Offered sources package registry candidates

/-- A call for `package` is under way: its registry and its constraint are recorded. -/
structure Pending (sources : Sources σ V) (package : String) (registry : Option String)
    (origin : ConstraintOrigin V R) (s : Resolution σ V R) : Prop where
  selected : s.solver.changed = false → ∀ call ∈ s.calls,
    s.solver.selections[call.package]? = some call.selected
  recorded : ∀ q o, o ∈ s.solver.constraints[q]?.getD [] ↔
    (q = package ∧ o = origin) ∨ ∃ call ∈ s.calls, call.package = q ∧ call.origin = o
  registered : ∀ call ∈ s.calls, s.solver.registries call.package = some call.registry
  registry : s.solver.registries package = some registry
  loaded : ∀ q, q ≠ package → ∀ constraints, s.solver.constraints[q]? = some constraints →
    ∃ candidates, s.solver.candidatesFor q constraints = some candidates
  offered : ∀ package registry candidates,
    s.solver.candidates package registry = some candidates →
      Offered sources package registry candidates

variable {sources : Sources σ V} {s : Resolution σ V R} {n : Nat}

/-! ## One call of `select` -/

variable {constraints : List (ConstraintOrigin V R)} {candidates : List (VersionCandidate V)}

theorem candidatesFor_mono {solver solver' : RegistrySolveState V R}
    (hregistries : ∀ p r, solver.registries p = some r → solver'.registries p = some r)
    (hcandidates : ∀ p r c, solver.candidates p r = some c → solver'.candidates p r = some c)
    {package : String} (h : solver.candidatesFor package constraints = some candidates) :
    solver'.candidatesFor package constraints = some candidates := by
  unfold RegistrySolveState.candidatesFor at h ⊢
  split_ifs at h ⊢
  · exact h
  split at h
  · rename_i registry hregistry
    rw [hregistries _ _ hregistry]
    exact hcandidates _ _ _ h
  · cases h

theorem ends_requireRegistry (hs : Consistent sources s) (hn : Running n s) (package : String)
    (registry : Option String) :
    Ends (requireRegistry package registry) (fun _ s' => Consistent sources s' ∧ Running n s' ∧
      s'.solver.registries package = some registry) (Running n) s := by
  unfold requireRegistry
  simp only [ends_bind, ends_read]
  split
  · rename_i existing hexisting
    simp only [ends_lift, require_eq_ok]
    exact ⟨fun _ h => ⟨hs, hn, h ▸ hexisting⟩, fun _ _ => hn⟩
  rename_i hnone
  simp only [solve, ends_update]
  set solver' := { s.solver with
    registries := Function.update s.solver.registries package (some registry) }
  have hmono (p r) : s.solver.registries p = some r → solver'.registries p = some r := by
    intro h
    show Function.update s.solver.registries package (some registry) p = some r
    rw [Function.update_of_ne _ _ _, h]
    rintro rfl
    rw [hnone] at h
    cases h
  refine ⟨⟨hs.selected, hs.recorded, fun call hcall => hmono _ _ (hs.registered call hcall),
    ?_, hs.offered⟩, hn, Function.update_self ..⟩
  intro p constraints hp
  obtain ⟨candidates, h⟩ := hs.loaded p constraints hp
  exact ⟨candidates, candidatesFor_mono hmono (fun _ _ _ h => h) h⟩

variable (semver : Semver V R) [LinearOrder V] [DecidableEq R]

variable {origin : ConstraintOrigin V R}

theorem mem_addConstraint {o : ConstraintOrigin V R} :
    o ∈ addConstraint semver constraints origin ↔ o = origin ∨ o ∈ constraints := by
  unfold addConstraint sortConstraints
  rw [List.mem_insertionSort]
  split_ifs with h
  · constructor
    · exact .inr
    · rintro (rfl | ho)
      · exact h
      · exact ho
  · simp [or_comm]

variable {registry : Option String}

theorem Consistent.pending (hs : Consistent sources s) {package : String}
    (hregistry : s.solver.registries package = some registry) (origin : ConstraintOrigin V R) :
    Pending sources package registry origin { s with solver := { s.solver with
      constraints := s.solver.constraints.insert package
        (addConstraint semver (s.solver.constraints[package]?.getD []) origin) } } where
  selected := hs.selected
  recorded q o := by
    simp only [Std.TreeMap.getElem?_insert, Std.LawfulEqCmp.compare_eq_iff_eq]
    split_ifs with h
    · subst h
      simp [mem_addConstraint, hs.recorded]
    · simp [hs.recorded, Ne.symm h]
  registered := hs.registered
  registry := hregistry
  loaded q hq constraints hc := by
    refine hs.loaded q constraints ?_
    simpa [Std.TreeMap.getElem?_insert, Ne.symm hq] using hc
  offered := hs.offered

/-- What is known once the candidates for the package are known. -/
structure Candidates (sources : Sources σ V) (package : String) (registry : Option String)
    (origin : ConstraintOrigin V R) (constraints : List (ConstraintOrigin V R))
    (candidates : List (VersionCandidate V)) (s : Resolution σ V R) : Prop where
  pending : Pending sources package registry origin s
  current : s.solver.constraints[package]?.getD [] = constraints
  known : s.solver.candidatesFor package constraints = some candidates

variable {dependency : Dependency}

omit [LinearOrder V] [DecidableEq R] in
theorem ends_registryCandidates (hs : Pending sources dependency.package registry origin s)
    (hn : Running n s)
    (hconstraints : s.solver.constraints[dependency.package]?.getD [] = constraints)
    (hrange : allExact constraints = false) (baseRoot : String) (offline : Bool)
    (authorization : Option String) :
    Ends (registryCandidates sources baseRoot dependency registry offline authorization)
      (fun candidates s' =>
        Candidates sources dependency.package registry origin constraints candidates s' ∧
          Running n s') (Running n) s := by
  unfold registryCandidates
  simp only [ends_bind, ends_lift, ends_read, orElse_eq_ok]
  refine ⟨?_, fun _ _ => hn⟩
  rintro endpoint rfl
  split
  · rename_i candidates hcandidates
    refine ⟨⟨hs, hconstraints, ?_⟩, hn⟩
    simp [RegistrySolveState.candidatesFor, hrange, hs.registry, hcandidates]
  rename_i hnone
  simp only [ends_bind, ends_pure, solve, ends_update]
  refine ends_within ?_ fun _ => hn
  intro loaded world' hloaded
  set solver' := { s.solver with
    candidates := Function.update s.solver.candidates dependency.package
      (Function.update (s.solver.candidates dependency.package) endpoint (some loaded)) }
    with hsolver'
  have hat (p r) : solver'.candidates p r =
      if p = dependency.package ∧ r = endpoint then some loaded else s.solver.candidates p r := by
    by_cases hp : p = dependency.package
    · subst hp
      by_cases hr : r = endpoint <;> simp [hsolver', hr]
    · simp [hsolver', hp]
  have hmono (p r c) : s.solver.candidates p r = some c → solver'.candidates p r = some c := by
    intro h
    rw [hat, if_neg, h]
    rintro ⟨rfl, rfl⟩
    rw [hnone] at h
    cases h
  refine ⟨⟨⟨hs.selected, hs.recorded, hs.registered, hs.registry, ?_, ?_⟩, hconstraints, ?_⟩, hn⟩
  · intro q hq constraints hc
    obtain ⟨candidates, h⟩ := hs.loaded q hq constraints hc
    exact ⟨candidates, @candidatesFor_mono _ _ _ _ s.solver solver' (fun _ _ h => h) hmono _ h⟩
  · intro p r candidates h
    replace h : solver'.candidates p r = some candidates := h
    rw [hat] at h
    split_ifs at h with hpr
    · obtain ⟨rfl, rfl⟩ := hpr
      obtain rfl : loaded = candidates := by simpa using h
      exact ⟨_, _, _, _, _, _, hloaded⟩
    · exact hs.offered p r candidates h
  · have hregistry : solver'.registries dependency.package = some (some endpoint) := hs.registry
    have hloaded' : solver'.candidates dependency.package endpoint = some loaded := by
      rw [hat, if_pos ⟨rfl, rfl⟩]
    show solver'.candidatesFor dependency.package constraints = some loaded
    simp [RegistrySolveState.candidatesFor, hrange, hregistry, hloaded']

omit [DecidableEq R] in
theorem ends_newSelection {package : String}
    (hs : Candidates sources package registry origin constraints candidates s) (hn : Running n s) :
    Ends (newSelection semver package candidates constraints) (fun selected s' =>
      Candidates sources package registry origin constraints candidates s' ∧ Running n s' ∧
        s'.solver.selections[package]? = some selected) (Running n) s := by
  unfold newSelection
  simp only [ends_bind, ends_lift, solve, ends_update, ends_pure]
  refine ⟨?_, fun _ _ => hn⟩
  intro version _
  have hpending := hs.pending
  refine ⟨⟨⟨?_, hpending.recorded, hpending.registered, hpending.registry, hpending.loaded,
    hpending.offered⟩, hs.current, hs.known⟩, hn, by simp⟩
  intro hchanged call hcall
  simp only [Bool.or_eq_false_iff] at hchanged
  obtain ⟨hunchanged, hsame⟩ := hchanged
  have hselected := hpending.selected hunchanged call hcall
  simp only [Std.TreeMap.getElem?_insert, Std.LawfulEqCmp.compare_eq_iff_eq]
  split_ifs with heq
  · rw [heq, hselected] at hsame
    simp only [Option.any_some, decide_eq_false_iff_not, not_not] at hsame
    rw [hsame]
  · exact hselected

omit [LinearOrder V] [DecidableEq R] in
theorem ends_callCandidates (hs : Pending sources dependency.package registry origin s)
    (hn : Running n s)
    (hconstraints : s.solver.constraints[dependency.package]?.getD [] = constraints)
    (baseRoot : String) (offline : Bool) (authorization : Option String) :
    Ends (callCandidates sources baseRoot dependency registry offline authorization constraints)
      (fun candidates s' =>
        Candidates sources dependency.package registry origin constraints candidates s' ∧
          Running n s') (Running n) s := by
  unfold callCandidates
  split_ifs with hexact
  · refine ⟨⟨hs, hconstraints, ?_⟩, hn⟩
    simp [RegistrySolveState.candidatesFor, hexact]
  · exact ends_registryCandidates hs hn hconstraints (by simpa using hexact) ..

omit [DecidableEq R] in
theorem ends_keepOrSelect {package : String}
    (hs : Candidates sources package registry origin constraints candidates s) (hn : Running n s) :
    Ends (keepOrSelect semver package candidates constraints) (fun selected s' =>
      Candidates sources package registry origin constraints candidates s' ∧ Running n s' ∧
        s'.solver.selections[package]? = some selected) (Running n) s := by
  unfold keepOrSelect
  simp only [ends_bind, ends_read]
  split
  · exact ends_newSelection semver hs hn
  rename_i selected hselected
  simp only [ends_bind, ends_lift]
  refine ⟨fun keeps _ => ?_, fun _ _ => hn⟩
  split_ifs
  · exact ⟨hs, hn, hselected⟩
  · exact ends_newSelection semver hs hn

omit [LinearOrder V] [DecidableEq R] in
theorem Candidates.consistent {package : String}
    (hs : Candidates sources package registry origin constraints candidates s) {selected : String}
    (hselected : s.solver.selections[package]? = some selected) :
    Consistent sources { s with calls := { package, registry, origin, selected } :: s.calls } where
  selected hchanged := List.forall_mem_cons.mpr ⟨hselected, hs.pending.selected hchanged⟩
  recorded q o := by
    rw [hs.pending.recorded]
    simp only [List.mem_cons, exists_eq_or_imp, eq_comm (a := q), eq_comm (a := o)]
  registered := List.forall_mem_cons.mpr ⟨hs.pending.registry, hs.pending.registered⟩
  loaded q constraints' hc := by
    by_cases hq : q = package
    · subst hq
      obtain rfl : constraints' = constraints := by
        have hcurrent := hs.current
        rwa [hc] at hcurrent
      exact ⟨candidates, hs.known⟩
    · exact hs.pending.loaded q hq constraints' hc
  offered := hs.pending.offered

/-- **One call** keeps the solver consistent with the calls. -/
theorem ends_select (hs : Consistent sources s) (hn : Running n s) (baseRoot : String)
    (dependency : Dependency) (requirementSource : String) (registry : Option String)
    (offline : Bool) (authorization : Option String) (dependencyPath : List String) :
    Ends (select semver sources baseRoot dependency requirementSource registry offline authorization
      dependencyPath) (fun _ s' => Consistent sources s' ∧ Running n s') (Running n) s := by
  unfold select
  simp only [ends_bind, ends_lift]
  refine ⟨fun requirement _ => ?_, fun _ _ => hn⟩
  refine (ends_requireRegistry hs hn dependency.package registry).mono ?_ fun _ h => h
  rintro _ s₁ ⟨hs₁, hn₁, hregistry⟩
  simp only [solve, ends_update, ends_read]
  have hpending := hs₁.pending semver hregistry { requirement, dependencyPath }
  refine (ends_callCandidates hpending hn₁ rfl ..).mono ?_ fun _ h => h
  rintro candidates s₂ ⟨hs₂, hn₂⟩
  refine (ends_keepOrSelect semver hs₂ hn₂).mono ?_ fun _ h => h
  rintro selected s₃ ⟨hs₃, hn₃, hselected⟩
  simp only [ends_pure]
  exact ⟨hs₃.consistent hselected, hn₃⟩

/-! ## The traversal -/

/-- In the `n`th pass, and consistent. -/
def Going (sources : Sources σ V) (n : Nat) (s : Resolution σ V R) : Prop :=
  Consistent sources s ∧ Running n s

/-- Every manifest that is read depends on packages of `packages` only. -/
def DependsWithin (sources : Sources σ V) (packages : Finset String) : Prop :=
  ∀ root world manifest world', (sources.parseManifestAtRoot root).Gives world manifest world' →
    ∀ dependency ∈ manifest.dependencies, dependency.package ∈ packages

omit [LinearOrder V] [DecidableEq R] in
theorem ends_outside {α : Type} {x : Attempt σ α} {Q : α → Resolution σ V R → Prop}
    (hs : Going sources n s)
    (hQ : ∀ a s', Going sources n s' → (∃ world world', x.Gives world a world') → Q a s') :
    Ends (outside x) Q (Running n) s := by
  refine ends_within ?_ fun _ => hs.2
  intro a world' hx
  refine hQ a _ ⟨⟨?_, ?_, ?_, ?_, ?_⟩, hs.2⟩ ⟨_, _, hx⟩
  · exact hs.1.selected
  · exact hs.1.recorded
  · exact hs.1.registered
  · exact hs.1.loaded
  · exact hs.1.offered

variable {packages : Finset String}

omit [LinearOrder V] [DecidableEq R] in
theorem ends_dependencyManifest (hpackages : DependsWithin sources packages)
    (hs : Going sources n s) (kind : String) (dependency : Dependency) (root : String) :
    Ends (dependencyManifest sources kind dependency root) (fun manifest s' =>
      Going sources n s' ∧ ∀ dependency ∈ manifest.dependencies, dependency.package ∈ packages)
      (Running n) s := by
  unfold dependencyManifest
  simp only [ends_bind, ends_lift, ends_pure]
  refine ends_outside hs ?_
  rintro manifest s' hs' ⟨world, world', hmanifest⟩
  exact ⟨fun _ _ => ⟨hs', hpackages root world manifest world' hmanifest⟩, fun _ _ => hs'.2⟩

/-- What the traversal below a dependency must do. -/
def Descends (sources : Sources σ V) (packages : Finset String) (n : Nat) (path : List String)
    (descend : Descend σ V R) : Prop :=
  ∀ dependencies root condition (s : Resolution σ V R),
    (∀ dependency ∈ dependencies, dependency.package ∈ packages) → Going sources n s →
      Ends (descend dependencies root path condition) (fun _ => Going sources n) (Running n) s

variable {descend : Descend σ V R} {dependencyPath : List String}

omit [LinearOrder V] [DecidableEq R] in
theorem ends_resolvePath (hpackages : DependsWithin sources packages) (hs : Going sources n s)
    (hdescend : Descends sources packages n dependencyPath descend) (settings : Settings)
    (baseRoot : String) (dependency : Dependency) (condition : TargetCondition) (path : String) :
    Ends (resolvePath sources descend settings baseRoot dependency dependencyPath condition path)
      (fun _ => Going sources n) (Running n) s := by
  unfold resolvePath
  simp only [ends_bind, ends_pure]
  refine ends_outside hs fun root s₁ hs₁ _ => ?_
  refine (ends_dependencyManifest hpackages hs₁ "path" dependency root).mono ?_ fun _ h => h
  rintro manifest s₂ ⟨hs₂, hmanifest⟩
  refine (hdescend _ root condition s₂ hmanifest hs₂).mono ?_ fun _ h => h
  intro children s₃ hs₃
  exact ends_outside hs₃ fun _ s₄ hs₄ _ => hs₄

omit [LinearOrder V] [DecidableEq R] in
theorem ends_resolveGit (hpackages : DependsWithin sources packages) (hs : Going sources n s)
    (hdescend : Descends sources packages n dependencyPath descend) (settings : Settings)
    (baseRoot : String) (dependency : Dependency) (condition : TargetCondition) (git : String)
    (branch tag rev : Option String) :
    Ends (resolveGit sources descend settings baseRoot dependency dependencyPath condition git branch
      tag rev) (fun _ => Going sources n) (Running n) s := by
  unfold resolveGit
  simp only [ends_bind, ends_pure]
  refine ends_outside hs fun root s₁ hs₁ _ => ?_
  refine (ends_dependencyManifest hpackages hs₁ "git" dependency root).mono ?_ fun _ h => h
  rintro manifest s₂ ⟨hs₂, hmanifest⟩
  refine ends_outside hs₂ fun actualRev s₃ hs₃ _ => ?_
  refine (hdescend _ root condition s₃ hmanifest hs₃).mono ?_ fun _ h => h
  intro children s₄ hs₄
  exact ends_outside hs₄ fun _ s₅ hs₅ _ => hs₅

theorem ends_resolveRegistry (hpackages : DependsWithin sources packages) (hs : Going sources n s)
    (hdescend : Descends sources packages n dependencyPath descend) (settings : Settings)
    (baseRoot : String) (dependency : Dependency) (condition : TargetCondition) (version : String)
    (registry : Option String) :
    Ends (resolveRegistry semver sources descend settings baseRoot dependency dependencyPath
      condition version registry) (fun _ => Going sources n) (Running n) s := by
  unfold resolveRegistry
  simp only [ends_bind]
  refine ends_outside hs fun authorization s₁ hs₁ _ => ?_
  refine (ends_select semver hs₁.1 hs₁.2 ..).mono ?_ fun _ h => h
  intro selected s₂ hs₂
  refine ends_outside hs₂ fun verified s₃ hs₃ _ => ?_
  split
  · rename_i root _
    simp only [ends_bind, ends_lift, ends_pure]
    refine (ends_dependencyManifest hpackages hs₃ "registry" dependency root).mono ?_ fun _ h => h
    rintro manifest s₄ ⟨hs₄, hmanifest⟩
    refine ⟨fun _ _ => ?_, fun _ _ => hs₄.2⟩
    refine (hdescend _ root condition s₄ hmanifest hs₄).mono ?_ fun _ h => h
    intro children s₅ hs₅
    exact ends_outside hs₅ fun _ s₆ hs₆ _ => hs₆
  · exact hs₃

omit [LinearOrder V] [DecidableEq R] in
theorem ends_rememberPackageSource (hs : Going sources n s) (package : String)
    (source : DependencySource) :
    Ends (rememberPackageSource package source) (fun _ => Going sources n) (Running n) s := by
  have hgoing (packageSources) : Going sources n { s with packageSources } := by
    refine ⟨⟨?_, ?_, ?_, ?_, ?_⟩, hs.2⟩
    · exact hs.1.selected
    · exact hs.1.recorded
    · exact hs.1.registered
    · exact hs.1.loaded
    · exact hs.1.offered
  unfold rememberPackageSource
  simp only [ends_bind, ends_read]
  split
  · exact hgoing _
  split_ifs
  · exact hs
  · split
    · exact hgoing _
    · exact hs.2

theorem ends_resolveDependency (hpackages : DependsWithin sources packages) (hs : Going sources n s)
    {currentPath : List String}
    (hdescend : dependency.package ∉ currentPath →
      Descends sources packages n (currentPath ++ [dependency.package]) descend)
    (settings : Settings) (baseRoot : String) (activeCondition : TargetCondition) :
    Ends (resolveDependency semver sources descend settings baseRoot currentPath activeCondition
      dependency) (fun _ => Going sources n) (Running n) s := by
  unfold resolveDependency
  simp only [ends_bind, ends_lift, require_eq_ok]
  refine ⟨fun condition _ => ⟨fun _ hnew => ?_, fun _ _ => hs.2⟩, fun _ _ => hs.2⟩
  have hreturn : ∀ (resolved : ResolvedSource) (s' : Resolution σ V R), Going sources n s' →
      Ends (rememberPackageSource dependency.package resolved.source) (fun _ s'' =>
        Ends (pure (ResolvedDependency.mk dependency.aliasName dependency.package resolved.source
          resolved.checksum resolved.supplyChain dependency.target resolved.dependencies))
          (fun _ => Going sources n) (Running n) s'') (Running n) s' :=
    fun resolved s' hs' => ends_rememberPackageSource hs' dependency.package resolved.source
  split
  · simp only [ends_bind]
    exact (ends_resolvePath hpackages hs (hdescend hnew) ..).mono hreturn fun _ h => h
  · simp only [ends_bind]
    exact (ends_resolveGit hpackages hs (hdescend hnew) ..).mono hreturn fun _ h => h
  · simp only [ends_bind]
    exact (ends_resolveRegistry semver hpackages hs (hdescend hnew) ..).mono hreturn fun _ h => h

/-- **The traversal** keeps the solver consistent with the calls; and it ends, since every step down
uses up one of the packages. -/
theorem descends_resolveDependencies (hpackages : DependsWithin sources packages)
    (settings : Settings) (depth : Nat) (path : List String)
    (hdepth : (packages.filter (· ∉ path)).card < depth) :
    Descends sources packages n path (resolveDependencies semver sources settings depth) := by
  induction depth generalizing path with
  | zero => exact absurd hdepth (Nat.not_lt_zero _)
  | succ depth ih =>
    intro dependencies root condition s hdependencies hs
    refine ends_collect_keeps ?_ hs
    intro dependency hdependency s' hs'
    refine ends_resolveDependency semver hpackages hs' (fun hnew => ih _ ?_) ..
    have hsub : packages.filter (· ∉ path ++ [dependency.package]) ⊂
        packages.filter (· ∉ path) := by
      refine Finset.ssubset_iff_subset_ne.mpr ⟨?_, ?_⟩
      · intro package hpackage
        simp only [Finset.mem_filter, List.mem_append, not_or] at hpackage ⊢
        exact ⟨hpackage.1, hpackage.2.1⟩
      · intro heq
        have hmem : dependency.package ∈ packages.filter (· ∉ path ++ [dependency.package]) := by
          rw [heq]
          exact Finset.mem_filter.mpr ⟨hdependencies dependency hdependency, hnew⟩
        simp at hmem
    have hcard := Finset.card_lt_card hsub
    omega

/-! ## The end of a pass -/

/-- A selection is the highest version under the constraints of the pass. -/
def Highest (entry : String × List (ConstraintOrigin V R)) (s : Resolution σ V R) : Prop :=
  ∃ candidates version, s.solver.candidatesFor entry.1 entry.2 = some candidates ∧
    selectHighestVersion semver entry.1 candidates entry.2 = .ok version ∧
    s.solver.selections[entry.1]? = some (semver.text version)

/-- From `s`, a step of `finalize_pass`: it changes selections only, and says so. -/
structure Finalizes (s s' : Resolution σ V R) : Prop where
  constraints : s'.solver.constraints = s.solver.constraints
  registries : s'.solver.registries = s.solver.registries
  candidates : s'.solver.candidates = s.solver.candidates
  calls : s'.calls = s.calls
  selections : s'.solver.changed = false →
    s.solver.changed = false ∧ s'.solver.selections = s.solver.selections

omit [LinearOrder V] [DecidableEq R] in
theorem Finalizes.refl (s : Resolution σ V R) : Finalizes s s :=
  ⟨rfl, rfl, rfl, rfl, fun h => ⟨h, rfl⟩⟩

omit [LinearOrder V] [DecidableEq R] in
theorem Finalizes.trans {s₁ s₂ s₃ : Resolution σ V R} (h : Finalizes s₁ s₂)
    (h' : Finalizes s₂ s₃) : Finalizes s₁ s₃ where
  constraints := h'.constraints.trans h.constraints
  registries := h'.registries.trans h.registries
  candidates := h'.candidates.trans h.candidates
  calls := h'.calls.trans h.calls
  selections hchanged := by
    obtain ⟨h₂, hsame⟩ := h'.selections hchanged
    obtain ⟨h₁, hsame'⟩ := h.selections h₂
    exact ⟨h₁, hsame.trans hsame'⟩

omit [LinearOrder V] [DecidableEq R] in
theorem Finalizes.candidatesFor {s s' : Resolution σ V R} (h : Finalizes s s') (package : String)
    (constraints : List (ConstraintOrigin V R)) :
    s'.solver.candidatesFor package constraints = s.solver.candidatesFor package constraints := by
  unfold RegistrySolveState.candidatesFor
  rw [h.registries, h.candidates]

omit [DecidableEq R] in
theorem ends_finalizePackage {start : Resolution σ V R} (hstart : Going sources n start)
    {entry : String × List (ConstraintOrigin V R)}
    (hentry : start.solver.constraints[entry.1]? = some entry.2)
    (hs : Running n s ∧ Finalizes start s) :
    Ends (finalizePackage semver entry) (fun _ s' => (Running n s' ∧ Finalizes start s') ∧
        (s'.solver.changed = false → Highest semver entry s') ∧
        ∀ other, (s.solver.changed = false → Highest semver other s) →
          s'.solver.changed = false → Highest semver other s')
      (Running n) s := by
  obtain ⟨hn, hfinal⟩ := hs
  unfold finalizePackage
  simp only [ends_bind, ends_read]
  obtain ⟨candidates, hcandidates⟩ := hstart.1.loaded entry.1 entry.2 hentry
  rw [← hfinal.candidatesFor] at hcandidates
  simp only [hcandidates, ends_bind, ends_lift, solve, ends_update]
  refine ⟨fun version hversion => ?_, fun _ _ => hn⟩
  replace hversion : selectHighestVersion semver entry.1 candidates entry.2 = .ok version := by
    cases hselect : selectHighestVersion semver entry.1 candidates entry.2 with
    | ok other =>
      rw [hselect] at hversion
      simpa [Except.mapError] using hversion
    | error conflict =>
      rw [hselect] at hversion
      cases hversion
  by_cases hselected : s.solver.selections[entry.1]? = some (semver.text version)
  · simp only [hselected, if_true]
    exact ⟨⟨hn, hfinal⟩, fun _ => ⟨candidates, version, hcandidates, hversion, hselected⟩,
      fun _ h => h⟩
  simp only [hselected, if_false]
  refine ⟨⟨hn, hfinal.trans ⟨rfl, rfl, rfl, rfl, ?_⟩⟩, ?_, ?_⟩
  · intro hchanged
    cases hchanged
  · intro hchanged
    cases hchanged
  · intro _ _ hchanged
    cases hchanged

omit [DecidableEq R] in
/-- **The end of a pass**: if nothing changed, every selection is the highest version under the
constraints of the pass. -/
theorem ends_finalizePass (hs : Going sources n s) :
    Ends (finalizePass semver) (fun _ s' => Running n s' ∧ Finalizes s s' ∧
      ∀ package constraints, s.solver.constraints[package]? = some constraints →
        s'.solver.changed = false → Highest semver (package, constraints) s') (Running n) s := by
  unfold finalizePass
  simp only [ends_bind, ends_read, ends_pure]
  refine (ends_collect (P := fun s' => Running n s' ∧ Finalizes s s')
    (R := fun entry s' => s'.solver.changed = false → Highest semver entry s') ?_
    ⟨hs.2, .refl s⟩).mono ?_ fun _ h => h
  · intro entry hentry s' hs'
    exact ends_finalizePackage semver hs
      (Std.TreeMap.mem_toList_iff_getElem?_eq_some.mp hentry) hs'
  · rintro _ s' ⟨⟨hn, hfinal⟩, hall, -⟩
    refine ⟨hn, hfinal, fun package constraints hconstraints => ?_⟩
    exact hall (package, constraints) (Std.TreeMap.mem_toList_iff_getElem?_eq_some.mpr hconstraints)

/-! ## The loop -/

/-- For every call of the pass: the constraints recorded for its package are those of the calls for
it, and all these calls returned the highest version on offer that satisfies them. -/
def Settled (sources : Sources σ V) (s : Resolution σ V R) : Prop :=
  ∀ call ∈ s.calls, ∃ constraints candidates version,
    s.solver.constraints[call.package]? = some constraints ∧
    (∀ origin, origin ∈ constraints ↔
      ∃ other ∈ s.calls, other.package = call.package ∧ other.origin = origin) ∧
    CandidatesFrom sources call.package call.registry constraints candidates ∧
    IsGreatest {version | Available candidates version ∧
      ∀ origin ∈ constraints, origin.requirement.matches semver version = true} version ∧
    ∀ other ∈ s.calls, other.package = call.package → other.selected = semver.text version

omit [DecidableEq R] in
theorem settled_of_unchanged {s' : Resolution σ V R} (hs : Going sources n s)
    (hfinal : Finalizes s s') (hunchanged : s'.solver.changed = false)
    (hhighest : ∀ package constraints, s.solver.constraints[package]? = some constraints →
      s'.solver.changed = false → Highest semver (package, constraints) s') :
    Settled semver sources s' := by
  obtain ⟨hconsistent, -⟩ := hs
  obtain ⟨hchanged, hsame⟩ := hfinal.selections hunchanged
  intro call hcall
  rw [hfinal.calls] at hcall ⊢
  have hmem := (hconsistent.recorded call.package call.origin).mpr ⟨call, hcall, rfl, rfl⟩
  cases hconstraints : s.solver.constraints[call.package]? with
  | none =>
    rw [hconstraints] at hmem
    cases hmem
  | some constraints =>
    obtain ⟨candidates, version, hcandidates, hversion, hselected⟩ :=
      hhighest call.package constraints hconstraints hunchanged
    refine ⟨constraints, candidates, version, ?_, ?_, ?_, ?_, ?_⟩
    · rw [hfinal.constraints, hconstraints]
    · intro origin
      have hrecorded := hconsistent.recorded call.package origin
      rwa [hconstraints] at hrecorded
    · rw [hfinal.candidatesFor] at hcandidates
      unfold RegistrySolveState.candidatesFor at hcandidates
      split_ifs at hcandidates with hexact
      · exact .inl ⟨hexact, (Option.some.inj hcandidates).symm⟩
      rw [hconsistent.registered call hcall] at hcandidates
      refine .inr ⟨by simpa using hexact, ?_⟩
      cases hregistry : call.registry with
      | none =>
        rw [hregistry] at hcandidates
        cases hcandidates
      | some endpoint =>
        rw [hregistry] at hcandidates
        exact ⟨endpoint, rfl, hconsistent.offered _ _ _ hcandidates⟩
    · exact isGreatest_selectHighestVersion semver hversion
    · intro other hother hpackage
      have hother' := hconsistent.selected hchanged other hother
      rw [hpackage, ← hsame, hselected] at hother'
      exact (Option.some.inj hother').symm

/-- Between two passes. -/
def Between (sources : Sources σ V) (n : Nat) (s : Resolution σ V R) : Prop :=
  Running n s ∧ ∀ package registry candidates,
    s.solver.candidates package registry = some candidates →
      Offered sources package registry candidates

theorem ends_resolveProject (hpackages : DependsWithin sources packages) {depth : Nat}
    (hdepth : packages.card < depth) {project : Project}
    (hproject : ∀ dependency ∈ project.manifest.dependencies, dependency.package ∈ packages)
    (lockSourceBase dependencyCacheBase : Option String) (offline : Bool)
    (hs : Going sources n s) :
    Ends (resolveProject semver sources depth lockSourceBase dependencyCacheBase offline project)
      (fun _ => Going sources n) (Running n) s := by
  unfold resolveProject
  simp only [ends_bind, ends_update, ends_pure]
  have hs' : Going sources n { s with packageSources := fun _ => none } := by
    refine ⟨⟨?_, ?_, ?_, ?_, ?_⟩, hs.2⟩
    · exact hs.1.selected
    · exact hs.1.recorded
    · exact hs.1.registered
    · exact hs.1.loaded
    · exact hs.1.offered
  refine ends_outside hs' fun transparencyPolicy s₁ hs₁ _ => ?_
  refine (descends_resolveDependencies semver hpackages _ depth _ ?_ _ _ _ s₁ hproject hs₁).mono
    (fun _ _ h => h) fun _ h => h
  exact (Finset.card_filter_le _ _).trans_lt hdepth

/-- **One pass.** -/
theorem ends_solvePass (hpackages : DependsWithin sources packages) {depth : Nat}
    (hdepth : packages.card < depth) {projects : List Project}
    (hprojects : ∀ project ∈ projects, ∀ dependency ∈ project.manifest.dependencies,
      dependency.package ∈ packages)
    (lockSourceBase dependencyCacheBase : Option String) (offline : Bool)
    (hs : Between sources n s) :
    Ends (solvePass semver sources depth lockSourceBase dependencyCacheBase offline projects)
      (fun _ s' => Between sources (n + 1) s' ∧
        (s'.solver.changed = false → Settled semver sources s')) (Running (n + 1)) s := by
  obtain ⟨⟨haborted, hpasses⟩, hoffered⟩ := hs
  unfold solvePass
  simp only [beginPass, ends_bind, ends_update, ends_pure]
  set s₁ : Resolution σ V R := { s with
    solver := { s.solver with constraints := ∅, registries := fun _ => none, changed := false }
    calls := []
    passes := s.passes + 1 }
  have hs₁ : Going sources (n + 1) s₁ := by
    refine ⟨⟨?_, ?_, ?_, ?_, hoffered⟩, haborted, by simp [s₁, hpasses]⟩
    all_goals simp [s₁]
  refine (ends_collect_keeps (P := Going sources (n + 1)) ?_ hs₁).mono ?_ fun _ h => h
  · intro project hproject s' hs'
    exact ends_resolveProject semver hpackages hdepth (hprojects project hproject) _ _ _ hs'
  intro graphs s₂ hs₂
  refine (ends_finalizePass semver hs₂).mono ?_ fun _ h => h
  rintro _ s₃ ⟨hn, hfinal, hhighest⟩
  refine ⟨⟨hn, ?_⟩, fun hunchanged => settled_of_unchanged semver hs₂ hfinal hunchanged hhighest⟩
  intro package registry candidates hcandidates
  rw [hfinal.candidates] at hcandidates
  exact hs₂.1.offered package registry candidates hcandidates

/-- **The loop** ends after the passes that are left, in an error or with an unchanged pass. -/
theorem ends_solvePasses (hpackages : DependsWithin sources packages) {depth : Nat}
    (hdepth : packages.card < depth) {projects : List Project}
    (hprojects : ∀ project ∈ projects, ∀ dependency ∈ project.manifest.dependencies,
      dependency.package ∈ packages)
    (lockSourceBase dependencyCacheBase : Option String) (offline : Bool) (left : Nat)
    (seen : List String) (hs : Between sources n s) :
    Ends (solvePasses semver sources depth lockSourceBase dependencyCacheBase offline projects left
      seen)
      (fun _ s' => (s'.aborted = false ∧ s'.passes ≤ n + left) ∧ s'.solver.changed = false ∧
        Settled semver sources s')
      (fun s' => s'.aborted = false ∧ s'.passes ≤ n + left) s := by
  induction left generalizing n seen s with
  | zero => exact ⟨hs.1.1, hs.1.2.le⟩
  | succ left ih =>
    simp only [solvePasses, ends_bind]
    refine (ends_solvePass semver hpackages hdepth hprojects _ _ _ hs).mono ?_ ?_
    · rintro graphs s' ⟨hbetween, hsettled⟩
      have hbound : s'.aborted = false ∧ s'.passes ≤ n + (left + 1) :=
        ⟨hbetween.1.1, by rw [hbetween.1.2]; omega⟩
      simp only [ends_read]
      split_ifs with hchanged
      · simp only [ends_bind, ends_lift]
        refine ⟨fun _ _ => ?_, fun _ _ => hbound⟩
        rw [show n + (left + 1) = n + 1 + left by omega]
        exact ih _ hbetween
      · have hunchanged : s'.solver.changed = false := by simpa using hchanged
        exact ⟨hbound, hunchanged, hsettled hunchanged⟩
    · rintro s' ⟨haborted, hpasses⟩
      exact ⟨haborted, by rw [hpasses]; omega⟩

omit [LinearOrder V] [DecidableEq R] in
theorem ends_canonicalize (hs : Between sources 0 s) (path : Option String) :
    Ends (match path with
      | some path => some <$> outside (sources.canonicalize path)
      | none => pure none) (fun _ => Between sources 0) (Running 0) s := by
  cases path with
  | none => exact hs
  | some path =>
    simp only [ends_map]
    exact ends_within (fun _ _ _ => hs) fun _ => hs.1

/-- **The version solver ends in a fixpoint or an error.** When the dependencies of all manifests are
among finitely many packages, resolution never panics and never goes deeper than there are packages,
it makes at most 64 passes, and if it returns a graph then the last pass changed nothing: all calls of
`select` for a package returned one version, the highest on offer under all the constraints that were
recorded for the package in that pass. -/
theorem resolveDependencyGraphs_settled (hpackages : DependsWithin sources packages)
    (manifests : List Project)
    (hmanifests : ∀ project ∈ manifests, ∀ dependency ∈ project.manifest.dependencies,
      dependency.package ∈ packages)
    (depth : Nat) (hdepth : packages.card < depth)
    (lockSourceBase dependencyCacheBase : Option String) (offline : Bool) (world : σ) :
    let run := resolveDependencyGraphs semver sources depth manifests lockSourceBase
      dependencyCacheBase offline (.init world)
    run.2.aborted = false ∧ run.2.passes ≤ maxPasses ∧ ∀ graphs, run.1 = .ok graphs →
      run.2.solver.changed = false ∧ Settled semver sources run.2 := by
  intro run
  have hinit : Between sources 0 (.init world : Resolution σ V R) :=
    ⟨⟨rfl, rfl⟩, fun _ _ _ h => by cases h⟩
  have hends : Ends (resolveDependencyGraphs semver sources depth manifests lockSourceBase
      dependencyCacheBase offline)
      (fun _ s' => (s'.aborted = false ∧ s'.passes ≤ 0 + maxPasses) ∧ s'.solver.changed = false ∧
        Settled semver sources s')
      (fun s' => s'.aborted = false ∧ s'.passes ≤ 0 + maxPasses) (.init world) := by
    have hstop : ∀ s' : Resolution σ V R, Running 0 s' →
        s'.aborted = false ∧ s'.passes ≤ 0 + maxPasses := by
      rintro s' ⟨haborted, hpasses⟩
      exact ⟨haborted, by omega⟩
    unfold resolveDependencyGraphs
    simp only [ends_bind]
    refine (ends_canonicalize hinit lockSourceBase).mono ?_ hstop
    intro lockSourceBase s₁ hs₁
    refine (ends_canonicalize hs₁ dependencyCacheBase).mono ?_ hstop
    intro dependencyCacheBase s₂ hs₂
    refine (ends_collect_keeps (P := Between sources 0) ?_ hs₂).mono ?_ hstop
    · intro project _ s' hs'
      exact ends_within (fun _ _ _ => hs') fun _ => hs'.1
    intro roots s₃ hs₃
    refine ends_solvePasses semver hpackages hdepth ?_ _ _ _ maxPasses [] hs₃
    intro project hproject
    obtain ⟨⟨manifest, root⟩, hmem, rfl⟩ := List.mem_map.mp hproject
    exact hmanifests manifest (List.of_mem_zip hmem).1
  have hstate : run.2.aborted = false ∧ run.2.passes ≤ 0 + maxPasses :=
    (hends.mono (fun _ _ h => h.1) fun _ h => h).state
  rw [Nat.zero_add] at hstate
  exact ⟨hstate.1, hstate.2, fun graphs hgraphs => (hends.of_gives (Prod.ext hgraphs rfl)).2⟩

end Fixpoint

/-! ## A graph that takes two passes -/

namespace Sample

def versions : List String := ["1.0.0", "1.1.0", "2.0.0"]

/-- The semver crate on these versions and on the range `^1.0.0`. -/
def semver : Semver ℕ Unit where
  parse text := orElse (versions.idxOf? text) "unexpected character"
  text version := versions.getD version ""
  parseReq text := if text = "^1.0.0" then .ok () else .error "unexpected character"
  reqText _ := "^1.0.0"
  ops _ := [.caret]
  admits _ version := version < 2

/-- A dependency on `acme/json`. -/
def json (version : String) : Dependency where
  aliasName := "json"
  package := "acme/json"
  source := .registry version (some "https://registry")
  target := {}

/-- A package without demands on the registry. -/
def manifest (name version : String) (dependencies : List Dependency) : Manifest where
  package := { packageNamespace := "acme", name, version, edition := "2026" }
  dependencies
  trust := .checksumOnly
  transparency :=
    { keys := [], proofMaxAgeSeconds := 0, offlineProofMaxAgeSeconds := 0,
      maxFutureSkewSeconds := 0, gossipCheckpoints := [] }

/-- A disk and a registry that do not change: the library `util` needs `acme/json` 1.0.0. -/
def sources : Sources Unit ℕ where
  canonicalize path := pure path
  readFile _ := fail "no such file"
  checkpointFromJson _ := .error "no checkpoint"
  checkpointsFromJson _ := .error "no checkpoint"
  parseManifestAtRoot root :=
    if root = "/app/util" then pure (manifest "util" "1.0.0" [json "1.0.0"])
    else if root = "/json/1.0.0" then pure (manifest "json" "1.0.0" [])
    else if root = "/json/1.1.0" then pure (manifest "json" "1.1.0" [])
    else fail "no such file"
  packageChecksum root := pure root
  resolveGitSource _ _ _ _ _ _ _ _ := fail "no git"
  gitHeadRev _ := fail "no git"
  registryDependencyAuthorization _ := pure none
  loadRegistryVersionCandidates _ _ _ _ _ _ :=
    pure [⟨0, false⟩, ⟨2, false⟩, ⟨1, false⟩]
  resolveRegistrySource request := pure { root := some s!"/json/{request.version}", evidence := none }

/-- The application: `acme/json` in any version 1, and `util`. -/
def app : Project where
  root := "/app"
  manifest := manifest "app" "0.1.0"
    [json "^1.0.0",
      { aliasName := "util", package := "acme/util", source := .path "util", target := {} }]

end Sample

open Sample in
/-- The first pass selects 1.1.0, then finds that `util` needs 1.0.0; the second changes nothing. -/
theorem resolveDependencyGraphs_settled_app :
    let run := resolveDependencyGraphs Sample.semver Sample.sources 3 [app] none none false (.init ())
    (run.1.isOk = true ∧ run.2.passes = 2 ∧ run.2.calls.map (·.selected) = ["1.0.0", "1.0.0"]) ∧
      run.2.aborted = false ∧ run.2.passes ≤ maxPasses ∧ ∀ graphs, run.1 = .ok graphs →
        run.2.solver.changed = false ∧ Settled Sample.semver Sample.sources run.2 := by
  refine ⟨by decide +kernel, ?_⟩
  have hpackages : DependsWithin Sample.sources {"acme/json", "acme/util"} := by
    intro root world manifest world' h
    simp only [Sample.sources] at h
    split_ifs at h
    all_goals simp only [pure_gives, fail_gives] at h
    all_goals obtain ⟨rfl, -⟩ := h
    all_goals decide
  refine resolveDependencyGraphs_settled Sample.semver hpackages [app] ?_ 3 ?_ none none false ()
  all_goals decide

end Nomo.Deps
