import Nomo.Deps.Manifest
import Nomo.Deps.Solver

/-!
# Resolving a dependency graph

`nomo/src/project/dependency_resolution.rs:25–333, 419–667`. The manifests are traversed depth first,
once in every pass; a version selected for a package is used again in the next pass, and a pass in
which no selection changed ends the loop.

What resolution reads from elsewhere (the disk, git, the registries) is a field of `Sources`; each of
these may change the world `σ` it works on. The traversal follows the manifests it reads to a depth
given in advance, since nothing bounds the packages that a changing world can name. `calls` and
`passes` of the state record what happened and are read by nothing; `aborted` records that a
traversal went deeper, or that the code met a state in which it panics.
-/

namespace Nomo.Deps

open Nomo.Lib Nomo.Lib.Checked Nomo.SupplyChain Nomo.Resolver
open Attempt (fail lift read update within mapError collect)

variable {σ V R : Type}

/-- What resolution takes from elsewhere. -/
structure Sources (σ V : Type) where
  /-- `fs::canonicalize`. -/
  canonicalize : String → Attempt σ String
  /-- `fs::read`. -/
  readFile : String → Attempt σ (List UInt8)
  /-- `serde_json::from_slice::<GossipCheckpoint>`. -/
  checkpointFromJson : List UInt8 → Except String GossipCheckpoint
  /-- `serde_json::from_slice::<Vec<GossipCheckpoint>>`. -/
  checkpointsFromJson : List UInt8 → Except String (List GossipCheckpoint)
  /-- `parse_manifest_at_root`. -/
  parseManifestAtRoot : String → Attempt σ Manifest
  /-- `package_checksum`. -/
  packageChecksum : String → Attempt σ String
  /-- `resolve_git_source` and, offline, `resolve_git_source_offline`: base, alias, package, URL,
  branch, tag and revision. -/
  resolveGitSource (offline : Bool) (base aliasName package git : String)
    (branch tag rev : Option String) : Attempt σ String
  /-- `git_head_rev`. -/
  gitHeadRev : String → Attempt σ String
  /-- `registry_dependency_authorization`. -/
  registryDependencyAuthorization : Option String → Attempt σ (Option String)
  /-- `load_registry_version_candidates`: base, alias, package, registry. -/
  loadRegistryVersionCandidates (base aliasName package registry : String) (offline : Bool)
    (authorization : Option String) : Attempt σ (List (VersionCandidate V))
  /-- `resolve_registry_source_with_verification_policy`. -/
  resolveRegistrySource : Request → Attempt σ VerifiedRegistrySource

/-- `RegistrySolveState`. -/
structure RegistrySolveState (V R : Type) where
  selections : Std.TreeMap String String
  constraints : Std.TreeMap String (List (ConstraintOrigin V R))
  registries : String → Option (Option String)
  candidates : String → String → Option (List (VersionCandidate V))
  changed : Bool

/-- `RegistrySolveState::default`. -/
def RegistrySolveState.init : RegistrySolveState V R where
  selections := ∅
  constraints := ∅
  registries := fun _ => none
  candidates := fun _ _ => none
  changed := false

/-- A call of `select` that returned. -/
structure SelectCall (V R : Type) where
  package : String
  registry : Option String
  origin : ConstraintOrigin V R
  selected : String

/-- The state of a resolution. -/
structure Resolution (σ V R : Type) where
  world : σ
  solver : RegistrySolveState V R
  /-- `package_sources`. -/
  packageSources : String → Option DependencySource
  /-- The calls of `select` in this pass that returned. -/
  calls : List (SelectCall V R)
  /-- The passes that were begun. -/
  passes : Nat
  aborted : Bool

/-- The state before the first pass. -/
def Resolution.init (world : σ) : Resolution σ V R where
  world
  solver := .init
  packageSources := fun _ => none
  calls := []
  passes := 0
  aborted := false

/-- Something done to the world. -/
def outside {α : Type} (x : Attempt σ α) : Attempt (Resolution σ V R) α :=
  within (·.world) (fun world s => { s with world }) x

/-- A step of the solver. -/
def solve (f : RegistrySolveState V R → RegistrySolveState V R) :
    Attempt (Resolution σ V R) PUnit :=
  update fun s => { s with solver := f s.solver }

/-- A point from which the run does not go on. -/
def abort {α : Type} : Attempt (Resolution σ V R) α := do
  update fun s => { s with aborted := true }
  fail "aborted"

/-! ## Selecting a version -/

section Select

variable (semver : Semver V R) (sources : Sources σ V)

/-- `exact_constraint_candidates`. -/
def exactConstraintCandidates (constraints : List (ConstraintOrigin V R)) :
    List (VersionCandidate V) :=
  constraints.filterMap fun constraint =>
    match constraint.requirement with
    | .exact version => some { version, yanked := false }
    | .range _ _ => none

/-- All constraints are exact: the registry's versions are not needed. -/
def allExact (constraints : List (ConstraintOrigin V R)) : Bool :=
  constraints.all (·.requirement.isExact)

/-- The candidates for a package: `finalize_pass`, lines 139–153. There are none for a package with a
range that has no registry or whose versions were not loaded. -/
def RegistrySolveState.candidatesFor (solver : RegistrySolveState V R) (package : String)
    (constraints : List (ConstraintOrigin V R)) : Option (List (VersionCandidate V)) :=
  if allExact constraints then some (exactConstraintCandidates constraints)
  else
    match solver.registries package with
    | some (some registry) => solver.candidates package registry
    | _ => none

/-- A package is required from one registry: `select`, lines 53–68. -/
def requireRegistry (package : String) (registry : Option String) :
    Attempt (Resolution σ V R) PUnit := do
  match ← read (·.solver.registries package) with
  | some existing =>
    let name (registry : Option String) := registry.getD "default"
    lift (require (existing = registry)
      s!"package `{package}` is required from conflicting registries: {name existing} and {name registry}")
  | none => solve fun solver =>
      { solver with registries := Function.update solver.registries package (some registry) }

variable [LinearOrder V] [DecidableEq R]

/-- The constraints on a package with one more: `select`, lines 69–87. -/
def addConstraint (constraints : List (ConstraintOrigin V R)) (origin : ConstraintOrigin V R) :
    List (ConstraintOrigin V R) :=
  sortConstraints semver
    (if origin ∈ constraints then constraints else constraints ++ [origin])

omit [LinearOrder V] [DecidableEq R] in
/-- The candidates from a package's registry, loaded once: `select`, lines 95–117. -/
def registryCandidates (baseRoot : String) (dependency : Dependency) (registry : Option String)
    (offline : Bool) (authorization : Option String) :
    Attempt (Resolution σ V R) (List (VersionCandidate V)) := do
  let registry ← lift (orElse registry
    s!"registry dependency `{dependency.aliasName}` package `{dependency.package}` uses a version range but no registry endpoint is configured")
  match ← read (·.solver.candidates dependency.package registry) with
  | some candidates => return candidates
  | none =>
    let loaded ← outside (sources.loadRegistryVersionCandidates baseRoot dependency.aliasName
      dependency.package registry offline authorization)
    solve fun solver => { solver with
      candidates := Function.update solver.candidates dependency.package
        (Function.update (solver.candidates dependency.package) registry (some loaded)) }
    return loaded

omit [DecidableEq R] in
/-- The version selected before, if it is still available and satisfies the constraints: `select`,
lines 119–131. -/
def keepSelection (selected : String) (candidates : List (VersionCandidate V))
    (constraints : List (ConstraintOrigin V R)) : Except String Bool := do
  let version ← semver.parseVersion selected
  return candidates.any (fun candidate => candidate.version = version && !candidate.yanked) &&
    satisfiesAll semver constraints version

omit [DecidableEq R] in
/-- A new selection: `select`, lines 133–143. -/
def newSelection (package : String) (candidates : List (VersionCandidate V))
    (constraints : List (ConstraintOrigin V R)) : Attempt (Resolution σ V R) String := do
  let version ← lift ((selectHighestVersion semver package candidates constraints).mapError
    (·.render semver))
  let selected := semver.text version
  solve fun solver => { solver with
    selections := solver.selections.insert package selected
    changed := solver.changed || solver.selections[package]?.any (· ≠ selected) }
  return selected

omit [LinearOrder V] [DecidableEq R] in
/-- The candidates under the constraints so far: `select`, lines 89–117. -/
def callCandidates (baseRoot : String) (dependency : Dependency) (registry : Option String)
    (offline : Bool) (authorization : Option String) (constraints : List (ConstraintOrigin V R)) :
    Attempt (Resolution σ V R) (List (VersionCandidate V)) :=
  if allExact constraints then pure (exactConstraintCandidates constraints)
  else registryCandidates sources baseRoot dependency registry offline authorization

omit [DecidableEq R] in
/-- The selection kept or made: `select`, lines 119–143. -/
def keepOrSelect (package : String) (candidates : List (VersionCandidate V))
    (constraints : List (ConstraintOrigin V R)) : Attempt (Resolution σ V R) String := do
  match ← read (·.solver.selections[package]?) with
  | none => newSelection semver package candidates constraints
  | some selected =>
    let keeps ← lift (keepSelection semver selected candidates constraints)
    if keeps then return selected
    else newSelection semver package candidates constraints

/-- `RegistrySolveState::select`. -/
def select (baseRoot : String) (dependency : Dependency) (requirementSource : String)
    (registry : Option String) (offline : Bool) (authorization : Option String)
    (dependencyPath : List String) : Attempt (Resolution σ V R) String := do
  let requirement ← lift (semver.parseConstraint requirementSource)
  requireRegistry dependency.package registry
  let origin : ConstraintOrigin V R := { requirement, dependencyPath }
  solve fun solver => { solver with
    constraints := solver.constraints.insert dependency.package
      (addConstraint semver (solver.constraints[dependency.package]?.getD []) origin) }
  let constraints ← read (·.solver.constraints[dependency.package]?.getD [])
  let candidates ← callCandidates sources baseRoot dependency registry offline authorization
    constraints
  let selected ← keepOrSelect semver dependency.package candidates constraints
  update fun s => { s with
    calls := { package := dependency.package, registry, origin, selected } :: s.calls }
  return selected

/-! ## Passes -/

omit [LinearOrder V] [DecidableEq R] in
/-- `RegistrySolveState::begin_pass`. -/
def beginPass : Attempt (Resolution σ V R) PUnit :=
  update fun s => { s with
    solver := { s.solver with constraints := ∅, registries := fun _ => none, changed := false }
    calls := []
    passes := s.passes + 1 }

omit [DecidableEq R] in
/-- One round of the loop of `finalize_pass`. -/
def finalizePackage (entry : String × List (ConstraintOrigin V R)) :
    Attempt (Resolution σ V R) PUnit := do
  match ← read (·.solver.candidatesFor entry.1 entry.2) with
  | none => abort
  | some candidates =>
    let version ← lift ((selectHighestVersion semver entry.1 candidates entry.2).mapError
      (·.render semver))
    let selected := semver.text version
    solve fun solver =>
      if solver.selections[entry.1]? = some selected then solver
      else { solver with
        selections := solver.selections.insert entry.1 selected
        changed := true }

omit [DecidableEq R] in
/-- `RegistrySolveState::finalize_pass`. -/
def finalizePass : Attempt (Resolution σ V R) PUnit := do
  let entries ← read (·.solver.constraints.toList)
  let _ ← collect (finalizePackage semver) entries
  return ⟨⟩

end Select

/-! ## Traversing the dependencies -/

/-- The parts of a path: `Path::components` for a path with `/` as its only separator. -/
def components (path : String) : List String :=
  let parts := split '/' path
  let first := if path.toList.head? = some '/' then ["/"] else
    if parts.head? = some "." then ["."] else []
  first ++ parts.filter fun part => part ≠ "" ∧ part ≠ "."

/-- The common start of two lists is taken off both. -/
def dropCommon : List String → List String → List String × List String
  | a :: as, b :: bs => if a = b then dropCommon as bs else (a :: as, b :: bs)
  | as, bs => (as, bs)

/-- `relative_path`, for paths without a prefix. -/
def relativePath (base target : String) : String :=
  let (base, target) := dropCommon (components base) (components target)
  let relative := (base.map (fun _ => "..") ++ target).foldl pushPath ""
  if relative = "" then "." else relative

/-- The parameters of a traversal that do not change on the way down. -/
structure Settings where
  lockSourceBase : Option String
  dependencyCacheBase : Option String
  offline : Bool
  trustPolicy : TrustPolicy
  transparencyPolicy : TransparencyVerificationPolicy

/-- What a traversal does below a dependency: its dependencies, the root they are relative to, the
packages on the way, and the condition on the target. -/
abbrev Descend (σ V R : Type) :=
  List Dependency → String → List String → TargetCondition →
    Attempt (Resolution σ V R) (List ResolvedDependency)

/-- What is found out about a dependency. -/
structure ResolvedSource where
  source : DependencySource
  checksum : Option String
  supplyChain : Option VerifiedReleaseEvidence
  dependencies : List ResolvedDependency

section Traversal

variable (semver : Semver V R) (sources : Sources σ V)

/-- The manifest of a dependency, which must be the package's: its kind is part of the message. -/
def dependencyManifest (kind : String) (dependency : Dependency) (root : String) :
    Attempt (Resolution σ V R) Manifest := do
  let manifest ← outside (sources.parseManifestAtRoot root)
  lift (require (manifest.package.id = dependency.package)
    s!"{kind} dependency `{dependency.aliasName}` expected package `{dependency.package}`, found `{manifest.package.id}`")
  return manifest

/-- A path dependency: `resolve_dependencies`, lines 450–496. -/
def resolvePath (descend : Descend σ V R) (settings : Settings) (baseRoot : String)
    (dependency : Dependency) (dependencyPath : List String) (condition : TargetCondition)
    (path : String) : Attempt (Resolution σ V R) ResolvedSource := do
  let joined := pushPath baseRoot path
  let root ← outside (mapError
    (fun err => s!"failed to resolve path dependency `{dependency.aliasName}` at {joined}: {err}")
    (sources.canonicalize joined))
  let manifest ← dependencyManifest sources "path" dependency root
  let children ← descend manifest.dependencies root dependencyPath condition
  let checksum ← outside (sources.packageChecksum root)
  let source := match settings.lockSourceBase with
    | some base => .path ((relativePath base root).map fun c => if c = '\\' then '/' else c)
    | none => dependency.source
  return { source, checksum := some checksum, supplyChain := none, dependencies := children }

/-- A git dependency: `resolve_dependencies`, lines 497–563. -/
def resolveGit (descend : Descend σ V R) (settings : Settings) (baseRoot : String)
    (dependency : Dependency) (dependencyPath : List String) (condition : TargetCondition)
    (git : String) (branch tag rev : Option String) :
    Attempt (Resolution σ V R) ResolvedSource := do
  let root ← outside (sources.resolveGitSource settings.offline
    (settings.dependencyCacheBase.getD baseRoot) dependency.aliasName dependency.package git branch
    tag rev)
  let manifest ← dependencyManifest sources "git" dependency root
  let actualRev ← outside (sources.gitHeadRev root)
  let children ← descend manifest.dependencies root dependencyPath condition
  let checksum ← outside (sources.packageChecksum root)
  return { source := .git git branch tag (some actualRev)
           checksum := some checksum
           supplyChain := none
           dependencies := children }

variable [LinearOrder V] [DecidableEq R]

/-- A registry dependency: `resolve_dependencies`, lines 564–638. -/
def resolveRegistry (descend : Descend σ V R) (settings : Settings) (baseRoot : String)
    (dependency : Dependency) (dependencyPath : List String) (condition : TargetCondition)
    (version : String) (registry : Option String) :
    Attempt (Resolution σ V R) ResolvedSource := do
  let authorization ← outside (sources.registryDependencyAuthorization registry)
  let selected ← select semver sources (settings.dependencyCacheBase.getD baseRoot) dependency
    version registry settings.offline authorization dependencyPath
  let verified ← outside (sources.resolveRegistrySource
    { baseRoot := settings.dependencyCacheBase.getD baseRoot
      aliasName := dependency.aliasName
      package := dependency.package
      version := selected
      registry
      offline := settings.offline
      authorizationHeader := authorization
      trustPolicy := settings.trustPolicy
      transparencyPolicy := settings.transparencyPolicy })
  let source := .registry selected registry
  match verified.root with
  | some root =>
    let manifest ← dependencyManifest sources "registry" dependency root
    lift (require (manifest.package.version = selected)
      s!"registry dependency `{dependency.aliasName}` selected version `{selected}`, but the package manifest declares `{manifest.package.version}`")
    let children ← descend manifest.dependencies root dependencyPath condition
    let checksum ← outside (sources.packageChecksum root)
    return { source
             checksum := some checksum
             supplyChain := verified.evidence
             dependencies := children }
  | none =>
    return { source, checksum := none, supplyChain := verified.evidence, dependencies := [] }

omit [LinearOrder V] [DecidableEq R] in
/-- `remember_package_source`. -/
def rememberPackageSource (package : String) (source : DependencySource) :
    Attempt (Resolution σ V R) PUnit := do
  let changed ← read (·.solver.changed)
  match ← read (·.packageSources package) with
  | none => update fun s =>
      { s with packageSources := Function.update s.packageSources package (some source) }
  | some existing =>
    if existing = source then return ⟨⟩
    else
      match changed, existing, source with
      | true, .registry _ _, .registry _ _ => update fun s =>
          { s with packageSources := Function.update s.packageSources package (some source) }
      | _, _, _ =>
        fail s!"package `{package}` is required with conflicting sources: {sourceDescription existing} and {sourceDescription source}"

/-- One round of the loop of `resolve_dependencies`. -/
def resolveDependency (descend : Descend σ V R) (settings : Settings) (baseRoot : String)
    (currentPath : List String) (activeCondition : TargetCondition) (dependency : Dependency) :
    Attempt (Resolution σ V R) ResolvedDependency := do
  let condition ← lift (orElse (activeCondition.intersection dependency.target)
    s!"dependency `{dependency.aliasName}` target condition `{dependency.target.text}` is unreachable within parent condition `{activeCondition.text}`")
  let dependencyPath := currentPath ++ [dependency.package]
  lift (require (dependency.package ∉ currentPath)
    ("cyclic package dependency: " ++ " -> ".intercalate dependencyPath))
  let resolved ← match dependency.source with
    | .path path =>
      resolvePath sources descend settings baseRoot dependency dependencyPath condition path
    | .git git branch tag rev =>
      resolveGit sources descend settings baseRoot dependency dependencyPath condition git branch tag
        rev
    | .registry version registry =>
      resolveRegistry semver sources descend settings baseRoot dependency dependencyPath condition
        version registry
  rememberPackageSource dependency.package resolved.source
  return { aliasName := dependency.aliasName
           package := dependency.package
           source := resolved.source
           checksum := resolved.checksum
           supplyChain := resolved.supplyChain
           target := dependency.target
           dependencies := resolved.dependencies }

/-- `resolve_dependencies`, to a depth given in advance. -/
def resolveDependencies (settings : Settings) : Nat → Descend σ V R
  | 0 => fun _ _ _ _ => abort
  | depth + 1 => fun dependencies baseRoot currentPath condition =>
      collect (resolveDependency semver sources (resolveDependencies settings depth) settings baseRoot
        currentPath condition) dependencies

end Traversal

/-! ## The loop of passes -/

/-- A project to resolve: its root, its manifest. -/
structure Project where
  root : String
  manifest : Manifest

section Loop

variable (semver : Semver V R) (sources : Sources σ V)

/-- The gossip checkpoints of a file: `load_transparency_verification_policy`, lines 270–289. -/
def loadGossipCheckpoints (path : String) : Attempt σ (List GossipCheckpoint) := do
  let content ← mapError
    (fun err => s!"failed to read transparency gossip checkpoint {path}: {err}")
    (sources.readFile path)
  match sources.checkpointFromJson content with
  | .ok checkpoint => return [checkpoint]
  | .error _ => lift ((sources.checkpointsFromJson content).mapError fun err =>
      s!"invalid transparency gossip checkpoint at {path}: {err}")

/-- `load_transparency_verification_policy`. -/
def loadTransparencyVerificationPolicy (config : TransparencyTrustConfig) :
    Attempt σ TransparencyVerificationPolicy := do
  let checkpoints ← collect (loadGossipCheckpoints sources) config.gossipCheckpoints
  return { trustedLogKeys := config.keys
           freshness :=
            { maxAgeSeconds := config.proofMaxAgeSeconds
              offlineMaxAgeSeconds := config.offlineProofMaxAgeSeconds
              maxFutureSkewSeconds := config.maxFutureSkewSeconds }
           gossipCheckpoints := checkpoints.flatten }

variable [LinearOrder V] [DecidableEq R]

/-- The graph of one project in one pass. -/
def resolveProject (depth : Nat) (lockSourceBase dependencyCacheBase : Option String)
    (offline : Bool) (project : Project) : Attempt (Resolution σ V R) DependencyGraph := do
  update fun s => { s with packageSources := fun _ => none }
  let transparencyPolicy ← outside
    (loadTransparencyVerificationPolicy sources project.manifest.transparency)
  let dependencies ← resolveDependencies semver sources
    { lockSourceBase, dependencyCacheBase, offline, trustPolicy := project.manifest.trust,
      transparencyPolicy }
    depth project.manifest.dependencies project.root [project.manifest.package.id] {}
  return { root := project.manifest.package, dependencies }

/-- One pass. -/
def solvePass (depth : Nat) (lockSourceBase dependencyCacheBase : Option String) (offline : Bool)
    (projects : List Project) : Attempt (Resolution σ V R) (List DependencyGraph) := do
  beginPass
  let graphs ← collect
    (resolveProject semver sources depth lockSourceBase dependencyCacheBase offline) projects
  finalizePass semver
  return graphs

omit [LinearOrder V] [DecidableEq R] in
/-- The selections as one text. -/
def RegistrySolveState.fingerprint (solver : RegistrySolveState V R) : String :=
  "\n".intercalate (solver.selections.toList.map fun entry => s!"{entry.1}={entry.2}")

/-- The loop over the passes that are left, with the selections seen so far. -/
def solvePasses (depth : Nat) (lockSourceBase dependencyCacheBase : Option String) (offline : Bool)
    (projects : List Project) : Nat → List String →
    Attempt (Resolution σ V R) (List DependencyGraph)
  | 0, _ => fail "registry dependency solver did not converge after 64 passes"
  | passes + 1, seen => do
    let graphs ← solvePass semver sources depth lockSourceBase dependencyCacheBase offline projects
    let solver ← read (·.solver)
    if solver.changed then do
      lift (require (solver.fingerprint ∉ seen)
        "registry dependency solver repeated a selection state without converging")
      solvePasses depth lockSourceBase dependencyCacheBase offline projects passes
        (solver.fingerprint :: seen)
    else return graphs

/-- The number of passes the loop makes at most. -/
def maxPasses : Nat := 64

/-- `resolve_dependency_graphs_for_manifests`. -/
def resolveDependencyGraphs (depth : Nat) (manifests : List Project)
    (lockSourceBase dependencyCacheBase : Option String) (offline : Bool) :
    Attempt (Resolution σ V R) (List DependencyGraph) := do
  let canonical : Option String → Attempt (Resolution σ V R) (Option String)
    | some path => some <$> outside (sources.canonicalize path)
    | none => pure none
  let lockSourceBase ← canonical lockSourceBase
  let dependencyCacheBase ← canonical dependencyCacheBase
  let roots ← collect (fun project => outside (sources.canonicalize project.root)) manifests
  let projects := (manifests.zip roots).map fun (project, root) => { project with root }
  solvePasses semver sources depth lockSourceBase dependencyCacheBase offline projects maxPasses []

end Loop

end Nomo.Deps
