import Nomo.Deps.LockedBuild
import Nomo.Deps.Resolution

/-!
# What a build without a lock uses

The module context of a project and its FFI link metadata when no lock is read
(`nomo/src/project/modules.rs:182–206, 241–319`, `ffi.rs:47–94`): every dependency is resolved from its
own entry in the manifest that names it, a registry dependency with `resolve_registry_source`
(`nomo_resolver/src/lib.rs:40–72, 252–274`), which asks for checksums only.

As in a locked build, each function returns with its result the source roots that went into it. The
dependencies of dependencies are followed to a depth given in advance.
-/

namespace Nomo.Deps

open Nomo.Lib Nomo.Lib.Checked Nomo.SupplyChain Nomo.Resolver Nomo.Packing
open Attempt (fail lift read collect mapError)

/-- What a build takes from elsewhere. -/
structure BuildSources (σ V : Type) extends Sources σ V where
  /-- `package_source_files`, of which only the failure matters. -/
  packageSourceFiles : String → Attempt σ PUnit
  /-- `Manifest::ffi_for_target` of the manifest at a root. -/
  ffiForTarget : String → TargetTriple → Attempt σ FfiLinkMetadata

/-- `DependencyResolutionOptions`. -/
structure DependencyResolutionOptions where
  locked : Bool
  offline : Bool

section

variable {σ V R : Type} [LinearOrder V] (semver : Semver V R) (sources : BuildSources σ V)

/-! ## Registry dependencies -/

/-- `resolve_registry_version`. -/
def resolveRegistryVersion (base aliasName package requirementSource : String)
    (registry : Option String) (offline : Bool) (authorization : Option String) :
    Attempt σ String := do
  let requirement ← lift (semver.parseConstraint requirementSource)
  match requirement with
  | .exact version => return semver.text version
  | .range normalized _ =>
    let registry ← lift (orElse registry
      s!"registry dependency `{aliasName}` package `{package}` uses range `{normalized}` but no registry endpoint is configured")
    let candidates ← sources.loadRegistryVersionCandidates base aliasName package registry offline
      authorization
    let origin : ConstraintOrigin V R := { requirement, dependencyPath := [aliasName, package] }
    let version ← lift ((selectHighestVersion semver package candidates [origin]).mapError
      (·.render semver))
    return semver.text version

/-- `TransparencyVerificationPolicy::pinned`, without keys. -/
def pinnedPolicy : TransparencyVerificationPolicy where
  trustedLogKeys := []
  freshness :=
    { maxAgeSeconds := 24 * 60 * 60
      offlineMaxAgeSeconds := 7 * 24 * 60 * 60
      maxFutureSkewSeconds := 5 * 60 }
  gossipCheckpoints := []

/-- The request of `resolve_registry_source`. -/
def checksumOnlyRequest (base aliasName package version : String) (registry : Option String)
    (offline : Bool) (authorization : Option String) : Request where
  baseRoot := base
  aliasName
  package
  version
  registry
  offline
  authorizationHeader := authorization
  trustPolicy := .checksumOnly
  transparencyPolicy := pinnedPolicy

/-- The use of a dependency of a manifest. -/
def Dependency.use (dependency : Dependency) (root : String) (policy : Option TrustPolicy) :
    SourceUse where
  package := dependency.package
  source := dependency.source
  checksum := none
  root
  policy

/-- A registry dependency: `dependency_module_root`, lines 282–315. -/
def registryModuleRoot (base : String) (dependency : Dependency) (version : String)
    (registry : Option String) (offline : Bool) : Attempt σ (Option SourceUse) := do
  let authorization ← sources.registryDependencyAuthorization registry
  let selected ← resolveRegistryVersion semver sources base dependency.aliasName dependency.package
    version registry offline authorization
  let request := checksumOnlyRequest base dependency.aliasName dependency.package selected registry
    offline authorization
  let resolved ← sources.resolveRegistrySource request
  match resolved.root with
  | none => return none
  | some root =>
    let manifest ← sources.parseManifestAtRoot root
    lift (require (manifest.package.version = selected)
      s!"registry dependency `{dependency.aliasName}` selected version `{selected}`, but the package manifest declares `{manifest.package.version}`")
    return some (dependency.use root (some request.trustPolicy))

/-- The root of a dependency, before its package is validated. -/
def unvalidatedModuleRoot (base : String) (dependency : Dependency) (offline : Bool) :
    Attempt σ (Option SourceUse) :=
  match dependency.source with
  | .path path => do
    let joined := pushPath base path
    let root ← mapError
      (fun err => s!"failed to resolve path dependency `{dependency.aliasName}` at {joined}: {err}")
      (sources.canonicalize joined)
    return some (dependency.use root none)
  | .git git branch tag rev => do
    let root ← sources.resolveGitSource offline base dependency.aliasName dependency.package git
      branch tag rev
    return some (dependency.use root none)
  | .registry version registry =>
    registryModuleRoot semver sources base dependency version registry offline

/-- `validate_dependency_package`. -/
def validateDependencyPackage (root : String) (dependency : Dependency) : Attempt σ PUnit := do
  let manifest ← sources.parseManifestAtRoot root
  lift (require (manifest.package.id = dependency.package)
    s!"dependency `{dependency.aliasName}` expected package `{dependency.package}`, found `{manifest.package.id}`")

/-- `dependency_module_root`. -/
def dependencyModuleRoot (base : String) (dependency : Dependency) (offline : Bool) :
    Attempt σ (Option SourceUse) := do
  match ← unvalidatedModuleRoot semver sources base dependency offline with
  | none => return none
  | some use =>
    validateDependencyPackage sources use.root dependency
    return some use

/-! ## Module contexts -/

/-- One round of the loop of `project_module_context_for_target_with_options`. -/
def currentExternalModule (base : String) (offline : Bool) (dependency : Dependency) :
    Attempt σ (Option (ExternalModule × SourceUse)) := do
  match ← dependencyModuleRoot semver sources base dependency offline with
  | none => return none
  | some use =>
    let manifest ← sources.parseManifestAtRoot use.root
    let sourceImportRoot ← lift (packageNameToModuleRoot manifest.package.name)
    return some (
      { importRoot := dependency.aliasName
        sourceImportRoot
        canonicalPackage := manifest.package.id
        sourceRoot := pushPath use.root "src" }, use)

/-- `project_module_context_for_target_with_options`, without a lock. -/
def currentModuleContext (root : String) (offline : Bool) (target : TargetTriple) :
    Attempt σ (ProjectModuleContext × List SourceUse) := do
  let manifest ← sources.parseManifestAtRoot root
  let localModuleRoot ← lift (packageNameToModuleRoot manifest.package.name)
  let dependencies := manifest.dependencies.filter fun dependency =>
    dependency.target.matches target && dependency.aliasName != "std"
  let modules ← collect (currentExternalModule semver sources root offline) dependencies
  let found := modules.filterMap id
  return (moduleContext root manifest localModuleRoot (dependencies.map (·.aliasName))
    (found.map Prod.fst), found.map Prod.snd)

/-! ## FFI link metadata -/

/-- The metadata of a package that is seen for the first time, and what is collected below it. -/
def addCurrentFfi (descend : List Dependency → String → FfiCollection → Attempt σ FfiCollection)
    (target : TargetTriple) (use : SourceUse) (collection : FfiCollection) :
    Attempt σ FfiCollection := do
  let manifest ← sources.parseManifestAtRoot use.root
  sources.packageSourceFiles use.root
  if manifest.package.id ∈ collection.seen then return collection
  else
    let metadata ← sources.ffiForTarget use.root target
    descend manifest.dependencies use.root
      { seen := manifest.package.id :: collection.seen
        metadata := collection.metadata.extend metadata
        uses := collection.uses ++ [use] }

/-- One round of the loop of `collect_current_dependency_ffi_metadata`. -/
def collectCurrentFfi (descend : List Dependency → String → FfiCollection → Attempt σ FfiCollection)
    (base : String) (offline : Bool) (target : TargetTriple) (dependency : Dependency)
    (collection : FfiCollection) : Attempt σ FfiCollection := do
  match ← dependencyModuleRoot semver sources base dependency offline with
  | none => return collection
  | some use => addCurrentFfi sources descend target use collection

/-- The loop of `collect_current_dependency_ffi_metadata`. -/
def collectCurrentFfis (descend : List Dependency → String → FfiCollection → Attempt σ FfiCollection)
    (base : String) (offline : Bool) (target : TargetTriple) :
    List Dependency → FfiCollection → Attempt σ FfiCollection
  | [], collection => return collection
  | dependency :: rest, collection => do
    let collection ← collectCurrentFfi semver sources descend base offline target dependency collection
    collectCurrentFfis descend base offline target rest collection

/-- `collect_current_dependency_ffi_metadata`, to a depth given in advance. -/
def collectCurrentDependencyFfiMetadata (offline : Bool) (target : TargetTriple) :
    ℕ → List Dependency → String → FfiCollection → Attempt σ FfiCollection
  | 0 => fun _ _ _ => fail "the dependencies are nested too deeply"
  | depth + 1 => fun dependencies base collection =>
    collectCurrentFfis semver sources (collectCurrentDependencyFfiMetadata offline target depth) base
      offline target (dependencies.filter (·.target.matches target)) collection

/-- `project_ffi_link_metadata_for_target_with_options`, without a lock. -/
def currentFfiLinkMetadata (root : String) (offline : Bool) (target : TargetTriple) (depth : ℕ) :
    Attempt σ (FfiLinkMetadata × List SourceUse) := do
  let manifest ← sources.parseManifestAtRoot root
  sources.packageSourceFiles root
  let metadata ← sources.ffiForTarget root target
  let collection ← collectCurrentDependencyFfiMetadata semver sources offline target depth
    manifest.dependencies root { seen := [manifest.package.id], metadata, uses := [] }
  return (collection.metadata, collection.uses)

/-! ## Builds with options -/

variable (crates : Crates) (disk : σ → SourceDisk) (toml : Toml) (depth : ℕ)

/-- The lock is read: the condition at the head of both functions. -/
def usesLock (world : σ) (project : ProjectPaths) (options : DependencyResolutionOptions) : Bool :=
  options.locked || (options.offline && (disk world).isFile (pushPath project.lockRoot "nomo.lock"))

/-- `project_module_context_for_target_with_options`. -/
def projectModuleContext (project : ProjectPaths) (options : DependencyResolutionOptions)
    (target : TargetTriple) : Attempt σ (ProjectModuleContext × List SourceUse) := fun world =>
  if usesLock disk world project options then
    (lockedModuleContext crates (disk world) semver toml depth project target, world)
  else currentModuleContext semver sources project.root options.offline target world

/-- `project_ffi_link_metadata_for_target_with_options`. -/
def projectFfiLinkMetadata (project : ProjectPaths) (options : DependencyResolutionOptions)
    (target : TargetTriple) : Attempt σ (FfiLinkMetadata × List SourceUse) := fun world =>
  if usesLock disk world project options then
    (lockedFfiLinkMetadata crates (disk world) semver toml depth project target, world)
  else currentFfiLinkMetadata semver sources project.root options.offline target depth world

end

end Nomo.Deps
