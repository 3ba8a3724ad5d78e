import Nomo.Packing.Sources
import Nomo.Deps.LockCheck

/-!
# The sources of a locked graph

Where the source of a locked dependency is (`nomo/src/project/vendor.rs:49–193`,
`git_cache.rs:95–135`, `modules.rs:321–376`, `nomo_resolver/src/lib.rs:556–572`), and the check of the
checksums that the lock records (`dependency_resolution.rs:677–728`).

A locked build reads the disk and does not change it: the disk is a `SourceDisk`.
-/

namespace Nomo.Deps

open Nomo.Lib Nomo.Lib.Checked Nomo.SupplyChain Nomo.Resolver Nomo.Packing

/-- `FfiLinkMetadata`. -/
structure FfiLinkMetadata where
  libraries : List String
  libraryPaths : List String
  sources : List String
  frameworks : List String
  linkArgs : List String
deriving DecidableEq

/-- `FfiLinkMetadata::extend`. -/
def FfiLinkMetadata.extend (metadata other : FfiLinkMetadata) : FfiLinkMetadata where
  libraries := metadata.libraries ++ other.libraries
  libraryPaths := metadata.libraryPaths ++ other.libraryPaths
  sources := metadata.sources ++ other.sources
  frameworks := metadata.frameworks ++ other.frameworks
  linkArgs := metadata.linkArgs ++ other.linkArgs

/-- `VendorPackage`, without what nothing reads. -/
structure VendorPackage where
  id : String
  aliasName : String
  source : String
  path : Option String

/-- What a locked build reads from the disk. -/
structure SourceDisk where
  /-- `Path::exists`. -/
  present : String → Bool
  /-- `Path::is_dir`. -/
  isDir : String → Bool
  /-- `Path::is_file`. -/
  isFile : String → Bool
  /-- `fs::canonicalize`. -/
  canonicalize : String → Except String String
  /-- `fs::read_to_string`. -/
  readToString : String → Except String String
  /-- The package at a root. -/
  packageAt : String → PackageRoot
  /-- `parse_manifest_at_root`. -/
  parseManifestAtRoot : String → Except String Manifest
  /-- `Manifest::ffi_for_target` of the manifest at a root. -/
  ffiForTarget : String → TargetTriple → FfiLinkMetadata
  /-- `git_remote_url`. -/
  gitRemoteUrl : String → Option String
  /-- `toml::from_str::<VendorDocument>`. -/
  vendorFromToml : String → Except String (List VendorPackage)

section

variable (crates : Crates) (disk : SourceDisk)

/-! ## Roots -/

/-- `lock_source_string`. -/
def lockSourceString (dependency : ResolvedDependency) : String :=
  (LockPackage.fromResolved dependency).source

/-- The package at a root is the locked one. The message calls it locked or vendored. -/
def checkLockedPackage (kind : String) (dependency : ResolvedDependency) (root : String) :
    Except String Unit := do
  let manifest ← disk.parseManifestAtRoot root
  require (manifest.package.id = dependency.package)
    s!"{kind} dependency `{dependency.aliasName}` expected package `{dependency.package}`, found `{manifest.package.id}`"

/-- `git_cache_key`. -/
def gitCacheKey (package git : String) : String :=
  "git-" ++ encodeHex (crates.sha256 (bytes package ++ [0] ++ bytes git)).bytes

/-- `git_clone_source`. -/
def gitCloneSource (base git : String) : String :=
  if git.toList.head? = some '/' ∨ ':' ∈ git.toList then git else pushPath base git

/-- `str::replace('\\', "/")`. -/
def slashes (text : String) : String := withSlashes text

/-- The checkout is one of the dependency: the checks of `locked_git_root`. -/
def isLockedCheckout (base package git path : String) : Bool :=
  match disk.parseManifestAtRoot path, disk.gitRemoteUrl path with
  | .ok manifest, some remote =>
    manifest.package.id = package &&
      (remote = git || slashes remote = slashes (gitCloneSource base git))
  | _, _ => false

/-- `locked_git_root`. -/
def lockedGitRoot (base package git : String) : Except String (Option String) :=
  let cacheRoot := pushPath base ".nomo/deps/git"
  let path := pushPath cacheRoot (gitCacheKey crates package git)
  if disk.isDir cacheRoot = true ∧ disk.isDir path = true ∧
      isLockedCheckout disk base package git path = true then
    some <$> disk.canonicalize path
  else return none

/-- `registry_cached_source_root`. -/
def registryCachedSourceRoot (base package version : String) (registry : Option String) :
    Except String (Option String) :=
  let sourceRoot := pushPath (registryCacheRoot crates base package version registry) "source"
  if disk.present sourceRoot = true then
    some <$> (disk.canonicalize sourceRoot).mapError fun err =>
      s!"failed to resolve cached registry package `{package}` at {sourceRoot}: {err}"
  else return none

/-- The directory that the vendor manifest names for a dependency. -/
def vendoredPath (packages : List VendorPackage) (dependency : ResolvedDependency) :
    Option String := do
  let package ← packages.find? fun package => package.id = dependency.package ∧
    package.aliasName = dependency.aliasName ∧ package.source = lockSourceString dependency ∧
    package.path.isSome = true
  package.path

/-- `vendored_source_root`. -/
def vendoredSourceRoot (base : String) (dependency : ResolvedDependency) :
    Except String (Option String) := do
  let vendorRoot := pushPath base "vendor"
  let manifest := pushPath vendorRoot "nomo-vendor.toml"
  if disk.isFile manifest = false then return none
  else
    let text ← (disk.readToString manifest).mapError fun err =>
      s!"failed to read vendor manifest at {manifest}: {err}"
    let packages ← (disk.vendorFromToml text).mapError fun err =>
      s!"failed to parse nomo-vendor.toml as TOML: {err}"
    match vendoredPath packages dependency with
    | none => return none
    | some path =>
      let root := pushPath vendorRoot path
      if disk.present root = false then return none
      else
        let canonical ← (disk.canonicalize root).mapError fun err =>
          s!"failed to resolve vendored dependency `{dependency.aliasName}` at {root}: {err}"
        checkLockedPackage disk "vendored" dependency canonical
        return some canonical

/-- The directory of a path dependency. -/
def lockedPathRoot (base : String) (dependency : ResolvedDependency) (path : String) :
    Except String (Option String) :=
  let root := pushPath base path
  if disk.present root = true then
    some <$> (disk.canonicalize root).mapError fun err =>
      s!"failed to resolve locked path dependency `{dependency.aliasName}` at {root}: {err}"
  else return none

/-- The root of a source that is there, of the package that is locked. -/
def checkedRoot (dependency : ResolvedDependency) (root : String) :
    Except String (Option String) := do
  checkLockedPackage disk "locked" dependency root
  return some root

/-- `locked_source_root`. -/
def lockedSourceRoot (base : String) (dependency : ResolvedDependency) :
    Except String (Option String) := do
  let root ← match dependency.source with
    | .path path => lockedPathRoot disk base dependency path
    | .git git _ _ _ => lockedGitRoot crates disk base dependency.package git
    | .registry version registry =>
      registryCachedSourceRoot crates disk base dependency.package version registry
  match root with
  | none => return none
  | some root => checkedRoot disk dependency root

/-- `locked_or_vendor_source_root`. -/
def lockedOrVendorSourceRoot (base : String) (dependency : ResolvedDependency) :
    Except String (Option String) := do
  match ← lockedSourceRoot crates disk base dependency with
  | some root => return some root
  | none => vendoredSourceRoot disk base dependency

/-- `resolved_dependency_module_root`. -/
def resolvedDependencyModuleRoot (base : String) (dependency : ResolvedDependency) :
    Except String (Option String) := do
  match dependency.source with
  | .path path =>
    match ← lockedPathRoot disk base dependency path with
    | none => vendoredSourceRoot disk base dependency
    | some root => checkedRoot disk dependency root
  | .git _ _ _ _ =>
    match ← lockedOrVendorSourceRoot crates disk base dependency with
    | none => return none
    | some root => checkedRoot disk dependency root
  | .registry version registry =>
    match ← registryCachedSourceRoot crates disk base dependency.package version registry with
    | none => vendoredSourceRoot disk base dependency
    | some root => checkedRoot disk dependency root

/-! ## The check of the checksums -/

/-- The source at a root is the recorded one, if a checksum is recorded: the body of the loop of
`verify_locked_source_checksums`. -/
def checkLockedChecksum (package : String) (checksum : Option String) (root : String) :
    Except String Unit :=
  match checksum with
  | none => return ()
  | some expected => do
    let actual ← packageChecksum crates (disk.packageAt root)
    require (actual = expected)
      s!"checksum mismatch for locked package `{package}`: expected {expected}, found {actual}"

mutual

/-- One dependency and, from its root, those below it. -/
def verifyLockedSourceChecksum (base : String) : ResolvedDependency → Except String Unit
  | ⟨aliasName, package, source, checksum, supplyChain, target, dependencies⟩ => do
    match ← lockedOrVendorSourceRoot crates disk base
        ⟨aliasName, package, source, checksum, supplyChain, target, dependencies⟩ with
    | none => return ()
    | some root =>
      checkLockedChecksum crates disk package checksum root
      verifyLockedSourceChecksums root dependencies

/-- `verify_locked_source_checksums`. -/
def verifyLockedSourceChecksums (base : String) : List ResolvedDependency → Except String Unit
  | [] => return ()
  | dependency :: rest => do
    verifyLockedSourceChecksum base dependency
    verifyLockedSourceChecksums base rest

end

/-! ## Reading the lock -/

variable {V R : Type} [DecidableEq V] (semver : Semver V R) (toml : Toml)

/-- `dependency_graph_and_source_base_from_lockfile`, with trees rebuilt to a depth given in
advance. -/
def dependencyGraphAndSourceBaseFromLockfile (depth : ℕ) (root lockRoot : String) :
    Except String (DependencyGraph × String) := do
  let manifest ← disk.parseManifestAtRoot root
  let lockPath := pushPath lockRoot "nomo.lock"
  require (disk.isFile lockPath = true) s!"nomo.lock is required for locked mode at {lockPath}"
  let text ← disk.readToString lockPath
  let parsed ← semver.parseLockfileRoot toml depth text manifest.package.id
  let checksumBase := if parsed.hasWorkspaceRoots = true then lockRoot else root
  verifyLockedSourceChecksums crates disk checksumBase parsed.dependencies
  return (⟨manifest.package, parsed.dependencies⟩, checksumBase)

end

end Nomo.Deps
