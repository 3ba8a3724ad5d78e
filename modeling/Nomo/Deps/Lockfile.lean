import Nomo.Lib.DirectedGraph
import Nomo.Deps.Manifest
import Nomo.Deps.Version

/-!
# The lockfile

`nomo_lockfile/src/lib.rs`. A graph is written as a flat table of packages, one entry for every place
in which a package occurs; a list of the direct dependencies is written only if one of them has a
target condition. Reading goes back: the entries are checked, and the tree of every direct dependency
is rebuilt by looking up the entries that its edges name. Without the list, the direct dependencies
are taken to be the packages that no entry refers to.

The TOML text of a document comes from the toml crate (`Toml`).
-/

namespace Nomo.Deps

open Nomo.Lib Nomo.Lib.Checked Nomo.SupplyChain Nomo.Resolver

/-! ## Documents -/

/-- `LockDependencyEntry`. -/
inductive LockDependencyEntry
  | legacy (entry : String)
  | conditional (aliasName package : String) (target : TargetCondition)
deriving DecidableEq

/-- `LockRoot`. -/
structure LockRoot where
  id : String
  dependencies : List LockDependencyEntry
deriving DecidableEq

/-- `LockPackage`. -/
structure LockPackage where
  id : String
  aliasName : String
  version : Option String
  source : String
  branch : Option String
  tag : Option String
  rev : Option String
  checksum : Option String
  supplyChain : Option VerifiedReleaseEvidence
  dependencies : List LockDependencyEntry
deriving DecidableEq

/-- `LockfileDocument`. -/
structure LockfileDocument where
  root : List LockRoot
  package : List LockPackage
deriving DecidableEq

/-- The toml crate on lockfile documents. -/
structure Toml where
  toString : LockfileDocument → String
  fromStr : String → Except String LockfileDocument

/-- `DependencyEdge`. -/
structure DependencyEdge where
  aliasName : String
  package : String
  target : TargetCondition
deriving DecidableEq

/-- `ParsedLockfileRoot`. -/
structure ParsedLockfileRoot where
  dependencies : List ResolvedDependency
  hasWorkspaceRoots : Bool

/-! ## Rendering -/

/-- `LockDependencyEntry::from_resolved`. -/
def LockDependencyEntry.fromResolved (dependency : ResolvedDependency) : LockDependencyEntry :=
  if dependency.target.isUnconditional then
    .legacy s!"{dependency.aliasName} -> {dependency.package}"
  else .conditional dependency.aliasName dependency.package dependency.target

/-- `LockRoot::from_graph`. -/
def LockRoot.fromGraph (graph : DependencyGraph) : LockRoot where
  id := graph.root.id
  dependencies := graph.dependencies.map .fromResolved

/-- `LockPackage::from_resolved`. -/
def LockPackage.fromResolved (dependency : ResolvedDependency) : LockPackage :=
  let package : LockPackage :=
    { id := dependency.package
      aliasName := dependency.aliasName
      version := none
      source := ""
      branch := none
      tag := none
      rev := none
      checksum := dependency.checksum
      supplyChain := dependency.supplyChain
      dependencies := dependency.dependencies.map .fromResolved }
  match dependency.source with
  | .registry version registry =>
    { package with
      version := some version
      source := "registry+" ++ registry.getD dependency.package }
  | .path path => { package with source := "path+" ++ path }
  | .git git branch tag rev => { package with source := "git+" ++ git, branch, tag, rev }

mutual

/-- A dependency with all below it. -/
def flattenDependency : ResolvedDependency → List ResolvedDependency
  | ⟨aliasName, package, source, checksum, supplyChain, target, dependencies⟩ =>
    ⟨aliasName, package, source, checksum, supplyChain, target, dependencies⟩ ::
      flattenDependencies dependencies

/-- `flatten_dependencies`. -/
def flattenDependencies : List ResolvedDependency → List ResolvedDependency
  | [] => []
  | dependency :: rest => flattenDependency dependency ++ flattenDependencies rest

end

/-- A direct dependency has a target condition. -/
def DependencyGraph.hasConditionalRoot (graph : DependencyGraph) : Bool :=
  graph.dependencies.any fun dependency => !dependency.target.isUnconditional

/-- The document of a graph. -/
def lockfileDocument (graph : DependencyGraph) : LockfileDocument where
  root := if graph.hasConditionalRoot then [.fromGraph graph] else []
  package := (flattenDependencies graph.dependencies).map .fromResolved

/-- The comment that every lockfile starts with. -/
def lockfileHeader : String := "# This file is generated by `nomo deps resolve`.\n\n"

/-- `render_lockfile`. -/
def renderLockfile (toml : Toml) (graph : DependencyGraph) : String :=
  lockfileHeader ++ toml.toString (lockfileDocument graph)

/-! ## Parsing an entry -/

/-- `validate_dependency_alias`. -/
def validateDependencyAlias (value : String) : Except String Unit :=
  require (value ≠ "" ∧ (value.toList.all fun c => c == '_' || isLowerOrDigit c) = true ∧
      value.toList.head?.any (fun c => c == '_' || ('a' ≤ c && c ≤ 'z')) = true)
    s!"dependency alias `{value}` must be a lowercase Nomo identifier"

/-- `str::split_once` with a text. -/
def splitOnceText (separator : List Char) : List Char → Option (List Char × List Char)
  | [] => none
  | c :: cs =>
    match separator.isPrefixOf? (c :: cs) with
    | some rest => some ([], rest)
    | none => (splitOnceText separator cs).map fun (left, right) => (c :: left, right)

/-- `parse_lock_dependency_entry`. -/
def parseLockDependencyEntry (entry : String) : Except String DependencyEdge := do
  let (aliasName, package) ← orElse (splitOnceText " -> ".toList entry.toList)
    s!"lockfile dependency entry `{entry}` must use `alias -> owner/package`"
  validateDependencyAlias (String.ofList aliasName)
  validatePackageId (String.ofList package)
  return { aliasName := String.ofList aliasName, package := String.ofList package, target := {} }

/-- `LockDependencyEntry::into_edge`. -/
def LockDependencyEntry.intoEdge : LockDependencyEntry → Except String DependencyEdge
  | .legacy entry => parseLockDependencyEntry entry
  | .conditional aliasName package target => do
    validateDependencyAlias aliasName
    validatePackageId package
    require (target.isUnconditional = false)
      s!"lockfile dependency `{aliasName} -> {package}` uses an empty target condition"
    target.validateCanonical.mapError fun err =>
      s!"lockfile dependency `{aliasName} -> {package}` has invalid target condition: {err}"
    return { aliasName, package, target }

/-- `LockRoot::dependency_edges`. -/
def LockRoot.dependencyEdges (root : LockRoot) : Except String (List DependencyEdge) := do
  validatePackageId root.id
  collect LockDependencyEntry.intoEdge root.dependencies

/-- An ASCII hexadecimal digit. -/
def isAsciiHexdigit (c : Char) : Bool :=
  ('0' ≤ c && c ≤ '9') || ('a' ≤ c && c ≤ 'f') || ('A' ≤ c && c ≤ 'F')

/-- `validate_checksum`. -/
def validateLockChecksum (package checksum : String) : Except String Unit := do
  let hex ← orElse (stripPrefix "sha256:" checksum)
    s!"lockfile package `{package}` checksum must use `sha256:<hex>`"
  require (hex.utf8ByteSize = 64 ∧ hex.toList.all isAsciiHexdigit = true)
    s!"lockfile package `{package}` checksum must contain 64 hexadecimal digits"

section Parse

variable {V R : Type} (semver : Semver V R)

/-- `validate_version_like`. -/
def Semver.validateVersionLike (label value : String) : Except String Unit :=
  match semver.parseVersion value with
  | .ok _ => .ok ()
  | .error err => .error s!"{label} `{value}` is invalid: {err}"

/-- `validate_lock_version_shape`. -/
def Semver.validateLockVersionShape (package : String) : DependencySource → Except String Unit
  | .registry version _ =>
    semver.validateVersionLike s!"lockfile package `{package}` version" version
  | _ => .ok ()

/-- `validate_lock_source_selectors`. -/
def validateLockSourceSelectors (package : String) : DependencySource → Except String Unit
  | .git _ branch tag rev =>
    let selectorCount := ([branch, tag, rev].filter Option.isSome).length
    require (selectorCount ≤ 2 ∧ (selectorCount = 2 → rev.isSome = true))
      s!"lockfile package `{package}` git source can only combine one selector with resolved `rev`"
  | _ => .ok ()

/-- The source of an entry, by its prefix: `parse_lock_source`, lines 626–682. -/
def lockSource (package source : String) (version branch tag rev : Option String) :
    Except String DependencySource :=
  match stripPrefix "registry+" source with
  | some registrySource => do
    require (branch = none ∧ tag = none ∧ rev = none)
      s!"lockfile package `{package}` registry source must not declare git selectors"
    let version ← orElse version s!"registry package `{package}` is missing `version`"
    return .registry version (if registrySource = package then none else some registrySource)
  | none =>
    match stripPrefix "path+" source with
    | some path => do
      require (version = none)
        s!"lockfile package `{package}` path source must not declare `version`"
      require (branch = none ∧ tag = none ∧ rev = none)
        s!"lockfile package `{package}` path source must not declare git selectors"
      return .path path
    | none =>
      match stripPrefix "git+" source with
      | some git => do
        require (version = none)
          s!"lockfile package `{package}` git source must not declare `version`"
        return .git git branch tag rev
      | none => .error s!"lockfile package `{package}` has unsupported source `{source}`"

/-- `parse_lock_source`. -/
def Semver.parseLockSource (package source : String) (version branch tag rev : Option String) :
    Except String DependencySource := do
  let source ← lockSource package source version branch tag rev
  semver.validateLockVersionShape package source
  validateLockSourceSelectors package source
  return source

/-- What stands for a dependency until its entry is looked up. -/
def placeholder (edge : DependencyEdge) : ResolvedDependency where
  aliasName := edge.aliasName
  package := edge.package
  source := .registry "locked" none
  checksum := none
  supplyChain := none
  target := edge.target
  dependencies := []

/-- `LockPackage::into_resolved`. -/
def Semver.intoResolved (package : LockPackage) : Except String ResolvedDependency := do
  validatePackageId package.id
  validateDependencyAlias package.aliasName
  let source ← semver.parseLockSource package.id package.source package.version package.branch
    package.tag package.rev
  each (validateLockChecksum package.id) package.checksum.toList
  let edges ← collect LockDependencyEntry.intoEdge package.dependencies
  return { aliasName := package.aliasName
           package := package.id
           source
           checksum := package.checksum
           supplyChain := package.supplyChain
           target := {}
           dependencies := edges.map placeholder }

/-! ## The locked graph -/

/-- The edges of one package that are there for a target. -/
def addPackage (target : TargetTriple) (graph : DirectedGraph String) (package : ResolvedDependency) :
    DirectedGraph String :=
  package.dependencies.foldl (fun graph dependency =>
    if dependency.target.matches target then graph.addEdge package.package dependency.package
    else graph) (graph.addNode package.package)

/-- The graph of the packages for a target. -/
def lockedGraph (packages : List ResolvedDependency) (target : TargetTriple) : DirectedGraph String :=
  packages.foldl (addPackage target) .empty

/-- `validate_locked_dependency_graph`. -/
def validateLockedDependencyGraph (packages : List ResolvedDependency) : Except String Unit :=
  each (fun target =>
    match (lockedGraph packages target).findCycle with
    | none => .ok ()
    | some (.cycle path) => .error
        (s!"cyclic dependency in nomo.lock for target `{target.text}`: " ++ " -> ".intercalate path)
    | some (.panic message) => .error message
    | some .outOfFuel => .error "the search for a cycle did not end") TargetTriple.supported

/-- The entry for an edge: `build_locked_dependency` and `build_locked_dependencies_from_edges`. -/
def findLocked (packages : List ResolvedDependency) (aliasName package : String) :
    Except String ResolvedDependency :=
  orElse
    ((packages.find? fun entry => entry.package = package ∧ entry.aliasName = aliasName).or
      (packages.find? fun entry => entry.package = package))
    s!"nomo.lock references missing dependency `{aliasName} -> {package}`"

/-- `build_locked_dependency`, to a depth given in advance. -/
def buildLockedDependency (packages : List ResolvedDependency) :
    ℕ → ResolvedDependency → Except String ResolvedDependency
  | 0, _ => .error "nomo.lock is nested too deeply"
  | depth + 1, dependency => do
    let children ← collect (fun child => do
      let locked ← findLocked packages child.aliasName child.package
      let locked ← buildLockedDependency packages depth locked
      return { locked with aliasName := child.aliasName, target := child.target })
      dependency.dependencies
    return { dependency with dependencies := children }

/-- `build_locked_dependencies_from_edges`. -/
def buildLockedDependenciesFromEdges (packages : List ResolvedDependency) (depth : ℕ)
    (edges : List DependencyEdge) : Except String (List ResolvedDependency) :=
  collect (fun edge => do
    let locked ← findLocked packages edge.aliasName edge.package
    let locked ← buildLockedDependency packages depth locked
    return { locked with aliasName := edge.aliasName, target := edge.target }) edges

/-- The packages that some entry refers to. -/
def referencedPackages (packages : List ResolvedDependency) : List String :=
  packages.flatMap fun package => package.dependencies.map (·.package)

/-- The edges listed for a root: `parse_lockfile_root`, lines 107–112. -/
def rootEdges (roots : List LockRoot) (rootId : String) :
    Except String (Option (List DependencyEdge)) :=
  match roots.find? (·.id = rootId) with
  | some root => some <$> root.dependencyEdges
  | none => .ok none

/-- The direct dependencies: `parse_lockfile_root`, lines 120–143. -/
def rootDependencies (packages : List ResolvedDependency) (depth : ℕ) (hasWorkspaceRoots : Bool)
    (rootId : String) : Option (List DependencyEdge) → Except String (List ResolvedDependency)
  | some edges => buildLockedDependenciesFromEdges packages depth edges
  | none =>
    if hasWorkspaceRoots then
      .error s!"nomo.lock does not contain workspace root `{rootId}`"
    else
      collect (buildLockedDependency packages depth)
        (packages.filter fun package => package.package ∉ referencedPackages packages)

/-- `parse_lockfile_root` on a document. -/
def Semver.lockfileRoot (depth : ℕ) (document : LockfileDocument) (rootId : String) :
    Except String ParsedLockfileRoot := do
  let edges ← rootEdges document.root rootId
  let hasWorkspaceRoots := !document.root.isEmpty
  let packages ← collect semver.intoResolved document.package
  validateLockedDependencyGraph packages
  let dependencies ← rootDependencies packages depth hasWorkspaceRoots rootId edges
  return { dependencies, hasWorkspaceRoots }

/-- `parse_lockfile_root`, with trees rebuilt to a depth given in advance. -/
def Semver.parseLockfileRoot (toml : Toml) (depth : ℕ) (lockfile rootId : String) :
    Except String ParsedLockfileRoot := do
  let document ← (toml.fromStr lockfile).mapError fun err =>
    s!"failed to parse nomo.lock as TOML: {err}"
  semver.lockfileRoot depth document rootId

end Parse

end Nomo.Deps
