import Nomo.Deps.LockedSources

/-!
# What a locked build uses

The three things that are built from a locked graph: the module context of a project
(`nomo/src/project/modules.rs:152–239`), its FFI link metadata (`ffi.rs:24–122`) and its package graph
(`package_graph.rs:115–343`). Each finds the root of a dependency with `resolved_dependency_module_root`,
from the base of the lock.

With its result each function returns the source roots that went into it.
-/

namespace Nomo.Deps

open Nomo.Lib Nomo.Lib.Checked Nomo.SupplyChain Nomo.Resolver Nomo.Packing

/-! ## Names -/

/-- `is_nomo_reserved_identifier`. -/
def isNomoReservedIdentifier (value : String) : Bool :=
  value ∈ ["package", "import", "pub", "impl", "interface", "unsafe", "extern", "suspend", "fn",
    "struct", "enum", "if", "else", "match", "panic", "as", "let", "mut", "return", "void", "true",
    "false", "for", "in", "break", "continue", "defer", "const", "export", "go", "chan", "null"]

/-- The loop of `package_name_to_module_root`: the character before, and the root so far, last
character first. -/
def moduleRootChars : Option Char → List Char → List Char → Option (List Char)
  | _, root, [] => some root
  | previous, root, c :: rest =>
    if c.isUpper then
      let startsWord := previous.any fun p =>
        p.isLower || p.isDigit || (p.isUpper && rest.head?.any Char.isLower)
      let root := if startsWord && root.head? != some '_' then '_' :: root else root
      moduleRootChars (some c) (c.toLower :: root) rest
    else if c.isLower || c.isDigit then moduleRootChars (some c) (c :: root) rest
    else if c = '-' ∨ c = '_' then
      moduleRootChars (some c)
        (if root ≠ [] ∧ root.head? ≠ some '_' then '_' :: root else root) rest
    else none

/-- `package_name_to_module_root`. -/
def packageNameToModuleRoot (name : String) : Except String String := do
  let message := s!"package name `{name}` cannot derive a Nomo module root"
  let root ← orElse (moduleRootChars none [] name.toList) message
  let root := String.ofList ((root.dropWhile (· = '_')).reverse.dropWhile (· = '_'))
  require (root ≠ "" ∧ (validateDependencyAlias root).isOk = true ∧
    isNomoReservedIdentifier root = false) message
  return root

/-! ## Targets -/

mutual

/-- One dependency, with those below it that are there for a target. -/
def filterDependencyForTarget (target : TargetTriple) : ResolvedDependency → ResolvedDependency
  | ⟨aliasName, package, source, checksum, supplyChain, condition, dependencies⟩ =>
    ⟨aliasName, package, source, checksum, supplyChain, condition,
      filterDependenciesForTarget target dependencies⟩

/-- `filter_dependencies_for_target`. -/
def filterDependenciesForTarget (target : TargetTriple) :
    List ResolvedDependency → List ResolvedDependency
  | [] => []
  | dependency :: rest =>
    if dependency.target.matches target then
      filterDependencyForTarget target dependency :: filterDependenciesForTarget target rest
    else filterDependenciesForTarget target rest

end

/-! ## Uses -/

/-- A source root that went into a build: the dependency it is of, the checksum that the lock records,
and the policy of the resolver's call that found it. -/
structure SourceUse where
  package : String
  source : DependencySource
  checksum : Option String
  root : String
  policy : Option TrustPolicy
deriving DecidableEq

/-- The use of a locked dependency. -/
def ResolvedDependency.use (dependency : ResolvedDependency) (root : String) : SourceUse where
  package := dependency.package
  source := dependency.source
  checksum := dependency.checksum
  root
  policy := none

/-- A project in its workspace. -/
structure ProjectPaths where
  root : String
  workspaceRoot : Option String

/-- `Project::lock_root`. -/
def ProjectPaths.lockRoot (project : ProjectPaths) : String :=
  project.workspaceRoot.getD project.root

section

variable (crates : Crates) (disk : SourceDisk)

/-! ## Module contexts -/

/-- `ExternalModule`. -/
structure ExternalModule where
  importRoot : String
  sourceImportRoot : String
  canonicalPackage : String
  sourceRoot : String
deriving DecidableEq

/-- `ProjectModuleContext`, with `ModulePackageIdentity` in two fields. -/
structure ProjectModuleContext where
  localSourceRoot : String
  localModuleRoot : String
  localCanonicalPackage : String
  externalImportRoots : List String
  externalModules : List ExternalModule
deriving DecidableEq

/-- One round of the loop of `project_module_context_from_resolved_dependencies`. -/
def resolvedExternalModule (base : String) (dependency : ResolvedDependency) :
    Except String (Option (ExternalModule × SourceUse)) := do
  match ← resolvedDependencyModuleRoot crates disk base dependency with
  | none => return none
  | some root =>
    let manifest ← disk.parseManifestAtRoot root
    let sourceImportRoot ← packageNameToModuleRoot manifest.package.name
    return some (
      { importRoot := dependency.aliasName
        sourceImportRoot
        canonicalPackage := dependency.package
        sourceRoot := pushPath root "src" },
      dependency.use root)

/-- The context of a project with these modules. -/
def moduleContext (root : String) (manifest : Manifest) (localModuleRoot : String)
    (aliases : List String) (modules : List ExternalModule) : ProjectModuleContext where
  localSourceRoot := pushPath root "src"
  localModuleRoot
  localCanonicalPackage := manifest.package.id
  externalImportRoots := aliases
  externalModules := modules

/-- `project_module_context_from_resolved_dependencies`. -/
def projectModuleContextFromResolvedDependencies (root : String)
    (dependencies : List ResolvedDependency) (base : String) :
    Except String (ProjectModuleContext × List SourceUse) := do
  let manifest ← disk.parseManifestAtRoot root
  let localModuleRoot ← packageNameToModuleRoot manifest.package.name
  let modules ← collect (resolvedExternalModule crates disk base) dependencies
  let found := modules.filterMap id
  return (moduleContext root manifest localModuleRoot (dependencies.map (·.aliasName))
    (found.map Prod.fst), found.map Prod.snd)

/-! ## FFI link metadata -/

/-- What the collection of FFI link metadata carries along. -/
structure FfiCollection where
  seen : List String
  metadata : FfiLinkMetadata
  uses : List SourceUse

/-- The metadata of a package that is seen for the first time. -/
def FfiCollection.add (collection : FfiCollection) (target : TargetTriple) (package : String)
    (use : SourceUse) : FfiCollection :=
  if package ∈ collection.seen then collection
  else
    { seen := package :: collection.seen
      metadata := collection.metadata.extend (disk.ffiForTarget use.root target)
      uses := collection.uses ++ [use] }

mutual

/-- One round of the loop of `collect_locked_dependency_ffi_metadata`. -/
def collectLockedFfi (base : String) (target : TargetTriple) :
    ResolvedDependency → FfiCollection → Except String FfiCollection
  | ⟨aliasName, package, source, checksum, supplyChain, condition, dependencies⟩, collection => do
    let dependency : ResolvedDependency :=
      ⟨aliasName, package, source, checksum, supplyChain, condition, dependencies⟩
    match ← resolvedDependencyModuleRoot crates disk base dependency with
    | none => return collection
    | some root =>
      let manifest ← disk.parseManifestAtRoot root
      let _ ← (disk.packageAt root).packageSourceFiles
      collectLockedDependencyFfiMetadata base target dependencies
        (collection.add disk target manifest.package.id (dependency.use root))

/-- `collect_locked_dependency_ffi_metadata`. -/
def collectLockedDependencyFfiMetadata (base : String) (target : TargetTriple) :
    List ResolvedDependency → FfiCollection → Except String FfiCollection
  | [], collection => return collection
  | dependency :: rest, collection => do
    let collection ← collectLockedFfi base target dependency collection
    collectLockedDependencyFfiMetadata base target rest collection

end

/-! ## Package graphs -/

/-- `PackageId`: namespace and name. -/
abbrev PackageId := String ×ₗ String

/-- `PackageId::canonical`. -/
def PackageId.canonical (id : PackageId) : String := s!"{(ofLex id).1}/{(ofLex id).2}"

/-- `PackageId::parse`. -/
def PackageId.parse (value : String) : Except String PackageId := do
  validatePackageId value
  match splitOnce '/' value.toList with
  | some (owner, name) => return toLex (String.ofList owner, String.ofList name)
  | none => .error "validated package id must contain one slash"

/-- `PackageSource`. -/
inductive PackageSource
  | root (path : String)
  | dependency (source : DependencySource)
deriving DecidableEq

variable (Symbol : Type) [DecidableEq Symbol]

/-- `PackageNode`. -/
structure PackageNode where
  id : PackageId
  version : Option String
  source : PackageSource
  sourceRoot : Option String
  publicApi : List Symbol
deriving DecidableEq

/-- `PackageGraph`: its packages, the dependencies of each with their aliases, and the edges. -/
structure PackageGraph where
  root : PackageId
  packages : List (PackageNode Symbol)
  dependencyEdges : List (PackageId × String × PackageId)
  dependencies : DirectedGraph PackageId

/-- `PackageGraph::new`. -/
def PackageGraph.new (root : PackageNode Symbol) : PackageGraph Symbol where
  root := root.id
  packages := [root]
  dependencyEdges := []
  dependencies := .addNode .empty root.id

variable {Symbol}

/-- `PackageGraph::add_dependency`, without the search for a cycle. -/
def PackageGraph.addDependency (graph : PackageGraph Symbol) (package : PackageId)
    (aliasName : String) (dependency : PackageId) : PackageGraph Symbol :=
  { graph with
    dependencyEdges := graph.dependencyEdges.insert (package, aliasName, dependency)
    dependencies := graph.dependencies.addEdge package dependency }

/-- `PackageGraph::add_package`. -/
def PackageGraph.addPackage (graph : PackageGraph Symbol) (node : PackageNode Symbol) :
    Except String (PackageGraph Symbol) :=
  match graph.packages.find? (·.id = node.id) with
  | some existing => do
    require (existing = node)
      s!"package `{node.id.canonical}` resolved with conflicting graph metadata"
    return graph
  | none => return { graph with
      packages := node :: graph.packages
      dependencies := graph.dependencies.addNode node.id }

/-- What `add_resolved_dependencies` carries along. -/
structure GraphBuild (Symbol : Type) where
  graph : PackageGraph Symbol
  expanded : List PackageId
  uses : List SourceUse

/-- `dependency_version`. -/
def dependencyVersion : DependencySource → Option String
  | .registry version _ => some version
  | _ => none

variable (collectPublicApi : String → Except String (List Symbol))

/-- The version and the public interface of a dependency. -/
def packageInterface (dependency : ResolvedDependency) :
    Option String → Except String (Option String × List Symbol)
  | some root => do
    let manifest ← disk.parseManifestAtRoot root
    require (manifest.package.id = dependency.package)
      s!"dependency `{dependency.aliasName}` expected package `{dependency.package}`, found `{manifest.package.id}`"
    let publicApi ← collectPublicApi (pushPath root "src")
    return (some manifest.package.version, publicApi)
  | none => return (dependencyVersion dependency.source, [])

/-- The part of a round of `add_resolved_dependencies` before the dependencies below. -/
def addResolvedPackage (base : String) (package dependencyId : PackageId)
    (dependency : ResolvedDependency) (build : GraphBuild Symbol) :
    Except String (GraphBuild Symbol) := do
  let graph := build.graph.addDependency package dependency.aliasName dependencyId
  match graph.dependencies.findCycle with
  | some (.cycle path) =>
    .error ("cyclic package dependency: " ++ " -> ".intercalate (path.map PackageId.canonical))
  | some (.panic message) => .error message
  | some .outOfFuel => .error "the search for a cycle did not end"
  | none =>
    let sourceRoot ← resolvedDependencyModuleRoot crates disk base dependency
    let (version, publicApi) ← packageInterface disk collectPublicApi dependency sourceRoot
    let graph ← graph.addPackage
      { id := dependencyId, version, source := .dependency dependency.source, sourceRoot, publicApi }
    return { build with
      graph
      uses := build.uses ++ sourceRoot.toList.map dependency.use }

mutual

/-- One round of the loop of `add_resolved_dependencies`. -/
def addResolvedDependency (base : String) (package : PackageId) :
    ResolvedDependency → GraphBuild Symbol → Except String (GraphBuild Symbol)
  | ⟨aliasName, name, source, checksum, supplyChain, condition, dependencies⟩, build => do
    let dependency : ResolvedDependency :=
      ⟨aliasName, name, source, checksum, supplyChain, condition, dependencies⟩
    let id ← PackageId.parse name
    let build ← addResolvedPackage crates disk collectPublicApi base package id dependency build
    if id ∈ build.expanded then return build
    else
      addResolvedDependencies base id dependencies { build with expanded := id :: build.expanded }

/-- `add_resolved_dependencies`. -/
def addResolvedDependencies (base : String) (package : PackageId) :
    List ResolvedDependency → GraphBuild Symbol → Except String (GraphBuild Symbol)
  | [], build => return build
  | dependency :: rest, build => do
    let build ← addResolvedDependency base package dependency build
    addResolvedDependencies base package rest build

end

/-! ## Locked builds -/

variable {V R : Type} [DecidableEq V] (semver : Semver V R) (toml : Toml) (depth : ℕ)

/-- The locked graph of a project, checked against its manifest, and the base of its sources. -/
def lockedGraphOf (project : ProjectPaths) : Except String (DependencyGraph × String) := do
  let (graph, base) ← dependencyGraphAndSourceBaseFromLockfile crates disk semver toml depth
    project.root project.lockRoot
  let manifest ← disk.parseManifestAtRoot project.root
  semver.validateProjectLockDirectDependencies manifest graph
  return (graph, base)

/-- `project_module_context_for_target_with_options`, locked. -/
def lockedModuleContext (project : ProjectPaths) (target : TargetTriple) :
    Except String (ProjectModuleContext × List SourceUse) := do
  let (graph, base) ← lockedGraphOf crates disk semver toml depth project
  projectModuleContextFromResolvedDependencies crates disk project.root
    (filterDependenciesForTarget target graph.dependencies) base

/-- The collection with the project's own metadata: `project_ffi_link_metadata_for_target_with_options`,
lines 29–35. -/
def projectFfi (project : ProjectPaths) (target : TargetTriple) :
    Except String (Manifest × FfiCollection) := do
  let manifest ← disk.parseManifestAtRoot project.root
  let _ ← (disk.packageAt project.root).packageSourceFiles
  return (manifest,
    { seen := [manifest.package.id]
      metadata := disk.ffiForTarget project.root target
      uses := [] })

/-- `project_ffi_link_metadata_for_target_with_options`, locked. -/
def lockedFfiLinkMetadata (project : ProjectPaths) (target : TargetTriple) :
    Except String (FfiLinkMetadata × List SourceUse) := do
  let (_, collection) ← projectFfi disk project target
  let (graph, base) ← lockedGraphOf crates disk semver toml depth project
  let collection ← collectLockedDependencyFfiMetadata crates disk base target
    (filterDependenciesForTarget target graph.dependencies) collection
  return (collection.metadata, collection.uses)

/-- `project_package_graph_for_target_with_options`, locked. -/
def lockedPackageGraph (project : ProjectPaths) (target : TargetTriple) :
    Except String (PackageGraph Symbol × List SourceUse) := do
  let (graph, base) ← lockedGraphOf crates disk semver toml depth project
  let root ← disk.canonicalize project.root
  let publicApi ← collectPublicApi (pushPath root "src")
  let id : PackageId := toLex (graph.root.packageNamespace, graph.root.name)
  let node : PackageNode Symbol :=
    { id, version := some graph.root.version, source := .root root, sourceRoot := some root,
      publicApi }
  let build ← addResolvedDependencies crates disk collectPublicApi base id
    (filterDependenciesForTarget target graph.dependencies) ⟨.new Symbol node, [id], []⟩
  return (build.graph, build.uses)

end

end Nomo.Deps
