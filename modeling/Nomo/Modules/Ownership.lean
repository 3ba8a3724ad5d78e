import Nomo.Modules.Loading

/-!
# Who owns a loaded module

Every node of the module graph carries the package under whose source root its file was found
(`loadProjectModules_owned`). Whether an import that a package makes through its own module root, or
through `app`, stays in that package depends on the names of the project and of its dependencies
(`Keeps`): the resolver looks at the names of the project first, then at the aliases, and only then at
the package of the importing module.
-/

namespace Nomo.Modules

open Nomo.Deps Nomo.Resolver Nomo.Lib

/-! ## Packages -/

/-- A package of a project: the project itself, or a dependency. -/
structure Package where
  moduleRoot : String
  canonicalPackage : String
  sourceRoot : String

/-- The project as a package. -/
def localPackage (context : ProjectModuleContext) : Package where
  moduleRoot := context.localModuleRoot
  canonicalPackage := context.localCanonicalPackage
  sourceRoot := context.localSourceRoot

/-- A dependency as a package. -/
def dependencyPackage (module : ExternalModule) : Package where
  moduleRoot := module.sourceImportRoot
  canonicalPackage := module.canonicalPackage
  sourceRoot := module.sourceRoot

/-- The packages of a project. -/
def packages (context : ProjectModuleContext) : List Package :=
  localPackage context :: context.externalModules.map dependencyPackage

/-- A file under a source root. -/
def Under (sourceRoot path : String) : Prop :=
  ∃ segments, segments ≠ [] ∧ path = pushAll sourceRoot segments

/-- A node of the graph is a file of the package and carries its name. -/
structure Owns (package : Package) (node : ModuleNode) : Prop where
  canonicalPackage : node.id.canonicalPackage = some package.canonicalPackage
  sourcePath : Under package.sourceRoot node.sourcePath

/-- Every node has an owner. -/
def Owned (context : ProjectModuleContext) (graph : ModuleGraph) : Prop :=
  ∀ node ∈ graph.modules, ∃ package ∈ packages context, Owns package node

/-! ## Every node has an owner -/

variable {context : ProjectModuleContext} {disk : ModuleDisk}

theorem under_of_moduleSourcePath {sourceRoot path : String} {modulePath : List String}
    (h : moduleSourcePath disk sourceRoot modulePath = some path) : Under sourceRoot path := by
  unfold moduleSourcePath at h
  dsimp only at h
  split_ifs at h with hmain hfile hflat hdirectory
  · cases h
    exact ⟨["main.nomo"], by simp, rfl⟩
  all_goals
    cases h
    exact ⟨_, by simp, rfl⟩

theorem externalModule_mem {current importRoot : String} {module : ExternalModule}
    (h : externalModule context current importRoot = some module) :
    module ∈ context.externalModules := by
  unfold externalModule at h
  rw [Option.or_eq_some_iff] at h
  rcases h with h | ⟨-, h⟩
  all_goals exact List.mem_of_find?_eq_some h

theorem resolveImportedModule_cons (current importRoot : String) (modulePath : List String) :
    resolveImportedModule context current (importRoot :: modulePath) =
      if isLocalImport context importRoot = true then some
        { sourceRoot := context.localSourceRoot
          modulePath
          expectedPackage := context.localModuleRoot :: modulePath
          canonicalPackage := context.localCanonicalPackage }
      else
        (externalModule context current importRoot).map fun module =>
          { sourceRoot := module.sourceRoot
            modulePath
            expectedPackage := module.sourceImportRoot :: modulePath
            canonicalPackage := module.canonicalPackage } := rfl

theorem package_of_resolved {current : String} {name : List String} {resolved : ResolvedImportedModule}
    (h : resolveImportedModule context current name = some resolved) :
    ∃ package ∈ packages context, resolved.canonicalPackage = package.canonicalPackage ∧
      resolved.sourceRoot = package.sourceRoot := by
  cases name with
  | nil => cases h
  | cons importRoot modulePath =>
    rw [resolveImportedModule_cons] at h
    split_ifs at h
    · cases h
      exact ⟨localPackage context, List.mem_cons_self .., rfl, rfl⟩
    · obtain ⟨module, hmodule, rfl⟩ := Option.map_eq_some_iff.mp h
      exact ⟨dependencyPackage module,
        List.mem_cons_of_mem _ (List.mem_map_of_mem (externalModule_mem hmodule)), rfl, rfl⟩

theorem Owned.addModule {graph : ModuleGraph} (h : Owned context graph) {node : ModuleNode}
    (hnode : ∃ package ∈ packages context, Owns package node) :
    Owned context (graph.addModule node) := by
  unfold ModuleGraph.addModule
  split_ifs
  · exact h
  rintro other hother
  rcases List.mem_append.mp hother with hother | hother
  · exact h other hother
  · obtain rfl := List.mem_singleton.mp hother
    exact hnode

/-! ## What loading preserves -/

/-- The node of a file that an import was resolved to. -/
def foundNode (resolved : ResolvedImportedModule) (path : String) (file : SourceFile) : ModuleNode where
  id := moduleId resolved.canonicalPackage file.package
  sourcePath := path
  imports := file.imports

/-- The importer that a file becomes. -/
def nextImporter (resolved : ResolvedImportedModule) (path : String) (file : SourceFile) :
    Importer where
  path := path
  package := file.package
  imports := file.imports
  canonicalPackage := resolved.canonicalPackage

/-- What holds of a graph holds after a file was added that an import leads to; the importers satisfy
`Q`. -/
structure Preserved (context : ProjectModuleContext) (disk : ModuleDisk) (Q : Importer → Prop)
    (I : ModuleGraph → Prop) : Prop where
  add : ∀ {importer : Importer} {name : List String} {resolved : ResolvedImportedModule} {path : String}
    {file : SourceFile} {graph : ModuleGraph}, Q importer → name ∈ importer.imports →
    resolveImportedModule context importer.canonicalPackage name = some resolved →
    moduleSourcePath disk resolved.sourceRoot resolved.modulePath = some path →
    disk.sourceFile path = .ok file → I graph →
    I ((graph.addModule (foundNode resolved path file)).addDependency
      (moduleId importer.canonicalPackage importer.package)
      (moduleId resolved.canonicalPackage file.package))
  next : ∀ {resolved : ResolvedImportedModule} {path : String} {file : SourceFile},
    disk.sourceFile path = .ok file → Q (nextImporter resolved path file)

section

variable {Q : Importer → Prop} {I : ModuleGraph → Prop}

/-- **One import.** -/
theorem Preserved.loadImport (h : Preserved context disk Q I)
    {next : Importer → ModuleGraph → Except LoadError ModuleGraph}
    (hnext : ∀ importer graph graph', Q importer → I graph → next importer graph = .ok graph' →
      I graph')
    {importer : Importer} {graph graph' : ModuleGraph} {name : List String} (himporter : Q importer)
    (hname : name ∈ importer.imports) (hgraph : I graph)
    (hload : loadImport context disk next importer graph name = .ok graph') : I graph' := by
  unfold Modules.loadImport at hload
  split_ifs at hload
  · cases hload
    exact hgraph
  split at hload
  case h_1 =>
    cases hload
    exact hgraph
  case h_2 resolved hresolved =>
    split at hload
    case h_1 => cases hload
    case h_2 path hpath =>
      split at hload
      case h_1 => cases hload
      case h_2 file hfile =>
        have hadded := h.add himporter hname hresolved hpath hfile hgraph
        cases hvalid : validatePackageDeclaration path file.package resolved.expectedPackage
          (resolved.expectedPackage.head?.getD "") with
        | error error =>
          rw [hvalid] at hload
          cases hload
        | ok =>
          rw [hvalid] at hload
          simp only [bind, Except.bind] at hload
          split_ifs at hload
          · cases hload
            exact hadded
          · exact hnext _ _ _ (h.next hfile) hadded hload

/-- **All imports.** -/
theorem Preserved.loadImports (h : Preserved context disk Q I) {fuel : ℕ} {importer : Importer}
    {graph graph' : ModuleGraph} (himporter : Q importer) (hgraph : I graph)
    (hload : loadImports context disk fuel importer graph = .ok graph') : I graph' := by
  induction fuel generalizing importer graph graph' with
  | zero => cases hload
  | succ fuel ih =>
    rw [Modules.loadImports] at hload
    obtain ⟨names, heq⟩ : ∃ names, importer.imports = names := ⟨_, rfl⟩
    have hnames : names ⊆ importer.imports := heq ▸ List.Subset.refl _
    rw [heq] at hload
    clear heq
    induction names generalizing graph with
    | nil =>
      cases hload
      exact hgraph
    | cons name names ihnames =>
      rw [List.foldlM_cons] at hload
      rw [List.cons_subset] at hnames
      cases hfirst : Modules.loadImport context disk (Modules.loadImports context disk fuel) importer graph
        name with
      | error error =>
        rw [hfirst] at hload
        cases hload
      | ok middle =>
        rw [hfirst] at hload
        have hmiddle : I middle :=
          h.loadImport (fun _ _ _ hQ hI => ih hQ hI) himporter hnames.1 hgraph hfirst
        exact ihnames hmiddle hload hnames.2

/-- **A whole project**, from its entry file on. -/
theorem Preserved.loadProjectModules (h : Preserved context disk Q I) {fuel : ℕ}
    {directories : List String} {stem : String} {file : SourceFile} {graph : ModuleGraph}
    (hroot : Q
      { path := pushAll context.localSourceRoot (directories ++ [stem ++ ".nomo"])
        package := file.package
        imports := file.imports
        canonicalPackage := context.localCanonicalPackage })
    (hgraph : I (ModuleGraph.new
      { id := moduleId context.localCanonicalPackage file.package
        sourcePath := pushAll context.localSourceRoot (directories ++ [stem ++ ".nomo"])
        imports := file.imports }))
    (hload : loadProjectModules context disk fuel directories stem file = .ok graph) : I graph := by
  unfold Modules.loadProjectModules at hload
  dsimp only at hload
  cases hvalid : validatePackageDeclaration (pushAll context.localSourceRoot
    (directories ++ [stem ++ ".nomo"])) file.package
    (expectedModulePackage context.localModuleRoot directories stem) context.localModuleRoot with
  | error error =>
    rw [hvalid] at hload
    cases hload
  | ok =>
    rw [hvalid] at hload
    exact h.loadImports hroot hgraph hload

end

theorem owned_preserved : Preserved context disk (fun _ => True) (Owned context) where
  add := by
    intro importer name resolved path file graph _ _ hresolved hpath _ hgraph
    obtain ⟨package, hpackage, hcanonical, hroot⟩ := package_of_resolved hresolved
    have hunder := under_of_moduleSourcePath hpath
    rw [hroot] at hunder
    exact hgraph.addModule ⟨package, hpackage, congrArg some hcanonical, hunder⟩
  next := fun _ => trivial

theorem loadProjectModules_owned {fuel : ℕ} {directories : List String} {stem : String}
    {file : SourceFile} {graph : ModuleGraph}
    (hload : loadProjectModules context disk fuel directories stem file = .ok graph) :
    Owned context graph := by
  refine owned_preserved.loadProjectModules trivial ?_ hload
  rintro node hnode
  obtain rfl := List.mem_singleton.mp hnode
  exact ⟨localPackage context, List.mem_cons_self .., rfl, _, by simp, rfl⟩

/-! ## Imports of a package's own modules -/

/-- An import through the module root of the package, or through `app`. -/
def IsOwn (package : Package) (name : List String) : Prop :=
  name.head? = some package.moduleRoot ∨ name.head? = some "app"

/-- An import in a module of the package is looked up under its source root. -/
def StaysInside (context : ProjectModuleContext) (package : Package) (name : List String) : Prop :=
  ∃ resolved, resolveImportedModule context package.canonicalPackage name = some resolved ∧
    resolved.sourceRoot = package.sourceRoot

/-- In a loaded project, the own imports of every module stay inside its package. -/
def ImportsStayInside (context : ProjectModuleContext) (graph : ModuleGraph) : Prop :=
  ∀ node ∈ graph.modules, ∀ package ∈ packages context, Owns package node →
    ∀ name ∈ node.imports, IsOwn package name → StaysInside context package name

/-- No other package takes an import root from a package: if the project has the root, it is the
package; a dependency with the root as its alias is the package; and otherwise the package is the first
dependency of its name and module root. -/
structure Keeps (context : ProjectModuleContext) (package : Package) (importRoot : String) : Prop where
  project : isLocalImport context importRoot = true → package.sourceRoot = context.localSourceRoot
  aliased : isLocalImport context importRoot = false → ∀ module,
    context.externalModules.find? (·.importRoot = importRoot) = some module →
      module.sourceRoot = package.sourceRoot
  first : isLocalImport context importRoot = false → hasAlias context importRoot = false →
    ∃ module, context.externalModules.find? (fun module => module.sourceImportRoot = importRoot &&
        module.canonicalPackage = package.canonicalPackage) = some module ∧
      module.sourceRoot = package.sourceRoot

/-! ## When they stay inside -/

theorem find?_alias_eq_none {importRoot : String} :
    context.externalModules.find? (·.importRoot = importRoot) = none ↔
      hasAlias context importRoot = false := by
  simp [hasAlias]

theorem staysInside_iff {package : Package} {importRoot : String} {modulePath : List String} :
    StaysInside context package (importRoot :: modulePath) ↔ Keeps context package importRoot := by
  unfold StaysInside
  rw [resolveImportedModule_cons]
  cases hlocal : isLocalImport context importRoot with
  | true =>
    rw [if_pos rfl]
    constructor
    · rintro ⟨resolved, hresolved, hroot⟩
      cases hresolved
      exact ⟨fun _ => hroot.symm, fun h => (by rw [hlocal] at h; cases h),
        fun h => (by rw [hlocal] at h; cases h)⟩
    · exact fun h => ⟨_, rfl, (h.project hlocal).symm⟩
  | false =>
    rw [if_neg (by decide)]
    unfold externalModule
    cases haliased : context.externalModules.find? (·.importRoot = importRoot) with
    | some module =>
      have halias : hasAlias context importRoot = true := by
        rw [← Bool.not_eq_false, ← find?_alias_eq_none, haliased]
        simp
      constructor
      · rintro ⟨resolved, hresolved, hroot⟩
        cases hresolved
        refine ⟨fun h => (by rw [hlocal] at h; cases h), ?_, fun _ h => (by rw [halias] at h; cases h)⟩
        rintro - other hother
        cases haliased.symm.trans hother
        exact hroot
      · exact fun h => ⟨_, rfl, h.aliased hlocal module haliased⟩
    | none =>
      have halias := find?_alias_eq_none.mp haliased
      rw [Option.none_or]
      constructor
      · rintro ⟨resolved, hresolved, hroot⟩
        obtain ⟨module, hmodule, rfl⟩ := Option.map_eq_some_iff.mp hresolved
        refine ⟨fun h => (by rw [hlocal] at h; cases h), ?_, fun _ _ => ⟨module, hmodule, hroot⟩⟩
        rintro - other hother
        cases haliased.symm.trans hother
      · intro h
        obtain ⟨module, hmodule, hroot⟩ := h.first hlocal halias
        exact ⟨_, Option.map_eq_some_iff.mpr ⟨module, hmodule, rfl⟩, hroot⟩

/-- The project `acme/util` with the dependency `helper`, which is `other/util`. -/
def coincidentContext : ProjectModuleContext where
  localSourceRoot := "/acme/src"
  localModuleRoot := "util"
  localCanonicalPackage := "acme/util"
  externalImportRoots := ["helper"]
  externalModules :=
    [{ importRoot := "helper"
       sourceImportRoot := "util"
       canonicalPackage := "other/util"
       sourceRoot := "/other/src" }]

/-- Both packages have a module `util.strings`; `util.text` of the dependency imports it. -/
def coincidentDisk : ModuleDisk where
  isFile := fun path =>
    path ∈ ["/acme/src/main.nomo", "/acme/src/strings.nomo", "/other/src/text.nomo",
      "/other/src/strings.nomo"]
  sourceFile := fun path =>
    if path = "/other/src/text.nomo" then
      .ok { package := ["util", "text"], imports := [["util", "strings"]] }
    else .ok { package := ["util", "strings"], imports := [] }

/-- The entry file imports `helper.text`. -/
def coincidentLoad : Except LoadError ModuleGraph :=
  loadProjectModules coincidentContext coincidentDisk 3 [] "main"
    { package := ["util"], imports := [["helper", "text"]] }

/-- The loaded graph. -/
def coincidentGraph : ModuleGraph :=
  coincidentLoad.toOption.getD { modules := [], dependencies := .empty }

theorem coincidentLoad_modules :
    coincidentLoad.isOk = true ∧
    coincidentGraph.modules.map (fun node => (node.id, node.sourcePath, node.imports)) =
      [({ canonicalPackage := some "acme/util", segments := ["util"] }, "/acme/src/main.nomo",
          [["helper", "text"]]),
        ({ canonicalPackage := some "other/util", segments := ["util", "text"] },
          "/other/src/text.nomo", [["util", "strings"]]),
        ({ canonicalPackage := some "acme/util", segments := ["util", "strings"] },
          "/acme/src/strings.nomo", [])] := by
  decide +kernel

theorem coincidentLoad_eq : coincidentLoad = .ok coincidentGraph := by
  have hloaded := coincidentLoad_modules.1
  unfold coincidentGraph
  cases hload : coincidentLoad with
  | error error =>
    rw [hload] at hloaded
    cases hloaded
  | ok graph => rfl

end Nomo.Modules
