import Nomo.Deps.LockedBuild

/-!
# Loading the modules of a project

`nomo_compiler/src/core/driver.rs:226–277` and `imports/modules.rs:3–192`. From its entry file a
project is loaded along the imports of the files: an import is resolved to a source root and a module
path, the file found there is read, and its own imports follow, unless a module of its name was loaded
before.

What is in a file beyond its package and its imports is left out. What reading, lexing and parsing a
file gives is part of the disk, and so are the texts of open editors.
-/

namespace Nomo.Modules

open Nomo.Deps Nomo.Resolver Nomo.Lib

/-! ## Modules and their graph -/

/-- `ModuleId`. -/
structure ModuleId where
  canonicalPackage : Option String
  segments : List String
deriving DecidableEq

/-- Module names are ordered by their package and then by their segments. -/
instance : LinearOrder ModuleId :=
  LinearOrder.lift' (fun id : ModuleId =>
      (toLex ((id.canonicalPackage : WithBot String), id.segments) : WithBot String ×ₗ List String))
    fun a b h => by
      cases a
      cases b
      cases h
      rfl

/-- `ModuleNode`. -/
structure ModuleNode where
  id : ModuleId
  sourcePath : String
  imports : List (List String)

/-- `ModuleGraph`. The nodes are in the order in which they were added. -/
structure ModuleGraph where
  modules : List ModuleNode
  dependencies : DirectedGraph ModuleId

namespace ModuleGraph

/-- `ModuleGraph::new`. -/
def new (root : ModuleNode) : ModuleGraph where
  modules := [root]
  dependencies := DirectedGraph.empty.addNode root.id

/-- `ModuleGraph::contains`. -/
def contains (graph : ModuleGraph) (id : ModuleId) : Bool := graph.modules.any (·.id = id)

/-- `ModuleGraph::add_module`. -/
def addModule (graph : ModuleGraph) (node : ModuleNode) : ModuleGraph :=
  if graph.contains node.id then graph
  else
    { modules := graph.modules ++ [node]
      dependencies := graph.dependencies.addNode node.id }

/-- `ModuleGraph::add_dependency`: the graph with the edge. -/
def addDependency (graph : ModuleGraph) (importer imported : ModuleId) : ModuleGraph :=
  { graph with dependencies := graph.dependencies.addEdge importer imported }

/-- `ModuleGraph::add_dependency`: whether there is a cycle then. -/
def hasCycle (graph : ModuleGraph) : Bool := graph.dependencies.findCycle.isSome

end ModuleGraph

/-! ## Files -/

/-- A diagnostic: its code, its message and the file it is reported in. -/
structure Diagnostic where
  code : String
  message : String
  path : String
deriving DecidableEq

/-- Loading stops with a diagnostic, or when it was given too few nested imports. -/
inductive LoadError
  | diagnostic (diagnostic : Diagnostic)
  | outOfFuel

/-- The package and the imports of a source file. -/
structure SourceFile where
  package : List String
  imports : List (List String)

/-- The files there are, and what reading and parsing one gives. -/
structure ModuleDisk where
  isFile : String → Bool
  sourceFile : String → Except Diagnostic SourceFile

/-- A path under a root. -/
def pushAll (root : String) (segments : List String) : String := segments.foldl pushPath root

/-- `module_source_path`. -/
def moduleSourcePath (disk : ModuleDisk) (sourceRoot : String) (modulePath : List String) :
    Option String :=
  if modulePath = [] ∨ modulePath = ["main"] then
    let main := pushPath sourceRoot "main.nomo"
    if disk.isFile main then some main else none
  else
    let flat := pushAll sourceRoot (modulePath.dropLast ++ [modulePath.getLast?.getD "" ++ ".nomo"])
    if disk.isFile flat then some flat
    else
      let directoryMain := pushAll sourceRoot (modulePath ++ ["main.nomo"])
      if disk.isFile directoryMain then some directoryMain else none

/-! ## Packages of files -/

/-- `is_legacy_module_package`. -/
def isLegacyModulePackage (actual expected : List String) (moduleRoot : String) : Bool :=
  if expected.length = 1 then
    decide (actual = ["app", "main"] ∨ actual = [moduleRoot, "main"])
  else decide (actual = "app" :: expected.tail)

/-- `validate_package_declaration`. -/
def validatePackageDeclaration (path : String) (actual expected : List String) (moduleRoot : String) :
    Except LoadError Unit :=
  if actual = expected ∨ isLegacyModulePackage actual expected moduleRoot = true then .ok ()
  else
    let actualText := ".".intercalate actual
    let expectedText := ".".intercalate expected
    .error (.diagnostic
      { code := "E0904"
        message := s!"module package mismatch: {path} must declare `package {expectedText}`, found `package {actualText}`"
        path })

/-- `expected_module_package`, of a file in directories below the source root. -/
def expectedModulePackage (moduleRoot : String) (directories : List String) (stem : String) :
    List String :=
  moduleRoot :: (if stem = "main" then directories else directories ++ [stem])

/-! ## Imports -/

/-- `ResolvedImportedModule`. -/
structure ResolvedImportedModule where
  sourceRoot : String
  modulePath : List String
  expectedPackage : List String
  canonicalPackage : String
deriving DecidableEq

/-- A dependency has the alias. -/
def hasAlias (context : ProjectModuleContext) (name : String) : Bool :=
  context.externalModules.any (·.importRoot = name)

/-- The import root is that of the project, or the legacy `app`, which no dependency has as its
alias. -/
def isLocalImport (context : ProjectModuleContext) (importRoot : String) : Bool :=
  decide (importRoot = context.localModuleRoot) || (decide (importRoot = "app") && !hasAlias context "app")

/-- The dependency that an import root names: by its alias, or by its module root from one of its own
modules. -/
def externalModule (context : ProjectModuleContext) (currentCanonicalPackage : String)
    (importRoot : String) : Option ExternalModule :=
  (context.externalModules.find? (·.importRoot = importRoot)).or
    (context.externalModules.find? fun module =>
      module.sourceImportRoot = importRoot && module.canonicalPackage = currentCanonicalPackage)

/-- `resolve_imported_module`, in a project with a manifest. -/
def resolveImportedModule (context : ProjectModuleContext) (currentCanonicalPackage : String) :
    List String → Option ResolvedImportedModule
  | [] => none
  | importRoot :: modulePath =>
    if isLocalImport context importRoot then some
      { sourceRoot := context.localSourceRoot
        modulePath
        expectedPackage := context.localModuleRoot :: modulePath
        canonicalPackage := context.localCanonicalPackage }
    else
      (externalModule context currentCanonicalPackage importRoot).map fun module =>
        { sourceRoot := module.sourceRoot
          modulePath
          expectedPackage := module.sourceImportRoot :: modulePath
          canonicalPackage := module.canonicalPackage }

/-- The file whose imports are loaded. -/
structure Importer where
  path : String
  package : List String
  imports : List (List String)
  canonicalPackage : String

/-- `module_id`. -/
def moduleId (canonicalPackage : String) (package : List String) : ModuleId :=
  { canonicalPackage := some canonicalPackage, segments := package }

/-- One round of the loop of `merge_imported_public_api`. The imports of the loaded file are loaded by
`next`. -/
def loadImport (context : ProjectModuleContext) (disk : ModuleDisk)
    (next : Importer → ModuleGraph → Except LoadError ModuleGraph) (importer : Importer)
    (graph : ModuleGraph) (name : List String) : Except LoadError ModuleGraph :=
  if name.head? = some "std" then .ok graph
  else
    match resolveImportedModule context importer.canonicalPackage name with
    | none => .ok graph
    | some resolved =>
      match moduleSourcePath disk resolved.sourceRoot resolved.modulePath with
      | none =>
        let dotted := ".".intercalate name
        .error (.diagnostic
          { code := "E0903"
            message := s!"could not find module `{dotted}`"
            path := importer.path })
      | some path =>
        match disk.sourceFile path with
        | .error diagnostic => .error (.diagnostic diagnostic)
        | .ok file => do
          validatePackageDeclaration path file.package resolved.expectedPackage
            (resolved.expectedPackage.head?.getD "")
          let importerId := moduleId importer.canonicalPackage importer.package
          let importedId := moduleId resolved.canonicalPackage file.package
          let alreadyLoaded := graph.contains importedId
          let graph := graph.addModule { id := importedId, sourcePath := path, imports := file.imports }
          let graph := graph.addDependency importerId importedId
          if graph.hasCycle then
            .error (.diagnostic
              { code := "E0607"
                message := "cyclic module import"
                path := importer.path })
          else if alreadyLoaded then .ok graph
          else next { path, package := file.package, imports := file.imports
                      canonicalPackage := resolved.canonicalPackage } graph

/-- `merge_imported_public_api`, for a number of nested imports. -/
def loadImports (context : ProjectModuleContext) (disk : ModuleDisk) :
    ℕ → Importer → ModuleGraph → Except LoadError ModuleGraph
  | 0, _, _ => .error .outOfFuel
  | fuel + 1, importer, graph =>
    importer.imports.foldlM (loadImport context disk (loadImports context disk fuel) importer) graph

/-- `load_project_modules`, from an entry file in directories below the source root of the project. -/
def loadProjectModules (context : ProjectModuleContext) (disk : ModuleDisk) (fuel : ℕ)
    (directories : List String) (stem : String) (file : SourceFile) : Except LoadError ModuleGraph := do
  let path := pushAll context.localSourceRoot (directories ++ [stem ++ ".nomo"])
  validatePackageDeclaration path file.package
    (expectedModulePackage context.localModuleRoot directories stem) context.localModuleRoot
  let root : ModuleNode :=
    { id := moduleId context.localCanonicalPackage file.package
      sourcePath := path
      imports := file.imports }
  loadImports context disk fuel
    { path, package := file.package, imports := file.imports
      canonicalPackage := context.localCanonicalPackage } (ModuleGraph.new root)

end Nomo.Modules
