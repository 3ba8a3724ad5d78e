import Nomo.CheckCache.Key
import Nomo.Modules.Ownership

/-!
# What a check reads

`check_source_text_with_module_identity_and_overrides` (`nomo_compiler/src/core/driver.rs:98–127`)
without source overrides: the main file is parsed, the modules it imports are loaded, and everything is
lowered.  On two trees that have the same source files below the source roots of a project, a check
with the same module context does the same (`checkSourceText_congr`).

Parsing and lowering are parameters.  What is merged from the loaded files is a function of these
files in the order in which they were loaded, and is part of lowering.
-/

namespace Nomo.CheckCache

open Nomo.Lib Nomo.Resolver Nomo.SupplyChain Nomo.Deps Nomo.Modules

/-- Lexing, parsing and lowering. -/
structure Frontend (Ast : Type) where
  /-- The bytes are UTF-8. -/
  isText : List UInt8 → Bool
  /-- The lexer and the parser. -/
  parse : String → List UInt8 → Except Diagnostic Ast
  package : Ast → List String
  imports : Ast → List (List String)
  hasScriptBody : Ast → Bool
  /-- `lower_program` of what is merged from the main file and the loaded modules, with the aliases of
  the dependencies and the module root of the project. -/
  lowerProgram : String → Ast → List (ModuleNode × Except Diagnostic Ast) → List String → String →
    Except Diagnostic Unit
  /-- The parts of imports are identifiers. -/
  imports_valid : ∀ {path contents ast}, parse path contents = .ok ast → ∀ name ∈ imports ast,
    ∀ part ∈ name, ValidName part

/-- The main file of a project: a source file below its source root, or any other path. -/
inductive MainFile where
  | inside (directories : List String) (stem : String)
      (named : ∀ part ∈ directories ++ [stem], ValidName part)
  | outside (path : String)

/-- The path of the main file. -/
def MainFile.path (sourceRoot : String) : MainFile → String
  | .inside directories stem _ => pushAll sourceRoot (directories ++ [stem ++ ".nomo"])
  | .outside path => path

section

variable {Ast : Type} (frontend : Frontend Ast) (tree : Node)

/-- `fs::read_to_string`. -/
def readToString (path : String) : Except String (List UInt8) :=
  match read tree path with
  | .error message => .error message
  | .ok contents =>
    if frontend.isText contents then .ok contents else .error "stream did not contain valid UTF-8"

/-- A module file is read and parsed (`imports/modules.rs:54–76`). -/
def parseModule (path : String) : Except Diagnostic Ast :=
  match readToString frontend tree path with
  | .error message => .error
      { code := "E0902"
        message := "failed to read module `" ++ path ++ "`: " ++ message
        path }
  | .ok contents =>
    match frontend.parse path contents with
    | .error diagnostic => .error diagnostic
    | .ok ast =>
      if frontend.hasScriptBody ast then .error
        { code := "E0201"
          message := "imported modules cannot contain top-level script statements"
          path }
      else .ok ast

/-- What the module loader sees of a tree. -/
def moduleDisk : ModuleDisk where
  isFile := isFile tree
  sourceFile path := (parseModule frontend tree path).map fun ast =>
    { package := frontend.package ast
      imports := frontend.imports ast }

/-- A diagnostic stops a check. -/
def orStop {α : Type} : Except Diagnostic α → Except LoadError α
  | .ok a => .ok a
  | .error diagnostic => .error (.diagnostic diagnostic)

/-- `check_source_text_with_module_identity_and_overrides`, for a number of nested imports. -/
def checkSourceText (context : ProjectModuleContext) (main : MainFile) (fuel : ℕ)
    (source : List UInt8) : Except LoadError Unit := do
  let path := main.path context.localSourceRoot
  let ast ← orStop (frontend.parse path source)
  match main with
  | .outside path => .error (.diagnostic
      { code := "E0904"
        message := "source file " ++ path ++ " is outside module root " ++ context.localSourceRoot
        path })
  | .inside directories stem _ => do
    let graph ← loadProjectModules context (moduleDisk frontend tree) fuel directories stem
      { package := frontend.package ast
        imports := frontend.imports ast }
    let loaded := graph.modules.tail.map fun node =>
      (node, parseModule frontend tree node.sourcePath)
    orStop (frontend.lowerProgram path ast loaded context.externalImportRoots context.localModuleRoot)

end

/-! ## The loader on two trees -/

variable {Ast : Type} {frontend : Frontend Ast} {tree tree' : Node}

theorem isOk_readToString_eq_false {path : String} (h : isFile tree path = false) :
    (readToString frontend tree path).isOk = false := by
  unfold isFile at h
  unfold readToString read
  split at h
  next => exact nomatch h
  next hlookup =>
    cases hnode : lookup tree path with
    | none => rfl
    | some node =>
      cases node with
      | dir _ _ => rfl
      | file contents => exact absurd hnode (hlookup contents)

theorem validName_append_nomo {part : String} (h : ValidName part) : ValidName (part ++ ".nomo") := by
  constructor
  · intro hempty
    have hlength := congrArg (fun text => text.toList.length) hempty
    simp at hlength
  · rw [String.toList_append, List.mem_append]
    rintro (hslash | hslash)
    · exact h.2 hslash
    · exact absurd hslash (by decide)

theorem hasNomoExtension_append {part : String} (h : ValidName part) :
    hasNomoExtension (part ++ ".nomo") = true := by
  unfold hasNomoExtension
  rw [Bool.and_eq_true]
  constructor
  · rw [List.isSuffixOf_iff_suffix, String.toList_append]
    exact List.suffix_append _ _
  rw [bne_iff_ne]
  intro heq
  have hlength := congrArg (fun text => text.toList.length) heq
  simp only [String.toList_append, List.length_append] at hlength
  refine h.1 (String.toList_inj.1 (List.length_eq_zero_iff.1 ?_))
  omega

/-- Names of a source file below a source root. -/
def SourceNames (names : List String) (last : String) : Prop :=
  (∀ name ∈ names ++ [last], ValidName name) ∧ hasNomoExtension last = true

theorem sourceNames_main : ∀ {modulePath : List String}, (∀ part ∈ modulePath, ValidName part) →
    SourceNames modulePath "main.nomo" := by
  intro modulePath h
  refine ⟨fun name hname => ?_, by decide⟩
  rcases List.mem_append.1 hname with hname | hname
  · exact h name hname
  · obtain rfl := List.mem_singleton.1 hname
    decide

theorem sourceNames_flat {directories : List String} {stem : String}
    (h : ∀ part ∈ directories ++ [stem], ValidName part) :
    SourceNames directories (stem ++ ".nomo") := by
  have hstem := h stem (List.mem_append_right _ (List.mem_singleton_self _))
  refine ⟨fun name hname => ?_, hasNomoExtension_append hstem⟩
  rcases List.mem_append.1 hname with hname | hname
  · exact h name (List.mem_append_left _ hname)
  · obtain rfl := List.mem_singleton.1 hname
    exact validName_append_nomo hstem

theorem dropLast_append_getLast?_getD {modulePath : List String} (h : modulePath ≠ []) :
    modulePath.dropLast ++ [modulePath.getLast?.getD ""] = modulePath := by
  rw [List.getLast?_eq_some_getLast h, Option.getD_some, List.dropLast_append_getLast h]

theorem pushAll_singleton (path name : String) : pushAll path [name] = pushPath path name := rfl

theorem moduleSourcePath_cases {disk : ModuleDisk} {sourceRoot path : String} {modulePath : List String}
    (hmodule : ∀ part ∈ modulePath, ValidName part)
    (h : moduleSourcePath disk sourceRoot modulePath = some path) :
    ∃ names last, SourceNames names last ∧ path = pushAll sourceRoot (names ++ [last]) ∧
      disk.isFile path = true := by
  unfold moduleSourcePath at h
  dsimp only at h
  split_ifs at h with hempty hmain hflat hdirectory
  · cases h
    exact ⟨[], "main.nomo", sourceNames_main (List.forall_mem_nil _), rfl, hmain⟩
  · cases h
    refine ⟨_, _, sourceNames_flat ?_, rfl, hflat⟩
    rwa [dropLast_append_getLast?_getD fun hnil => hempty (Or.inl hnil)]
  · cases h
    exact ⟨modulePath, "main.nomo", sourceNames_main hmodule, rfl, hdirectory⟩

theorem moduleSourcePath_congr {sourceRoot : String} {modulePath : List String}
    (hsame : Same tree tree' sourceRoot) (hmodule : ∀ part ∈ modulePath, ValidName part) :
    moduleSourcePath (moduleDisk frontend tree) sourceRoot modulePath
      = moduleSourcePath (moduleDisk frontend tree') sourceRoot modulePath := by
  have hfile : ∀ {names last}, SourceNames names last →
      (moduleDisk frontend tree).isFile (pushAll sourceRoot (names ++ [last]))
        = (moduleDisk frontend tree').isFile (pushAll sourceRoot (names ++ [last])) :=
    fun h => (hsame _ _ h.1 h.2).1
  have hnone : SourceNames [] "main.nomo" := sourceNames_main (List.forall_mem_nil _)
  have hmain := hfile hnone
  rw [List.nil_append, pushAll_singleton] at hmain
  unfold moduleSourcePath
  dsimp only
  by_cases hempty : modulePath = [] ∨ modulePath = ["main"]
  · rw [if_pos hempty, if_pos hempty, hmain]
  · have hnames : SourceNames modulePath.dropLast (modulePath.getLast?.getD "" ++ ".nomo") := by
      refine sourceNames_flat ?_
      rwa [dropLast_append_getLast?_getD fun hnil => hempty (Or.inl hnil)]
    rw [if_neg hempty, if_neg hempty, hfile hnames, hfile (sourceNames_main hmodule)]

theorem parseModule_congr {sourceRoot path : String} {modulePath : List String}
    (hsame : Same tree tree' sourceRoot) (hmodule : ∀ part ∈ modulePath, ValidName part)
    (h : moduleSourcePath (moduleDisk frontend tree) sourceRoot modulePath = some path) :
    parseModule frontend tree path = parseModule frontend tree' path := by
  obtain ⟨names, last, hnames, rfl, hfile⟩ := moduleSourcePath_cases hmodule h
  unfold parseModule readToString
  rw [(hsame names last hnames.1 hnames.2).2 hfile]

/-- The source roots of a module context. -/
def contextRoots (context : ProjectModuleContext) : List String :=
  context.localSourceRoot :: context.externalModules.map (·.sourceRoot)

variable {context : ProjectModuleContext}

theorem resolved_mem {current : String} {name : List String} {resolved : ResolvedImportedModule}
    (h : resolveImportedModule context current name = some resolved) :
    resolved.sourceRoot ∈ contextRoots context ∧ resolved.modulePath ⊆ name := by
  cases name with
  | nil => cases h
  | cons importRoot modulePath =>
    rw [resolveImportedModule_cons] at h
    split_ifs at h
    · cases h
      exact ⟨List.mem_cons_self .., List.subset_cons_self _ _⟩
    · obtain ⟨module, hmodule, rfl⟩ := Option.map_eq_some_iff.1 h
      exact ⟨List.mem_cons_of_mem _ (List.mem_map_of_mem (externalModule_mem hmodule)),
        List.subset_cons_self _ _⟩

/-- The parts of the imports are names. -/
def NamedImports (importer : Importer) : Prop :=
  ∀ name ∈ importer.imports, ∀ part ∈ name, ValidName part

theorem namedImports_of_sourceFile {path : String} {file : SourceFile}
    (h : (moduleDisk frontend tree).sourceFile path = .ok file) :
    ∀ name ∈ file.imports, ∀ part ∈ name, ValidName part := by
  obtain ⟨ast, hast, rfl⟩ : ∃ ast, parseModule frontend tree path = .ok ast ∧
      { package := frontend.package ast, imports := frontend.imports ast } = file := by
    dsimp only [moduleDisk] at h
    cases hparse : parseModule frontend tree path with
    | error diagnostic =>
      rw [hparse] at h
      exact nomatch h
    | ok ast =>
      rw [hparse] at h
      exact ⟨ast, rfl, Except.ok.inj h⟩
  unfold parseModule at hast
  split at hast
  next => exact nomatch hast
  next contents hread =>
    split at hast
    next => exact nomatch hast
    next ast' hparse =>
      split_ifs at hast
      cases hast
      exact frontend.imports_valid hparse

section

variable (hsame : ∀ sourceRoot ∈ contextRoots context, Same tree tree' sourceRoot)

include hsame

/-- **One import** on two trees. -/
theorem loadImport_congr {next next' : Importer → ModuleGraph → Except LoadError ModuleGraph}
    (hnext : ∀ importer graph, NamedImports importer → next importer graph = next' importer graph)
    (importer : Importer) (graph : ModuleGraph) {name : List String}
    (hname : ∀ part ∈ name, ValidName part) :
    loadImport context (moduleDisk frontend tree) next importer graph name
      = loadImport context (moduleDisk frontend tree') next' importer graph name := by
  unfold loadImport
  split_ifs
  · rfl
  cases hresolved : resolveImportedModule context importer.canonicalPackage name with
  | none => rfl
  | some resolved =>
    obtain ⟨hroot, hsubset⟩ := resolved_mem hresolved
    have hmodule (part) (hpart : part ∈ resolved.modulePath) : ValidName part := hname part (hsubset hpart)
    have hsamePath : moduleSourcePath (moduleDisk frontend tree) resolved.sourceRoot
          resolved.modulePath
        = moduleSourcePath (moduleDisk frontend tree') resolved.sourceRoot resolved.modulePath :=
      moduleSourcePath_congr (hsame _ hroot) hmodule
    dsimp only
    rw [← hsamePath]
    cases hpath : moduleSourcePath (moduleDisk frontend tree) resolved.sourceRoot
      resolved.modulePath with
    | none => rfl
    | some path =>
      have hfile : (moduleDisk frontend tree').sourceFile path
          = (moduleDisk frontend tree).sourceFile path := by
        dsimp only [moduleDisk]
        rw [parseModule_congr (hsame _ hroot) hmodule hpath]
      dsimp only
      rw [hfile]
      cases hread : (moduleDisk frontend tree).sourceFile path with
      | error diagnostic => rfl
      | ok file =>
        dsimp only
        rw [hnext]
        exact namedImports_of_sourceFile hread

/-- **All imports** on two trees. -/
theorem loadImports_congr (fuel : ℕ) (importer : Importer) (graph : ModuleGraph)
    (himports : NamedImports importer) :
    loadImports context (moduleDisk frontend tree) fuel importer graph
      = loadImports context (moduleDisk frontend tree') fuel importer graph := by
  induction fuel generalizing importer graph with
  | zero => rfl
  | succ fuel ih =>
    rw [loadImports, loadImports]
    unfold NamedImports at himports
    generalize importer.imports = names at himports
    induction names generalizing graph with
    | nil => rfl
    | cons name names ihnames =>
      rw [List.foldlM_cons, List.foldlM_cons, loadImport_congr hsame
        (fun importer graph => ih importer graph) importer graph (himports name (List.mem_cons_self ..))]
      refine congrArg _ (funext fun graph => ?_)
      exact ihnames graph fun name hname => himports name (List.mem_cons_of_mem _ hname)

/-- **A whole project** on two trees. -/
theorem loadProjectModules_congr (fuel : ℕ) (directories : List String) (stem : String)
    (file : SourceFile) (himports : ∀ name ∈ file.imports, ∀ part ∈ name, ValidName part) :
    loadProjectModules context (moduleDisk frontend tree) fuel directories stem file
      = loadProjectModules context (moduleDisk frontend tree') fuel directories stem file := by
  unfold loadProjectModules
  dsimp only
  rw [loadImports_congr hsame fuel]
  exact himports

end

/-! ## A check on two trees -/

/-- The loaded modules after the first are found below a source root. -/
def FoundBelow (context : ProjectModuleContext) (disk : ModuleDisk) (graph : ModuleGraph) : Prop :=
  graph.modules ≠ [] ∧ ∀ node ∈ graph.modules.tail, ∃ sourceRoot ∈ contextRoots context,
    ∃ modulePath, (∀ part ∈ modulePath, ValidName part) ∧
      moduleSourcePath disk sourceRoot modulePath = some node.sourcePath

theorem foundBelow_preserved :
    Preserved context (moduleDisk frontend tree) NamedImports
      (FoundBelow context (moduleDisk frontend tree)) where
  add := by
    intro importer name resolved path file graph himporter hname hresolved hpath _ hgraph
    obtain ⟨hroot, hsubset⟩ := resolved_mem hresolved
    show FoundBelow context _ (graph.addModule _)
    unfold ModuleGraph.addModule
    split_ifs
    · exact hgraph
    refine ⟨by simp, fun node hnode => ?_⟩
    dsimp only at hnode
    rw [List.tail_append_of_ne_nil hgraph.1] at hnode
    rcases List.mem_append.1 hnode with hnode | hnode
    · exact hgraph.2 node hnode
    · obtain rfl := List.mem_singleton.1 hnode
      exact ⟨_, hroot, _, fun part hpart => himporter name hname part (hsubset hpart), hpath⟩
  next := fun hfile => namedImports_of_sourceFile hfile

/-- **A check reads the source files below the source roots**, and nothing else. -/
theorem checkSourceText_congr
    (hsame : ∀ sourceRoot ∈ contextRoots context, Same tree tree' sourceRoot) (main : MainFile)
    (fuel : ℕ) (source : List UInt8) :
    checkSourceText frontend tree context main fuel source
      = checkSourceText frontend tree' context main fuel source := by
  unfold checkSourceText
  dsimp only
  cases hparse : frontend.parse (main.path context.localSourceRoot) source with
  | error diagnostic => rfl
  | ok ast =>
    cases main with
    | outside path => rfl
    | inside directories stem _ =>
      have himports : ∀ name ∈ frontend.imports ast, ∀ part ∈ name, ValidName part :=
        frontend.imports_valid hparse
      show Except.bind (loadProjectModules ..) _ = Except.bind (loadProjectModules ..) _
      rw [← loadProjectModules_congr hsame fuel directories stem _ himports]
      cases hload : loadProjectModules context (moduleDisk frontend tree) fuel directories stem
          { package := frontend.package ast, imports := frontend.imports ast } with
      | error error => rfl
      | ok graph =>
        have hfound : FoundBelow context (moduleDisk frontend tree) graph := by
          refine foundBelow_preserved.loadProjectModules ?_ ⟨by simp [ModuleGraph.new], ?_⟩ hload
          · exact himports
          · exact fun _ hnode => nomatch hnode
        have hloaded : graph.modules.tail.map (fun node =>
              (node, parseModule frontend tree node.sourcePath))
            = graph.modules.tail.map fun node =>
              (node, parseModule frontend tree' node.sourcePath) := by
          refine List.map_congr_left fun node hnode => ?_
          obtain ⟨sourceRoot, hroot, modulePath, hmodule, hpath⟩ := hfound.2 node hnode
          rw [parseModule_congr (hsame _ hroot) hmodule hpath]
        show orStop (frontend.lowerProgram _ _ (graph.modules.tail.map _) _ _) = _
        rw [hloaded]
        rfl

end Nomo.CheckCache
