import Nomo.CheckCache.Check
import Nomo.Deps.CurrentBuild

/-!
# Cached verdicts

`check_project_with_persistent_cache` (`nomo/src/project.rs:253–310`): a check that succeeded is
remembered under the key of the project, and the next check with that key succeeds without looking.
The key covers the source files of the project and of its dependencies, but not the module context:
the aliases, module roots and packages that the manifest inherits from the manifest of a workspace.

A cache is the list of its keys; entries may disappear at any time.
-/

namespace Nomo.CheckCache

open Nomo.Lib Nomo.Resolver Nomo.SupplyChain Nomo.Deps Nomo.Modules

/-- A tree in which the entries of every directory have different names. -/
abbrev SourceTree := { node : Node // node.valid = true }

/-- A project on disk: what its checks take from elsewhere. -/
structure Setting (σ V R Ast : Type) where
  semver : Semver V R
  sources : BuildSources σ V
  frontend : Frontend Ast
  treeOf : σ → SourceTree
  sha256 : List UInt8 → String
  target : TargetTriple
  root : String
  main : MainFile
  fuel : ℕ

section

variable {σ V R Ast : Type} [LinearOrder V] (setting : Setting σ V R Ast)

/-- The path of the main file. -/
def Setting.mainPath : String := setting.main.path (pushPath setting.root "src")

/-- `project_module_context`. -/
def Setting.moduleContext (world : σ) : Except String ProjectModuleContext × σ :=
  let result :=
    currentModuleContext setting.semver setting.sources setting.root false setting.target world
  (result.1.map Prod.fst, result.2)

/-- The key of a check. -/
def Setting.key (name : String) (world : σ) (context : ProjectModuleContext) : QueryKey :=
  projectQueryKey (setting.treeOf world).1 setting.root context.externalModules setting.sha256
    setting.target "semantic-check-success" (name ++ ":" ++ setting.mainPath)

/-- A message about the manifest of the project. -/
def Setting.manifestError (message : String) : LoadError :=
  .diagnostic
    { code := "E0901"
      message
      path := pushPath setting.root "nomo.toml" }

/-- A message about the main file. -/
def Setting.mainError (message : String) : LoadError :=
  .diagnostic
    { code := "E0001"
      message := "failed to read source file: " ++ message
      path := setting.mainPath }

/-- The source of the main file is checked. -/
def Setting.checkSource (world : σ) (context : ProjectModuleContext) (source : List UInt8) :
    Except LoadError Unit :=
  checkSourceText setting.frontend (setting.treeOf world).1 context setting.main setting.fuel source

/-- `check_project`. -/
def checkProject (world : σ) : Except LoadError Unit :=
  match setting.moduleContext world with
  | (.error message, _) => .error (setting.manifestError message)
  | (.ok context, world) =>
    match readToString setting.frontend (setting.treeOf world).1 setting.mainPath with
    | .error message => .error (setting.mainError message)
    | .ok source => setting.checkSource world context source

/-- `check_project_with_persistent_cache`. -/
def checkProjectWithPersistentCache (name : String) (world : σ) (cache : List QueryKey) :
    Except LoadError Unit × List QueryKey :=
  match setting.moduleContext world with
  | (.error message, _) => (.error (setting.manifestError message), cache)
  | (.ok context, world) =>
    match readToString setting.frontend (setting.treeOf world).1 setting.mainPath with
    | .error message => (.error (setting.mainError message), cache)
    | .ok source =>
      let key := setting.key name world context
      if key ∈ cache then (.ok (), cache)
      else
        match setting.checkSource world context source with
        | .error error => (.error error, cache)
        | .ok () => (.ok (), key :: cache)

/-- The key of a state of the project, where it has a module context. -/
def keyAt (name : String) (world : σ) : Option QueryKey :=
  match setting.moduleContext world with
  | (.error _, _) => none
  | (.ok context, world) => some (setting.key name world context)

/-! ## Runs -/

/-- A check that was made: the name of the project, the state it was in, and the answer. -/
structure PastCheck (σ : Type) where
  name : String
  world : σ
  answer : Except LoadError Unit

/-- Checks one after another, with any changes between them. -/
inductive Run : List (PastCheck σ) → List QueryKey → Prop
  | start : Run [] []
  | check {past cache} (name : String) (world : σ) (h : Run past cache) :
      Run (past ++ [⟨name, world, (checkProjectWithPersistentCache setting name world cache).1⟩])
        (checkProjectWithPersistentCache setting name world cache).2
  | forget {past cache cache'} (h : Run past cache) (hsubset : cache' ⊆ cache) : Run past cache'

/-- The key says as much about two states as a check reads: both have the same module context, every
directory below the source roots can be listed, a file that cannot be read in one of them cannot be
read in the other, and no text is as long as 2^64 bytes. -/
def Covers (first second : σ) : Prop :=
  ∀ context context' world world', setting.moduleContext first = (.ok context, world) →
    setting.moduleContext second = (.ok context', world') →
    context = context' ∧
      (∀ w ∈ [world, world'], Listed (setting.treeOf w).1 setting.root context.externalModules ∧
        Fits (setting.treeOf w).1 setting.root context.externalModules) ∧
      ∀ path ∈ semanticFiles (setting.treeOf world).1 setting.root context.externalModules,
        (read (setting.treeOf world).1 path).isOk = (read (setting.treeOf world').1 path).isOk

end

section

variable {σ V R Ast : Type} [LinearOrder V] {setting : Setting σ V R Ast}

theorem localSourceRoot_of_moduleContext {world world' : σ} {context : ProjectModuleContext}
    (h : setting.moduleContext world = (.ok context, world')) :
    context.localSourceRoot = pushPath setting.root "src" := by
  obtain ⟨uses, hgives⟩ : ∃ uses, (currentModuleContext setting.semver setting.sources setting.root
      false setting.target).Gives world (context, uses) world' := by
    obtain ⟨hresult, hworld⟩ := Prod.mk.inj h
    cases hcurrent : (currentModuleContext setting.semver setting.sources setting.root false
      setting.target world).1 with
    | error message =>
      rw [hcurrent] at hresult
      exact nomatch hresult
    | ok found =>
      rw [hcurrent] at hresult
      refine ⟨found.2, Prod.ext (hcurrent.trans ?_) hworld⟩
      rw [← Except.ok.inj hresult]
  simp only [currentModuleContext, Attempt.bind_gives, Attempt.pure_gives] at hgives
  obtain ⟨manifest, _, -, moduleRoot, _, -, modules, _, -, hcontext, -⟩ := hgives
  cases hcontext
  rfl

theorem same_of_key (hsha256 : Function.Injective setting.sha256) {first second world world' : σ}
    {name name' : String} {context context' : ProjectModuleContext}
    (hcovers : Covers setting first second)
    (hfirst : setting.moduleContext first = (.ok context, world))
    (hsecond : setting.moduleContext second = (.ok context', world'))
    (hkey : setting.key name world context = setting.key name' world' context') :
    context = context' ∧ ∀ sourceRoot ∈ contextRoots context,
      Same (setting.treeOf world).1 (setting.treeOf world').1 sourceRoot := by
  obtain ⟨rfl, hlisted, hreadable⟩ := hcovers _ _ _ _ hfirst hsecond
  have hworld := hlisted world (by simp)
  have hworld' := hlisted world' (by simp)
  obtain ⟨hfiles, hcontents⟩ := projectQueryKey_injective hsha256 hworld.2 hworld'.2 hkey
  refine ⟨rfl, fun sourceRoot hroot => ?_⟩
  have hroot : sourceRoot ∈ sourceRoots setting.root context.externalModules := by
    rw [contextRoots, localSourceRoot_of_moduleContext hfirst] at hroot
    exact hroot
  exact same_of_hashed (setting.treeOf world).2 (setting.treeOf world').2 hworld.1 hworld'.1 hfiles
    hcontents hreadable hroot

omit [LinearOrder V] in
theorem checkSource_outside {world : σ} {context : ProjectModuleContext} {source : List UInt8}
    {path : String} (hmain : setting.main = .outside path) :
    (setting.checkSource world context source).isOk = false := by
  unfold Setting.checkSource checkSourceText
  rw [hmain]
  dsimp only
  cases setting.frontend.parse (MainFile.path context.localSourceRoot (.outside path)) source with
  | error diagnostic | ok ast => rfl

/-- **Equal keys, equal verdicts**, where the key covers what a check reads. -/
theorem isOk_checkProject_eq (hsha256 : Function.Injective setting.sha256)
    {first second : σ} {name name' : String} {key : QueryKey}
    (hcovers : Covers setting first second)
    (hfirst : keyAt setting name first = some key) (hsecond : keyAt setting name' second = some key) :
    (checkProject setting first).isOk = (checkProject setting second).isOk := by
  unfold keyAt at hfirst hsecond
  split at hfirst
  next => exact nomatch hfirst
  next context world hcontext =>
    split at hsecond
    next => exact nomatch hsecond
    next context' world' hcontext' =>
      obtain ⟨rfl, hsame⟩ := same_of_key hsha256 hcovers hcontext hcontext'
        ((Option.some.inj hfirst).trans (Option.some.inj hsecond).symm)
      unfold checkProject
      rw [hcontext, hcontext']
      dsimp only
      cases hinside : setting.main with
      | outside path =>
        -- a file that is not below the source root is never checked with success
        have hfalse (w) : (match readToString setting.frontend (setting.treeOf w).1 setting.mainPath with
            | .error message => .error (setting.mainError message)
            | .ok source => setting.checkSource w context source : Except LoadError Unit).isOk
              = false := by
          cases readToString setting.frontend (setting.treeOf w).1 setting.mainPath with
          | error message => rfl
          | ok source => exact checkSource_outside hinside
        rw [hfalse, hfalse]
      | inside directories stem named =>
        have hnames := sourceNames_flat named
        have hroot := localSourceRoot_of_moduleContext hcontext
        obtain ⟨hfile, hread⟩ := hsame context.localSourceRoot (List.mem_cons_self ..) _ _ hnames.1 hnames.2
        have hpath : setting.mainPath = pushAll context.localSourceRoot
            (directories ++ [stem ++ ".nomo"]) := by
          rw [Setting.mainPath, hinside, hroot]
          rfl
        rw [← hpath] at hfile hread
        by_cases hisFile : isFile (setting.treeOf world).1 setting.mainPath = true
        · have htext : readToString setting.frontend (setting.treeOf world).1 setting.mainPath
              = readToString setting.frontend (setting.treeOf world').1 setting.mainPath := by
            rw [readToString, readToString, hread hisFile]
          rw [htext]
          cases readToString setting.frontend (setting.treeOf world').1 setting.mainPath with
          | error message => rfl
          | ok source =>
            show (checkSourceText ..).isOk = (checkSourceText ..).isOk
            rw [checkSourceText_congr hsame]
        · have hfirst : (readToString setting.frontend (setting.treeOf world).1 setting.mainPath).isOk
              = false := isOk_readToString_eq_false (Bool.eq_false_iff.2 hisFile)
          have hsecond : (readToString setting.frontend (setting.treeOf world').1 setting.mainPath).isOk
              = false := isOk_readToString_eq_false (hfile ▸ Bool.eq_false_iff.2 hisFile)
          cases hread : readToString setting.frontend (setting.treeOf world).1 setting.mainPath with
          | ok source =>
            rw [hread] at hfirst
            exact nomatch hfirst
          | error message =>
            cases hread' : readToString setting.frontend (setting.treeOf world').1 setting.mainPath with
            | ok source =>
              rw [hread'] at hsecond
              exact nomatch hsecond
            | error message' => rfl

/-- What a check with the cache does: it answers as the check does, it finds its key, or it succeeds and
adds its key. -/
inductive Answers (setting : Setting σ V R Ast) (name : String) (world : σ) (cache : List QueryKey) :
    Except LoadError Unit → List QueryKey → Prop
  | computed {answer} (h : answer = checkProject setting world) : Answers setting name world cache answer cache
  | found {key} (hkey : keyAt setting name world = some key) (hmem : key ∈ cache) :
      Answers setting name world cache (.ok ()) cache
  | added {key} (hkey : keyAt setting name world = some key)
      (hcheck : checkProject setting world = .ok ()) : Answers setting name world cache (.ok ()) (key :: cache)

theorem checkProjectWithPersistentCache_answers (name : String) (world : σ) (cache : List QueryKey) :
    Answers setting name world cache
      (checkProjectWithPersistentCache setting name world cache).1
      (checkProjectWithPersistentCache setting name world cache).2 := by
  have hkey (context w) : setting.moduleContext world = (.ok context, w) →
      keyAt setting name world = some (setting.key name w context) := by
    intro hcontext
    rw [keyAt, hcontext]
  unfold checkProjectWithPersistentCache
  have hcheck : checkProject setting world = checkProject setting world := rfl
  conv_rhs at hcheck => unfold checkProject
  split
  next message w hcontext =>
    rw [hcontext] at hcheck
    exact .computed hcheck.symm
  next context w hcontext =>
    rw [hcontext] at hcheck
    dsimp only at hcheck
    split
    next message hread =>
      rw [hread] at hcheck
      exact .computed hcheck.symm
    next source hread =>
      rw [hread] at hcheck
      dsimp only at hcheck
      dsimp only
      split_ifs with hmem
      · exact .found (hkey context w hcontext) hmem
      split
      next error hsource =>
        rw [hsource] at hcheck
        exact .computed hcheck.symm
      next hsource =>
        rw [hsource] at hcheck
        exact .added (hkey context w hcontext) hcheck

/-- Every key in the cache comes from a check that would succeed. -/
def Remembered (setting : Setting σ V R Ast) (past : List (PastCheck σ)) (cache : List QueryKey) : Prop :=
  ∀ key ∈ cache, ∃ c ∈ past, keyAt setting c.name c.world = some key ∧
    (checkProject setting c.world).isOk = true

/-- In a run, the key covers what a check reads. -/
def Covered (setting : Setting σ V R Ast) (past : List (PastCheck σ)) : Prop :=
  ∀ c ∈ past, ∀ c' ∈ past, ∀ key, keyAt setting c.name c.world = some key →
    keyAt setting c'.name c'.world = some key → Covers setting c.world c'.world

theorem Remembered.mono {past past' : List (PastCheck σ)} {cache : List QueryKey}
    (h : Remembered setting past cache) (hsubset : past ⊆ past') :
    Remembered setting past' cache := by
  intro key hkey
  obtain ⟨c, hc, hfound⟩ := h key hkey
  exact ⟨c, hsubset hc, hfound⟩

/-- **One check** in a run. -/
theorem remembered_of_answers (hsha256 : Function.Injective setting.sha256)
    {past : List (PastCheck σ)} {cache cache' : List QueryKey}
    {c : PastCheck σ} (hcovered : Covered setting (past ++ [c]))
    (hremembered : Remembered setting past cache)
    (h : Answers setting c.name c.world cache c.answer cache') :
    c.answer.isOk = (checkProject setting c.world).isOk ∧
      Remembered setting (past ++ [c]) cache' := by
  have hlater := hremembered.mono (List.subset_append_left past [c])
  have hlast : c ∈ past ++ [c] := List.mem_append_right _ (List.mem_singleton_self _)
  obtain ⟨name, world, answer⟩ := c
  cases h with
  | computed hanswer => exact ⟨congrArg Except.isOk hanswer, hlater⟩
  | @found key hkey hmem =>
    obtain ⟨c', hc', hkey', hcheck⟩ := hlater key hmem
    refine ⟨?_, hlater⟩
    rw [isOk_checkProject_eq hsha256 (hcovered _ hlast c' hc' key hkey hkey') hkey hkey', hcheck]
    rfl
  | @added key hkey hcheck =>
    have hok : (checkProject setting world).isOk = true := by
      rw [hcheck]
      rfl
    refine ⟨hok.symm, fun other hother => ?_⟩
    rcases List.mem_cons.1 hother with rfl | hother
    · exact ⟨_, hlast, hkey, hok⟩
    · exact hlater other hother

/-- **A whole run**: every answer is right. -/
theorem remembered_of_run (hsha256 : Function.Injective setting.sha256)
    {past : List (PastCheck σ)} {cache : List QueryKey} (hrun : Run setting past cache)
    (hcovered : Covered setting past) :
    (∀ c ∈ past, c.answer.isOk = (checkProject setting c.world).isOk) ∧
      Remembered setting past cache := by
  induction hrun with
  | start => exact ⟨fun _ hc => (nomatch hc), fun _ hkey => nomatch hkey⟩
  | @check past cache name world _ ih =>
    have hbefore : Covered setting past := fun c hc c' hc' =>
      hcovered c (List.mem_append_left _ hc) c' (List.mem_append_left _ hc')
    obtain ⟨hanswers, hremembered⟩ := ih hbefore
    obtain ⟨hanswer, hremembered⟩ := remembered_of_answers hsha256 hcovered hremembered
      (checkProjectWithPersistentCache_answers name world cache)
    refine ⟨fun c hc => ?_, hremembered⟩
    rcases List.mem_append.1 hc with hc | hc
    · exact hanswers c hc
    · obtain rfl := List.mem_singleton.1 hc
      exact hanswer
  | forget _ hsubset ih =>
    obtain ⟨hanswers, hremembered⟩ := ih hcovered
    exact ⟨hanswers, fun key hkey => hremembered key (hsubset hkey)⟩

end

/-! ## Two aliases that change places -/

namespace Sample

/-- The manifest of a workspace whose dependency `a` is in one directory and `b` in another. -/
def workspaceToml (a b : String) : List UInt8 :=
  bytes ("manifest-version = 2\n\n[workspace]\nmembers = [\"app\"]\n\n[workspace.dependencies]\n" ++
    "a = \x7b package = \"acme/" ++ a ++ "\", path = \"" ++ a ++ "\" \x7d\n" ++
    "b = \x7b package = \"acme/" ++ b ++ "\", path = \"" ++ b ++ "\" \x7d\n")

def packageToml (name dependencies : String) : List UInt8 :=
  bytes ("manifest-version = 2\n\n[package]\nnamespace = \"acme\"\nname = \"" ++ name ++
    "\"\nversion = \"1.0.0\"\nedition = \"2026\"\n" ++ dependencies)

def appToml : List UInt8 :=
  packageToml "app" "\n[dependencies]\na = \x7b workspace = true \x7d\nb = \x7b workspace = true \x7d\n"

def appSource : List UInt8 :=
  bytes "package app\n\nimport a.util\n\nfn main() \x7b\n    run()\n\x7d\n"

/-- The module `util` of the package `x`. -/
def utilSource : List UInt8 := bytes "package x.util\n\npub fn run() \x7b\n\x7d\n"

/-- A workspace in `/w` with the application and the packages `x` and `y`. -/
def workspace (a b : String) : Node :=
  .dir true [("w", .dir true
    [("nomo.toml", .file (.ok (workspaceToml a b))),
      ("app", .dir true
        [("nomo.toml", .file (.ok appToml)),
          ("src", .dir true [("main.nomo", .file (.ok appSource))])]),
      ("x", .dir true
        [("nomo.toml", .file (.ok (packageToml "x" ""))),
          ("src", .dir true [("util.nomo", .file (.ok utilSource))])]),
      ("y", .dir true
        [("nomo.toml", .file (.ok (packageToml "y" ""))), ("src", .dir true [])])])]

/-- `a` is `x`, and `b` is `y`. -/
def before : SourceTree := ⟨workspace "x" "y", by decide⟩

/-- `a` is `y`, and `b` is `x`. -/
def after : SourceTree := ⟨workspace "y" "x", by decide⟩

/-- A dependency on a package next to the application. -/
def sibling (aliasName name : String) : Dependency where
  aliasName
  package := "acme/" ++ name
  source := .path ("../" ++ name)
  target := {}

def manifest (name : String) (dependencies : List Dependency) : Manifest where
  package := { packageNamespace := "acme", name, version := "1.0.0", edition := "2026" }
  dependencies
  trust := .checksumOnly
  transparency :=
    { keys := [], proofMaxAgeSeconds := 0, offlineProofMaxAgeSeconds := 0,
      maxFutureSkewSeconds := 0, gossipCheckpoints := [] }

def parseManifest (tree : SourceTree) (root : String) : Except String Manifest :=
  let workspaceManifest := (read tree.1 "/w/nomo.toml").toOption
  if root = "/w/app" then
    if workspaceManifest = some (workspaceToml "x" "y") then
      .ok (manifest "app" [sibling "a" "x", sibling "b" "y"])
    else if workspaceManifest = some (workspaceToml "y" "x") then
      .ok (manifest "app" [sibling "a" "y", sibling "b" "x"])
    else .error "expected another workspace"
  else if root = "/w/x" then .ok (manifest "x" [])
  else if root = "/w/y" then .ok (manifest "y" [])
  else .error "No such file or directory (os error 2)"

/-- The two states of the workspace. -/
def treeOf (changed : Bool) : SourceTree := if changed then after else before

/-- The operations on the workspace. -/
def sources : BuildSources Bool ℕ where
  canonicalize path :=
    if path = "/w/app/../x" then pure "/w/x"
    else if path = "/w/app/../y" then pure "/w/y"
    else Attempt.fail "No such file or directory (os error 2)"
  readFile _ := Attempt.fail "no such file"
  checkpointFromJson _ := .error "no checkpoint"
  checkpointsFromJson _ := .error "no checkpoint"
  parseManifestAtRoot root := fun changed => (parseManifest (treeOf changed) root, changed)
  packageChecksum root := pure root
  resolveGitSource _ _ _ _ _ _ _ _ := Attempt.fail "no git"
  gitHeadRev _ := Attempt.fail "no git"
  registryDependencyAuthorization _ := pure none
  loadRegistryVersionCandidates _ _ _ _ _ _ := Attempt.fail "no registry"
  resolveRegistrySource _ := Attempt.fail "no registry"
  packageSourceFiles _ := pure ⟨⟩
  ffiForTarget _ _ := pure ⟨[], [], [], [], []⟩

/-- The two source files, parsed; both check. -/
def frontend : Frontend SourceFile where
  isText _ := true
  parse path contents :=
    if contents = appSource then .ok { package := ["app"], imports := [["a", "util"]] }
    else if contents = utilSource then .ok { package := ["x", "util"], imports := [] }
    else .error { code := "E0100", message := "unexpected character", path }
  package := SourceFile.package
  imports := SourceFile.imports
  hasScriptBody _ := false
  lowerProgram _ _ _ _ _ := .ok ()
  imports_valid := by
    intro path contents ast h
    split_ifs at h
    all_goals
      cases h
      decide

/-- The application in its workspace. -/
def setting : Setting Bool ℕ Unit SourceFile where
  semver := .rejecting
  sources
  frontend
  treeOf
  sha256 contents := String.ofList (contents.map fun byte => Char.ofNat byte.toNat)
  target := ⟨"x86_64", "unknown", "linux", "gnu"⟩
  root := "/w/app"
  main := .inside [] "main" (by decide)
  fuel := 4

/-- The context of the application before the aliases change places. -/
def context : ProjectModuleContext where
  localSourceRoot := "/w/app/src"
  localModuleRoot := "app"
  localCanonicalPackage := "acme/app"
  externalImportRoots := ["a", "b"]
  externalModules :=
    [{ importRoot := "a", sourceImportRoot := "x", canonicalPackage := "acme/x"
       sourceRoot := "/w/x/src" },
      { importRoot := "b", sourceImportRoot := "y", canonicalPackage := "acme/y"
        sourceRoot := "/w/y/src" }]

def contextAfter : ProjectModuleContext :=
  { context with
    externalModules :=
      [{ importRoot := "a", sourceImportRoot := "y", canonicalPackage := "acme/y"
         sourceRoot := "/w/y/src" },
        { importRoot := "b", sourceImportRoot := "x", canonicalPackage := "acme/x"
          sourceRoot := "/w/x/src" }] }

/-- The two states, evaluated together: their contexts, the main file, its check, and what is hashed,
in which the manifest of the workspace is missing. -/
theorem evaluated :
    setting.moduleContext false = (.ok context, false) ∧
      setting.moduleContext true = (.ok contextAfter, true) ∧
      (∀ world, readToString setting.frontend (setting.treeOf world).1 setting.mainPath
        = .ok appSource) ∧
      (setting.checkSource false context appSource).isOk = true ∧
      (setting.checkSource true contextAfter appSource).isOk = false ∧
      hashedParts before.1 "/w/app" context.externalModules
        = hashedParts after.1 "/w/app" contextAfter.externalModules ∧
      (∀ part ∈ hashedParts before.1 "/w/app" context.externalModules, part.length < 256 ^ 8) ∧
      ∀ root ∈ sourceRoots "/w/app" context.externalModules,
        (lookup before.1 root).all Node.listed = true := by
  decide +kernel

theorem moduleContext_false : setting.moduleContext false = (.ok context, false) := evaluated.1

theorem moduleContext_true : setting.moduleContext true = (.ok contextAfter, true) := evaluated.2.1

theorem main_read (world : Bool) :
    readToString setting.frontend (setting.treeOf world).1 setting.mainPath = .ok appSource :=
  evaluated.2.2.1 world

theorem key_eq : setting.key "app" false context = setting.key "app" true contextAfter := by
  show projectQueryKey before.1 "/w/app" context.externalModules .. = projectQueryKey after.1 ..
  unfold projectQueryKey
  rw [evaluated.2.2.2.2.2.1]
  rfl

theorem keyAt_false : keyAt setting "app" false = some (setting.key "app" false context) := by
  rw [keyAt, moduleContext_false]

theorem keyAt_true : keyAt setting "app" true = some (setting.key "app" true contextAfter) := by
  rw [keyAt, moduleContext_true]

theorem checkSource_false : setting.checkSource false context appSource = .ok () := by
  have hok := evaluated.2.2.2.1
  cases hsource : setting.checkSource false context appSource with
  | ok value => rfl
  | error error =>
    rw [hsource] at hok
    exact nomatch hok

theorem checkSource_true : (setting.checkSource true contextAfter appSource).isOk = false :=
  evaluated.2.2.2.2.1

theorem cached_false : checkProjectWithPersistentCache setting "app" false []
    = (.ok (), [setting.key "app" false context]) := by
  unfold checkProjectWithPersistentCache
  rw [moduleContext_false]
  dsimp only
  rw [main_read]
  dsimp only
  rw [if_neg List.not_mem_nil, checkSource_false]

end Sample

namespace Sample

theorem sha256_injective : Function.Injective setting.sha256 := by
  have hbyte : Function.Injective fun byte : UInt8 => Char.ofNat byte.toNat := by
    intro x y h
    have hchar (byte : UInt8) : (Char.ofNat byte.toNat).toNat = byte.toNat := by
      have hlt := byte.toNat_lt
      have hvalid : byte.toNat.isValidChar := Or.inl (by omega)
      rw [Char.ofNat, dif_pos hvalid]
      rfl
    have hnat := congrArg Char.toNat h
    dsimp only at hnat
    rw [hchar, hchar] at hnat
    exact UInt8.toNat_inj.1 hnat
  intro xs ys h
  exact List.map_injective_iff.2 hbyte (String.ofList_injective h)

theorem covers_false : Covers setting false false := by
  intro first second world world' hfirst hsecond
  rw [moduleContext_false] at hfirst hsecond
  cases hfirst
  cases hsecond
  refine ⟨rfl, ?_, fun _ _ => rfl⟩
  rintro w hw
  obtain rfl : w = false := by simpa using hw
  obtain ⟨-, -, -, -, -, -, hfits, hlisted⟩ := evaluated
  refine ⟨?_, hfits⟩
  intro sourceRoot hroot node hnode
  have hnode' := hlisted sourceRoot hroot
  rw [show lookup before.1 sourceRoot = some node from hnode] at hnode'
  exact hnode'

def cached : List QueryKey := (checkProjectWithPersistentCache setting "app" false []).2

def firstCheck : PastCheck Bool :=
  ⟨"app", false, (checkProjectWithPersistentCache setting "app" false []).1⟩

def secondCheck : PastCheck Bool :=
  ⟨"app", false, (checkProjectWithPersistentCache setting "app" false cached).1⟩

theorem run_twice : Run setting ([] ++ [firstCheck] ++ [secondCheck])
    (checkProjectWithPersistentCache setting "app" false cached).2 :=
  .check "app" false (.check "app" false .start)

theorem covered_twice : Covered setting ([] ++ [firstCheck] ++ [secondCheck]) := by
  have hworld : ∀ c ∈ [] ++ [firstCheck] ++ [secondCheck], c.world = false := by
    intro c hc
    obtain rfl | rfl : c = firstCheck ∨ c = secondCheck := by simpa using hc
    all_goals rfl
  intro c hc c' hc' key _ _
  rw [hworld c hc, hworld c' hc']
  exact covers_false

end Sample

end Nomo.CheckCache
