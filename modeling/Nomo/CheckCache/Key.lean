import Nomo.Lib.Framing
import Nomo.CheckCache.Tree

/-!
# The key of a project

`project_query_key` and `semantic_inputs` (`nomo/src/incremental.rs:796–846`) without source overrides,
with the `FingerprintBuilder` (`:51–76`).  Equal keys come from the same files with the same contents
(`projectQueryKey_injective`).

The schema version and the version of the toolchain are constants of the program and are left out of
the key.  SHA-256 is a parameter, with its digest as text.
-/

namespace Nomo.CheckCache

open Nomo.Lib Nomo.Resolver Nomo.SupplyChain Nomo.Deps Nomo.Modules

/-- `QueryKey`. -/
structure QueryKey where
  target : String
  keyNamespace : String
  identity : String
  fingerprint : String
deriving DecidableEq

/-- `Path::parent`, of a path without a slash at its end. -/
def parentPath (path : String) : String :=
  String.ofList (((path.toList.rdropWhile (· ≠ '/')).rdropWhile (· = '/')))

section

variable (tree : Node) (root : String) (modules : List ExternalModule)

/-- The files of `semantic_inputs`, before they are sorted. -/
def collectedFiles : List String :=
  pushPath root "nomo.toml" :: collectNomoSources tree (pushPath root "src")
    ++ modules.flatMap fun external =>
      collectNomoSources tree external.sourceRoot
        ++ [pushPath (parentPath external.sourceRoot) "nomo.toml"]

/-- The files of `semantic_inputs`.  Paths are sorted by their text here. -/
def semanticFiles : List String :=
  ((collectedFiles tree root modules).insertionSort (· ≤ ·)).dedup

/-- What is hashed for a file. -/
def hashedContents (path : String) : List UInt8 :=
  match read tree path with
  | .ok contents => contents
  | .error message => bytes ("missing:" ++ message)

/-- What `semantic_inputs` adds to the fingerprint, part by part. -/
def hashedParts : List (List UInt8) :=
  bytes "nomo-semantic-session-v1" :: (semanticFiles tree root modules).flatMap fun path =>
    [bytes path, hashedContents tree path]

/-- `project_query_key`. -/
def projectQueryKey (sha256 : List UInt8 → String) (target : TargetTriple)
    (keyNamespace identity : String) : QueryKey where
  target := target.text
  keyNamespace
  identity
  fingerprint := "sha256:" ++ sha256 (prefixed 8 (hashedParts tree root modules))

/-- No part is as long as 2^64 bytes. -/
def Fits : Prop := ∀ part ∈ hashedParts tree root modules, part.length < 256 ^ 8

end

variable {tree tree' : Node} {root : String} {modules : List ExternalModule} {path : String}

theorem mem_semanticFiles :
    path ∈ semanticFiles tree root modules ↔ path ∈ collectedFiles tree root modules := by
  rw [semanticFiles, List.mem_dedup, List.mem_insertionSort]

theorem flatMap_pairs_injective {α β : Type} {f g : α → β} {h : α → β} (hh : Function.Injective h)
    {xs ys : List α} (hflat : (xs.flatMap fun x => [h x, f x]) = ys.flatMap fun y => [h y, g y]) :
    xs = ys ∧ ∀ x ∈ xs, f x = g x := by
  induction xs generalizing ys with
  | nil =>
    cases ys with
    | nil => exact ⟨rfl, fun _ hx => nomatch hx⟩
    | cons y ys => simp at hflat
  | cons x xs ih =>
    cases ys with
    | nil => simp at hflat
    | cons y ys =>
      simp only [List.flatMap_cons, List.cons_append, List.nil_append, List.cons.injEq] at hflat
      obtain rfl := hh hflat.1
      obtain ⟨rfl, hall⟩ := ih hflat.2.2
      exact ⟨rfl, List.forall_mem_cons.2 ⟨hflat.2.1, hall⟩⟩

/-- **Equal keys come from the same files** with the same contents, as far as these are hashed. -/
theorem projectQueryKey_injective {sha256 : List UInt8 → String} (hsha256 : Function.Injective sha256)
    {target : TargetTriple} {keyNamespace identity identity' : String}
    (hfits : Fits tree root modules) (hfits' : Fits tree' root modules)
    (h : projectQueryKey tree root modules sha256 target keyNamespace identity
      = projectQueryKey tree' root modules sha256 target keyNamespace identity') :
    semanticFiles tree root modules = semanticFiles tree' root modules ∧
      ∀ path ∈ semanticFiles tree root modules,
        hashedContents tree path = hashedContents tree' path := by
  have hfingerprint := congrArg QueryKey.fingerprint h
  have hhashed := hsha256 (String.append_right_inj _ |>.1 hfingerprint)
  have hparts := prefixed_injective hfits hfits' (by decide) hhashed
  rw [hashedParts, hashedParts, List.cons.injEq] at hparts
  exact flatMap_pairs_injective (fun _ _ hbytes => bytes_inj.1 hbytes) hparts.2

/-- Hashed contents are contents, where both files can be read or none. -/
theorem read_eq_of_hashedContents (h : hashedContents tree path = hashedContents tree' path)
    (hreadable : (read tree path).isOk = (read tree' path).isOk) :
    read tree path = read tree' path := by
  unfold hashedContents at h
  cases hread : read tree path with
  | ok contents =>
    cases hread' : read tree' path with
    | ok contents' =>
      rw [hread, hread'] at h
      exact congrArg Except.ok h
    | error message =>
      rw [hread, hread'] at hreadable
      exact nomatch hreadable
  | error message =>
    cases hread' : read tree' path with
    | ok contents =>
      rw [hread, hread'] at hreadable
      exact nomatch hreadable
    | error message' =>
      rw [hread, hread'] at h
      exact congrArg Except.error (String.append_right_inj _ |>.1 (bytes_inj.1 h))

/-! ## Source roots -/

/-- The source roots of a project and of its dependencies. -/
def sourceRoots (root : String) (modules : List ExternalModule) : List String :=
  pushPath root "src" :: modules.map (·.sourceRoot)

theorem mem_collectedFiles {sourceRoot : String} (hroot : sourceRoot ∈ sourceRoots root modules)
    (h : path ∈ collectNomoSources tree sourceRoot) : path ∈ collectedFiles tree root modules := by
  rcases List.mem_cons.1 hroot with rfl | hroot
  · exact List.mem_append_left _ (List.mem_cons_of_mem _ h)
  · obtain ⟨external, hexternal, rfl⟩ := List.mem_map.1 hroot
    exact List.mem_append_right _
      (List.mem_flatMap.2 ⟨external, hexternal, List.mem_append_left _ h⟩)

theorem collectedFiles_cases (h : path ∈ collectedFiles tree root modules) :
    (∃ front, path = pushPath front "nomo.toml") ∨
      ∃ sourceRoot ∈ sourceRoots root modules, path ∈ collectNomoSources tree sourceRoot := by
  rcases List.mem_append.1 h with h | h
  · rcases List.mem_cons.1 h with rfl | h
    · exact Or.inl ⟨root, rfl⟩
    · exact Or.inr ⟨_, List.mem_cons_self .., h⟩
  · obtain ⟨external, hexternal, h⟩ := List.mem_flatMap.1 h
    rcases List.mem_append.1 h with h | h
    · exact Or.inr ⟨_, List.mem_cons_of_mem _ (List.mem_map_of_mem hexternal), h⟩
    · exact Or.inl ⟨_, List.mem_singleton.1 h⟩

theorem pushAll_ne_manifest {front : String} {names : List String} {last : String}
    (hnames : ∀ name ∈ names ++ [last], ValidName name) (hextension : hasNomoExtension last = true) :
    pushAll path (names ++ [last]) ≠ pushPath front "nomo.toml" := by
  intro h
  have hcomponents := congrArg components h
  rw [components_pushAll path hnames, components_pushPath front (by decide), ← List.append_assoc]
    at hcomponents
  obtain ⟨-, hlast⟩ := List.append_inj' hcomponents rfl
  cases hlast
  exact absurd hextension (by decide)

/-- Two trees have the same source files below a source root. -/
def Same (tree tree' : Node) (sourceRoot : String) : Prop :=
  ∀ names last, (∀ name ∈ names ++ [last], ValidName name) → hasNomoExtension last = true →
    isFile tree (pushAll sourceRoot (names ++ [last]))
        = isFile tree' (pushAll sourceRoot (names ++ [last])) ∧
      (isFile tree (pushAll sourceRoot (names ++ [last])) = true →
        read tree (pushAll sourceRoot (names ++ [last]))
          = read tree' (pushAll sourceRoot (names ++ [last])))

/-- The directories below the source roots can be listed. -/
def Listed (tree : Node) (root : String) (modules : List ExternalModule) : Prop :=
  ∀ sourceRoot ∈ sourceRoots root modules, ∀ node, lookup tree sourceRoot = some node →
    node.listed = true

theorem isFile_iff_mem {sourceRoot : String} (hvalid : tree.valid = true)
    (hlisted : Listed tree root modules) (hroot : sourceRoot ∈ sourceRoots root modules)
    {names : List String} {last : String} (hnames : ∀ name ∈ names ++ [last], ValidName name)
    (hextension : hasNomoExtension last = true) :
    isFile tree (pushAll sourceRoot (names ++ [last])) = true ↔
      pushAll sourceRoot (names ++ [last]) ∈ semanticFiles tree root modules := by
  rw [mem_semanticFiles]
  constructor
  · intro hfile
    exact mem_collectedFiles hroot
      (mem_collectNomoSources (hlisted sourceRoot hroot) hnames hextension hfile)
  · intro hmem
    rcases collectedFiles_cases hmem with ⟨front, hmanifest⟩ | ⟨_, -, hmem⟩
    · exact absurd hmanifest (pushAll_ne_manifest hnames hextension)
    · exact isFile_of_mem_collectNomoSources hvalid hmem

/-- **Trees with equal keys have the same source files.** -/
theorem same_of_hashed {sourceRoot : String} (hvalid : tree.valid = true) (hvalid' : tree'.valid = true)
    (hlisted : Listed tree root modules) (hlisted' : Listed tree' root modules)
    (hfiles : semanticFiles tree root modules = semanticFiles tree' root modules)
    (hcontents : ∀ path ∈ semanticFiles tree root modules,
      hashedContents tree path = hashedContents tree' path)
    (hreadable : ∀ path ∈ semanticFiles tree root modules,
      (read tree path).isOk = (read tree' path).isOk)
    (hroot : sourceRoot ∈ sourceRoots root modules) : Same tree tree' sourceRoot := by
  intro names last hnames hextension
  have hiff := isFile_iff_mem hvalid hlisted hroot hnames hextension
  have hiff' := isFile_iff_mem hvalid' hlisted' hroot hnames hextension
  refine ⟨?_, fun hfile => ?_⟩
  · rw [Bool.eq_iff_iff, hiff, hiff', hfiles]
  · exact read_eq_of_hashedContents (hcontents _ (hiff.1 hfile)) (hreadable _ (hiff.1 hfile))

end Nomo.CheckCache
