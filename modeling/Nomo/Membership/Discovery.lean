import Nomo.Lib.Checked
import Nomo.Membership.Patterns

/-!
# Which directories are members

`nomo/src/project/workspace.rs:375–500` expands the entries of `members` over the directory tree, and
`nomo_manifest/src/lib.rs:1719–1754` tells for a directory whether it belongs to the workspace.  A
path is the list of its names; a *spelled* path is one as it was put together, below the workspace
root, and may still have `..` in it.  There are no symbolic links, so that resolving a path is walking
down the tree.
-/

namespace Nomo.Membership

/-- What discovery reads from the manifest of a member. -/
structure Document where
  isV2 : Except String Bool
  hasWorkspace : Except String Bool

/-- A directory tree: the directories in a directory, and the manifest there. -/
structure Disk where
  children : List Text → List Text
  manifest : List Text → Option (Except String Document)
  children_valid : ∀ path, ∀ name ∈ children path, ValidName name

/-- The name of the directory above. -/
def parentDir : Text := ['.', '.']

/-- Resolve segments from a directory on. -/
def Disk.walk (disk : Disk) : List Text → List Text → Option (List Text)
  | dir, [] => some dir
  | dir, part :: rest =>
    if part = parentDir then disk.walk dir.dropLast rest
    else if part ∈ disk.children dir then disk.walk (dir ++ [part]) rest
    else none

/-! ## The manifest of the workspace -/

/-- `validate_workspace_patterns` (`nomo_manifest/src/lib.rs:1694–1717`), of one entry. -/
def validateWorkspacePattern (field : String) (pattern : Text) : Except String Unit :=
  if pattern = [] || ['/'].isPrefixOf pattern || (segments pattern).contains parentDir then
    .error ("manifest `" ++ field ++ "` entry `" ++ String.ofList pattern
      ++ "` must be a relative path inside the workspace")
  else if (afterFirst ['*', '*'] pattern).isSome then
    .error ("manifest `" ++ field ++ "` entry `" ++ String.ofList pattern
      ++ "` uses unsupported recursive wildcard `**`")
  else .ok ()

/-- `validate_workspace_patterns`. -/
def validateWorkspacePatterns (field : String) (patterns : List Text) : Except String Unit :=
  patterns.forM (validateWorkspacePattern field)

/-- A version 2 workspace as `parse_workspace_context` accepts it (`nomo_manifest/src/lib.rs:500–583`). -/
structure WorkspaceContext where
  root : List Text
  members : List Text
  exclude : List Text
  members_valid : validateWorkspacePatterns "workspace.members" members = .ok ()
  exclude_valid : validateWorkspacePatterns "workspace.exclude" exclude = .ok ()

/-! ## Discovery -/

variable (disk : Disk) (context : WorkspaceContext)

/-- `expand_workspace_pattern_parts` (`workspace.rs:487–500`). -/
def expandWorkspacePatternParts : List Text → List Text → List (List Text)
  | base, [] => if (disk.walk context.root base).isSome then [base] else []
  | base, part :: rest =>
    if '*' ∈ part then
      match disk.walk context.root base with
      | none => []
      | some dir =>
        ((disk.children dir).filter (wildcardMatch part)).flatMap fun name =>
          expandWorkspacePatternParts (base ++ [name]) rest
    else expandWorkspacePatternParts (base ++ [part]) rest

/-- `expand_workspace_pattern` (`workspace.rs:476–485`). -/
def expandWorkspacePattern (pattern : Text) : List (List Text) :=
  expandWorkspacePatternParts disk context [] (patternParts pattern)

/-- A path in a message. -/
def display (path : List Text) : String := String.ofList (path.flatMap fun name => '/' :: name)

/-- The checks of a member's manifest (`workspace.rs:440–455`). -/
def checkMemberManifest (relative : Text) (isRoot : Bool) (manifest : Except String Document) :
    Except String Unit := do
  let document ← manifest
  let isV2 ← document.isV2
  if !isV2 then
    .error ("manifest v2 workspace member `" ++ String.ofList relative
      ++ "` must define `manifest-version = 2`; run `nomo manifest migrate`")
  else if isRoot then .ok ()
  else do
    let hasWorkspace ← document.hasWorkspace
    if hasWorkspace then
      .error ("workspace member `" ++ String.ofList relative
        ++ "` defines a nested workspace; nested workspace membership is ambiguous")
    else .ok ()

/-- What discovery does with one directory that an entry expands to (`workspace.rs:402–459`); `roots`
are the members so far, by their canonical paths. -/
def visitRoot (roots : List (List Text × List Text)) (spelled : List Text) :
    Except String (List (List Text × List Text)) := do
  let relative := pathText spelled
  if workspacePathIsExcluded relative context.exclude then return roots
  match disk.walk context.root spelled with
  | none => .error ("failed to resolve workspace member `" ++ String.ofList relative ++ "`")
  | some canonical =>
    match disk.manifest canonical with
    | none => .error ("workspace member `" ++ String.ofList relative ++ "` is missing nomo.toml")
    | some manifest =>
      if !context.root.isPrefixOf canonical then
        .error ("workspace member `" ++ String.ofList relative ++ "` resolves outside the workspace root")
      else
        match roots.find? fun root => root.1 = canonical with
        | some existing =>
          .error ("workspace members " ++ display (context.root ++ existing.2) ++ " and "
            ++ display (context.root ++ spelled) ++ " resolve to the same canonical path "
            ++ display canonical)
        | none => do
          checkMemberManifest relative (spelled = []) manifest
          .ok (roots ++ [(canonical, spelled)])

/-- What discovery does with one entry (`workspace.rs:394–401`).  The directories are sorted in the
source, which decides only which error is reported first. -/
def visitPattern (roots : List (List Text × List Text)) (pattern : Text) :
    Except String (List (List Text × List Text)) :=
  let expanded := expandWorkspacePattern disk context pattern
  if expanded.isEmpty then
    .error ("workspace member pattern `" ++ String.ofList pattern ++ "` did not match any package")
  else expanded.foldlM (visitRoot disk context) roots

/-- `workspace_projects_from_patterns` (`workspace.rs:375–470`) for a version 2 workspace: the spelled
roots of the projects, which `discover_project` accepts. -/
def workspaceProjectsFromPatterns (discoverProject : List Text → Except String Unit)
    (patterns : List Text) : Except String (List (List Text)) := do
  let roots ← patterns.foldlM (visitPattern disk context) []
  roots.mapM fun root => do
    discoverProject root.2
    return root.2

/-- The text of the path of a package below the root (`nomo_manifest/src/lib.rs:1735–1741`). -/
def relativeText (relative : List Text) : Text :=
  if relative = [] then ['.'] else pathText relative

/-- `workspace_context_includes_root` (`nomo_manifest/src/lib.rs:1719–1754`), of a canonical path. -/
def workspaceContextIncludesRoot (packageRoot : List Text) : Bool :=
  match packageRoot.dropPrefix? context.root with
  | none => false
  | some relative =>
    let relative := relativeText relative
    context.members.any (workspacePatternMatches · relative) &&
      !contextExcludes context.exclude relative

/-- A directory of the tree with a manifest. -/
def Disk.IsPackage (dir : List Text) : Prop :=
  disk.walk [] dir = some dir ∧ (disk.manifest dir).isSome

/-! ## Walking -/

section

variable {disk : Disk} {context : WorkspaceContext} {dir path target : List Text}

theorem Disk.walk_append (xs ys : List Text) :
    disk.walk dir (xs ++ ys) = (disk.walk dir xs).bind (disk.walk · ys) := by
  induction xs generalizing dir with
  | nil => rfl
  | cons part xs ih =>
    rw [List.cons_append, Disk.walk, Disk.walk]
    split_ifs
    · exact ih
    · exact ih
    · rfl

theorem Disk.walk_eq (h : disk.walk dir path = some target) (hparent : parentDir ∉ path) :
    target = dir ++ path := by
  induction path generalizing dir with
  | nil =>
    cases h
    simp
  | cons part path ih =>
    have hpart : part ≠ parentDir := by
      rintro rfl
      exact hparent (List.mem_cons_self ..)
    rw [Disk.walk, if_neg hpart] at h
    split_ifs at h
    rw [ih h fun hp => hparent (List.mem_cons_of_mem _ hp)]
    simp

theorem Disk.walk_valid (h : disk.walk dir path = some target) (hdir : ∀ name ∈ dir, ValidName name) :
    ∀ name ∈ target, ValidName name := by
  induction path generalizing dir with
  | nil =>
    cases h
    exact hdir
  | cons part path ih =>
    rw [Disk.walk] at h
    split_ifs at h with _ hmem
    · exact ih h fun name hname => hdir name (List.mem_of_mem_dropLast hname)
    refine ih h fun name hname => ?_
    rcases List.mem_append.1 hname with hname | hname
    · exact hdir name hname
    · obtain rfl := List.mem_singleton.1 hname
      exact disk.children_valid dir _ hmem

theorem Disk.IsPackage.valid (h : disk.IsPackage dir) : ∀ name ∈ dir, ValidName name :=
  Disk.walk_valid h.1 fun _ hname => nomatch hname

theorem parentDir_not_mem (h : ∀ name ∈ path, ValidName name) : parentDir ∉ path :=
  fun hmem => (h _ hmem).2.2.2 rfl

theorem Disk.IsPackage.walk_root {t : List Text} (h : disk.IsPackage (dir ++ t)) :
    disk.walk dir t = some (dir ++ t) := by
  have hwalk := h.1
  rw [Disk.walk_append] at hwalk
  cases hdir : disk.walk [] dir with
  | none =>
    rw [hdir] at hwalk
    exact nomatch hwalk
  | some dir' =>
    rw [hdir] at hwalk
    have hvalid (name) (hname : name ∈ dir) : ValidName name := h.valid name (List.mem_append_left _ hname)
    obtain rfl : dir' = dir := Disk.walk_eq hdir (parentDir_not_mem hvalid)
    exact hwalk

/-! ## Expanding -/

theorem expandWorkspacePatternParts_sound {parts : List Text} {base : List Text}
    (hparts : parentDir ∉ parts) (h : path ∈ expandWorkspacePatternParts disk context base parts) :
    ∃ t, path = base ++ t ∧ parentDir ∉ t ∧ (disk.walk context.root path).isSome ∧
      List.Forall₂ (fun part name => wildcardMatch part name = true) parts t := by
  induction parts generalizing base with
  | nil =>
    rw [expandWorkspacePatternParts] at h
    split_ifs at h with hwalk
    · obtain rfl := List.mem_singleton.1 h
      exact ⟨[], by simp, by simp, hwalk, .nil⟩
    · exact nomatch h
  | cons part parts ih =>
    have hrest := fun hp => hparts (List.mem_cons_of_mem part hp)
    rw [expandWorkspacePatternParts] at h
    split_ifs at h with hstar
    · split at h
      next => exact nomatch h
      next dir hdir =>
        obtain ⟨name, hname, h⟩ := List.mem_flatMap.1 h
        obtain ⟨hchild, hmatch⟩ := List.mem_filter.1 hname
        obtain ⟨t, rfl, hparent, hwalk, hall⟩ := ih hrest h
        refine ⟨name :: t, by simp, ?_, hwalk, .cons hmatch hall⟩
        rw [List.mem_cons]
        rintro (hp | hp)
        · exact (disk.children_valid dir name hchild).2.2.2 hp.symm
        · exact hparent hp
    · obtain ⟨t, rfl, hparent, hwalk, hall⟩ := ih hrest h
      refine ⟨part :: t, by simp, ?_, hwalk, .cons ?_ hall⟩
      · rw [List.mem_cons]
        rintro (hp | hp)
        · exact hparts (hp ▸ List.mem_cons_self ..)
        · exact hparent hp
      · rw [wildcardMatch_literal _ hstar]
        exact decide_eq_true rfl

/-- What matches an entry part by part and is there is among what it expands to. -/
theorem expandWorkspacePatternParts_complete {parts t base : List Text} (hparent : parentDir ∉ t)
    (hwalk : (disk.walk context.root (base ++ t)).isSome)
    (hall : List.Forall₂ (fun part name => wildcardMatch part name = true) parts t) :
    base ++ t ∈ expandWorkspacePatternParts disk context base parts := by
  induction hall generalizing base with
  | nil =>
    rw [List.append_nil] at hwalk ⊢
    rw [expandWorkspacePatternParts, if_pos hwalk]
    exact List.mem_singleton_self _
  | @cons part name parts t hmatch hall ih =>
    have hcons : base ++ name :: t = base ++ [name] ++ t := by simp
    have ih : base ++ [name] ++ t ∈ expandWorkspacePatternParts disk context (base ++ [name]) parts :=
      ih (fun hp => hparent (List.mem_cons_of_mem _ hp)) (hcons ▸ hwalk)
    rw [expandWorkspacePatternParts, hcons]
    split_ifs with hstar
    · rw [Disk.walk_append] at hwalk
      cases hdir : disk.walk context.root base with
      | none =>
        rw [hdir] at hwalk
        exact nomatch hwalk
      | some dir =>
        have hname : name ≠ parentDir := by
          rintro rfl
          exact hparent (List.mem_cons_self ..)
        rw [hdir, Option.bind_some, Disk.walk, if_neg hname] at hwalk
        refine List.mem_flatMap.2 ⟨name, List.mem_filter.2 ⟨?_, hmatch⟩, ih⟩
        by_contra hchild
        rw [if_neg hchild] at hwalk
        exact nomatch hwalk
    · rw [wildcardMatch_literal _ hstar] at hmatch
      obtain rfl := of_decide_eq_true hmatch
      exact ih

end

end Nomo.Membership
