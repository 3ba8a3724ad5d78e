import Nomo.Deps.RoundTrip
import Nomo.Lib.Unfolding

/-!
# When reading a lockfile ends

`nomo_lockfile/src/lib.rs:105–148, 481–542`. The trees of the direct dependencies are rebuilt by
following every edge, whatever its target. The check for cycles that comes first looks at one target at
a time, so it accepts a cycle if no target has all of its edges. Following such a cycle does not end.

`parseLockfileRoot_returns_iff`: on a lockfile that passes the checks, reading ends and comes to no
package twice on a way down, if and only if no package that is met comes back further down along
edges of any target.
-/

namespace Nomo.Deps

open Nomo.Lib Nomo.Lib.Checked Nomo.Lib.Unfolding Nomo.SupplyChain Nomo.Resolver

/-- The trees are nested deeper than the depth given in advance. -/
def nestedTooDeeply : String := "nomo.lock is nested too deeply"

/-- The entries that the edges of an entry are followed to, in order. -/
def calledEntries (packages : List ResolvedDependency) (entry : ResolvedDependency) :
    List (Option ResolvedDependency) :=
  entry.dependencies.map fun child => (findLocked packages child.aliasName child.package).toOption

/-- The entries that `parse_lockfile_root` rebuilds, in order: those of the root's edges or, without a
list of roots, those that nothing refers to. A root that is not listed leads nowhere. -/
def startEntries (packages : List ResolvedDependency) (hasWorkspaceRoots : Bool) :
    Option (List DependencyEdge) → List (Option ResolvedDependency)
  | some edges => edges.map fun edge => (findLocked packages edge.aliasName edge.package).toOption
  | none =>
    if hasWorkspaceRoots then [none]
    else (packages.filter fun entry => entry.package ∉ referencedPackages packages).map some

/-- An entry is rebuilt, at some depth. -/
def Rebuilt (packages : List ResolvedDependency) (entry : ResolvedDependency) : Prop :=
  ∃ depth built, buildLockedDependency packages depth entry = .ok built

/-- How a step of `parse_lockfile_root` ends. -/
def ending {α : Type} : Except String α → Ending
  | .ok _ => .done
  | .error message => if message = nestedTooDeeply then .tooDeep else .failed

theorem ending_eq_done {α : Type} {x : Except String α} : ending x = .done ↔ ∃ a, x = .ok a := by
  cases x with
  | ok a => simp [ending]
  | error message =>
    simp only [ending]
    split_ifs <;> simp

theorem ending_eq_tooDeep {α : Type} {x : Except String α} :
    ending x = .tooDeep ↔ x = .error nestedTooDeeply := by
  cases x with
  | ok a => simp [ending]
  | error message =>
    simp only [ending]
    split_ifs with h <;> simp [h]

theorem ending_bind_pure {α β : Type} {x : Except String α} {f : α → β} :
    ending (x >>= fun a => pure (f a)) = ending x := by
  cases x <;> rfl

theorem ending_collect {α β : Type} {f : α → Except String β} {unfold : ResolvedDependency → Ending}
    {find : α → Option ResolvedDependency} {cs : List α}
    (h : ∀ c ∈ cs, ending (f c) = match find c with
      | some entry => unfold entry
      | none => .failed) :
    ending (collect f cs) = inOrder unfold (cs.map find) := by
  induction cs with
  | nil => rfl
  | cons c cs ih =>
    have hc := h c List.mem_cons_self
    have ih := ih fun c hc => h c (List.mem_cons_of_mem _ hc)
    unfold collect
    rw [List.map_cons]
    cases hf : f c with
    | ok a =>
      rw [hf] at hc
      have hrest : ending ((collect f cs).map (a :: ·)) = ending (collect f cs) := by
        cases collect f cs <;> rfl
      cases hfind : find c with
      | none => simp [hfind, ending] at hc
      | some entry =>
        simp only [hfind] at hc
        simp only [inOrder, ← hc, ending]
        rw [← ih, ← hrest]
        rfl
    | error message =>
      rw [hf] at hc
      cases hfind : find c with
      | none =>
        simp only [hfind] at hc
        simpa [ending] using hc
      | some entry =>
        simp only [hfind] at hc
        have hne : ending (Except.error message : Except String β) ≠ .done := by
          simp [ending_eq_done]
        rw [inOrder_some, if_neg (hc ▸ hne), ← hc]
        rfl

theorem missing_ne_nestedTooDeeply (aliasName package : String) :
    s!"nomo.lock references missing dependency `{aliasName} -> {package}`" ≠ nestedTooDeeply := by
  intro h
  have hchars := congrArg (fun text => text.toList[10]?) h
  simp [nestedTooDeeply, toString] at hchars

theorem workspaceRoot_ne_nestedTooDeeply (rootId : String) :
    s!"nomo.lock does not contain workspace root `{rootId}`" ≠ nestedTooDeeply := by
  intro h
  have hchars := congrArg (fun text => text.toList[10]?) h
  simp [nestedTooDeeply, toString] at hchars

/-- Following a reference ends as rebuilding the entry that is found does. -/
theorem ending_follow {packages : List ResolvedDependency} {depth : ℕ} {aliasName package : String}
    {change : ResolvedDependency → ResolvedDependency} :
    ending (do
      let locked ← findLocked packages aliasName package
      let locked ← buildLockedDependency packages depth locked
      return change locked) =
    match (findLocked packages aliasName package).toOption with
      | some entry => ending (buildLockedDependency packages depth entry)
      | none => .failed := by
  cases hfind : findLocked packages aliasName package with
  | ok entry =>
    show ending (buildLockedDependency packages depth entry >>= fun locked => pure (change locked)) = _
    rw [ending_bind_pure]
    rfl
  | error message =>
    have hmessage : message ≠ nestedTooDeeply := by
      unfold findLocked orElse at hfind
      split at hfind
      · cases hfind
      · obtain rfl := Except.error.inj hfind
        exact missing_ne_nestedTooDeeply aliasName package
    show ending (.error message) = .failed
    simp [ending, hmessage]

/-- **Rebuilding an entry** ends as unfolding what it calls. -/
theorem ending_buildLockedDependency (packages : List ResolvedDependency) (depth : ℕ)
    (entry : ResolvedDependency) :
    ending (buildLockedDependency packages depth entry) =
      unfolding (calledEntries packages) depth entry := by
  induction depth generalizing entry with
  | zero => rfl
  | succ depth ih =>
    rw [buildLockedDependency, ending_bind_pure, unfolding]
    refine ending_collect fun child _ => ?_
    rw [ending_follow]
    cases (findLocked packages child.aliasName child.package).toOption with
    | none => rfl
    | some entry => exact ih entry

theorem ending_rootDependencies (packages : List ResolvedDependency) (depth : ℕ)
    (hasWorkspaceRoots : Bool) (rootId : String) (edges : Option (List DependencyEdge)) :
    ending (rootDependencies packages depth hasWorkspaceRoots rootId edges) =
      inOrder (unfolding (calledEntries packages) depth)
        (startEntries packages hasWorkspaceRoots edges) := by
  cases edges with
  | some edges =>
    refine ending_collect fun edge _ => ?_
    rw [ending_follow]
    cases (findLocked packages edge.aliasName edge.package).toOption with
    | none => rfl
    | some entry => exact ending_buildLockedDependency packages depth entry
  | none =>
    rw [rootDependencies, startEntries]
    split_ifs with hroots
    · simp [ending, workspaceRoot_ne_nestedTooDeeply rootId]
    · exact ending_collect fun entry _ => ending_buildLockedDependency packages depth entry

theorem rebuilt_iff_complete (packages : List ResolvedDependency) (entry : ResolvedDependency) :
    Rebuilt packages entry ↔ Complete (calledEntries packages) entry := by
  rw [← exists_done_iff_complete]
  refine exists_congr fun depth => ?_
  rw [← ending_buildLockedDependency, ending_eq_done]

/-! ## Reading ends -/

theorem mem_of_found {packages : List ResolvedDependency} {aliasName package : String}
    {entry : ResolvedDependency}
    (h : (findLocked packages aliasName package).toOption = some entry) : entry ∈ packages := by
  cases hfind : findLocked packages aliasName package with
  | ok found =>
    rw [hfind] at h
    cases h
    exact mem_of_findLocked hfind
  | error message =>
    rw [hfind] at h
    cases h

theorem mem_of_start {packages : List ResolvedDependency} {hasWorkspaceRoots : Bool}
    {edges : Option (List DependencyEdge)} {entry : ResolvedDependency}
    (h : some entry ∈ startEntries packages hasWorkspaceRoots edges) : entry ∈ packages := by
  cases edges with
  | some edges =>
    obtain ⟨edge, -, hfound⟩ := List.mem_map.1 h
    exact mem_of_found hfound
  | none =>
    rw [startEntries] at h
    split_ifs at h
    · simp at h
    · obtain ⟨found, hfound, heq⟩ := List.mem_map.1 h
      cases heq
      exact (List.mem_filter.1 hfound).1

theorem mem_of_called {packages : List ResolvedDependency} {entry next : ResolvedDependency}
    (h : some next ∈ calledEntries packages entry) : next ∈ packages := by
  obtain ⟨child, -, hfound⟩ := List.mem_map.1 h
  exact mem_of_found hfound

section Reading

variable {V R : Type} (semver : Semver V R)

/-- Reading returns: some depth is not too small. -/
def Semver.Returns (toml : Toml) (lockfile rootId : String) : Prop :=
  ∃ depth, semver.parseLockfileRoot toml depth lockfile rootId ≠ .error nestedTooDeeply

/-- No way down comes to a package twice. -/
def NeverRevisits (packages : List ResolvedDependency) (hasWorkspaceRoots : Bool)
    (edges : Option (List DependencyEdge)) : Prop :=
  ∀ stack, Stack (calledEntries packages) (Rebuilt packages)
    (startEntries packages hasWorkspaceRoots edges) stack →
      (stack.map ResolvedDependency.package).Nodup

variable {toml : Toml} {lockfile rootId : String} {document : LockfileDocument}
  {edges : Option (List DependencyEdge)} {packages : List ResolvedDependency}

/-- Once the checks have passed, reading ends as rebuilding the direct dependencies does. -/
theorem ending_parseLockfileRoot (depth : ℕ) (hdocument : toml.fromStr lockfile = .ok document)
    (hedges : rootEdges document.root rootId = .ok edges)
    (hpackages : collect semver.intoResolved document.package = .ok packages)
    (hvalid : validateLockedDependencyGraph packages = .ok ()) :
    ending (semver.parseLockfileRoot toml depth lockfile rootId) =
      inOrder (unfolding (calledEntries packages) depth)
        (startEntries packages (!document.root.isEmpty) edges) := by
  have hparsed : semver.parseLockfileRoot toml depth lockfile rootId =
      rootDependencies packages depth (!document.root.isEmpty) rootId edges >>= fun dependencies =>
        pure { dependencies, hasWorkspaceRoots := !document.root.isEmpty } := by
    unfold Semver.parseLockfileRoot
    rw [hdocument]
    show semver.lockfileRoot depth document rootId = _
    simp only [Semver.lockfileRoot, hedges, hpackages]
    show validateLockedDependencyGraph packages >>= _ = _
    rw [hvalid]
    rfl
  rw [hparsed, ending_bind_pure, ending_rootDependencies]

/-- **When reading a lockfile ends.** On a lockfile that passes the checks, reading returns and comes to
no package twice on a way down, if and only if no package that is met comes back further down,
whatever the targets of the edges. -/
theorem parseLockfileRoot_returns_iff (hdocument : toml.fromStr lockfile = .ok document)
    (hedges : rootEdges document.root rootId = .ok edges)
    (hpackages : collect semver.intoResolved document.package = .ok packages)
    (hvalid : validateLockedDependencyGraph packages = .ok ()) :
    semver.Returns toml lockfile rootId ∧ NeverRevisits packages (!document.root.isEmpty) edges ↔
      NeverReturns ResolvedDependency.package (calledEntries packages)
        (startEntries packages (!document.root.isEmpty) edges) := by
  have hpassed := rebuilt_iff_complete packages
  rw [NeverRevisits, nodup_iff_neverReturns hpassed, and_iff_right_iff_imp]
  intro hnever
  refine ⟨(packages.map ResolvedDependency.package).length + 1, fun herror => ?_⟩
  have hdeep := ending_parseLockfileRoot semver ((packages.map ResolvedDependency.package).length + 1)
    hdocument hedges hpackages hvalid
  rw [ending_eq_tooDeep.2 herror] at hdeep
  refine inOrder_ne_tooDeep hpassed ?_ ?_ ((nodup_iff_neverReturns hpassed).2 hnever) hdeep.symm
  · exact fun entry hentry => List.mem_map_of_mem (mem_of_start hentry)
  · exact fun entry next hnext => List.mem_map_of_mem (mem_of_called hnext)

end Reading

/-! ## Cycles that a target has -/

/-- **Only a cycle that no target has** is not found: if one target has every edge, then no package
comes back. -/
theorem neverReturns_of_target {packages : List ResolvedDependency} {hasWorkspaceRoots : Bool}
    {edges : Option (List DependencyEdge)} {target : TargetTriple}
    (hvalid : validateLockedDependencyGraph packages = .ok ())
    (htarget : target ∈ TargetTriple.supported)
    (hmatches : ∀ package ∈ packages, ∀ child ∈ package.dependencies,
      child.target.matches target = true) :
    NeverReturns ResolvedDependency.package (calledEntries packages)
      (startEntries packages hasWorkspaceRoots edges) := by
  obtain ⟨hclosed, hedge⟩ := lockedGraph_spec packages target
  have hacyclic : (lockedGraph packages target).Acyclic := by
    have hcheck := each_eq_ok.1 hvalid target htarget
    refine DirectedGraph.acyclic_of_findCycle hclosed ?_
    split at hcheck <;> first | assumption | cases hcheck
  have hstep : ∀ {entry next : ResolvedDependency}, entry ∈ packages →
      some next ∈ calledEntries packages entry →
      (lockedGraph packages target).Edge entry.package next.package := by
    intro entry next hentry hnext
    obtain ⟨child, hchild, hfound⟩ := List.mem_map.1 hnext
    refine (hedge _ _).2 ⟨entry, hentry, rfl, child, hchild, hmatches entry hentry child hchild, ?_⟩
    cases hfind : findLocked packages child.aliasName child.package with
    | ok found =>
      rw [hfind] at hfound
      cases hfound
      exact (package_of_findLocked hfind).symm
    | error message =>
      rw [hfind] at hfound
      cases hfound
  intro start entry next hstart hreach hreturn heq
  have hentry : entry ∈ packages := by
    rcases Relation.ReflTransGen.cases_tail hreach with rfl | ⟨_, -, hturn⟩
    · exact mem_of_start hstart.mem
    · exact mem_of_called hturn.mem
  have hedges : ∀ {other : ResolvedDependency},
      Relation.TransGen (fun entry => Turn (Complete (calledEntries packages))
        (calledEntries packages entry)) entry other →
      other ∈ packages ∧
        Relation.TransGen (lockedGraph packages target).Edge entry.package other.package := by
    intro other hother
    induction hother with
    | single hturn => exact ⟨mem_of_called hturn.mem, .single (hstep hentry hturn.mem)⟩
    | tail _ hturn ih => exact ⟨mem_of_called hturn.mem, ih.2.tail (hstep ih.1 hturn.mem)⟩
  exact hacyclic entry.package (heq ▸ (hedges hreturn).2)

/-! ## A cycle between two targets -/

namespace Sample

/-- An edge that is there for one system. -/
def edgeOn (os name : String) : LockDependencyEntry :=
  .conditional name ("acme/" ++ name) { os := [os] }

/-- A library in a directory of its own, with one dependency. -/
def libraryUsing (name : String) (dependency : LockDependencyEntry) : LockPackage where
  id := "acme/" ++ name
  aliasName := name
  version := none
  source := "path+" ++ name
  branch := none
  tag := none
  rev := none
  checksum := none
  supplyChain := none
  dependencies := [dependency]

/-- `json` uses `util` on Linux, and `util` uses `json` on Windows. -/
def cyclic : LockfileDocument where
  root := [⟨"acme/app", [.legacy "json -> acme/json"]⟩]
  package := [libraryUsing "json" (edgeOn "linux" "util"),
    libraryUsing "util" (edgeOn "windows" "json")]

def cyclicToml : String :=
  let package (name : String) : String :=
    "\n[[package]]\nid = \"acme/" ++ name ++ "\"\nalias = \"" ++ name ++ "\"\nsource = \"path+" ++ name
      ++ "\"\n"
  let edge (name os : String) : String :=
    "\n[[package.dependencies]]\nalias = \"" ++ name ++ "\"\npackage = \"acme/" ++ name
      ++ "\"\ntarget = \x7b os = [\"" ++ os ++ "\"] \x7d\n"
  "[[root]]\nid = \"acme/app\"\ndependencies = [\"json -> acme/json\"]\n" ++
    package "json" ++ edge "util" "linux" ++ package "util" ++ edge "json" "windows"

/-- The toml crate on the lockfile with the cycle. -/
def tomlCyclic : Toml where
  toString _ := cyclicToml
  fromStr text := if text = cyclicToml then .ok cyclic else .error "expected another lockfile"

/-- The entry of a library of the cycle. -/
def cyclicEntry (name other os : String) : ResolvedDependency where
  aliasName := name
  package := "acme/" ++ name
  source := .path name
  checksum := none
  supplyChain := none
  target := {}
  dependencies := [placeholder ⟨other, "acme/" ++ other, { os := [os] }⟩]

def cyclicEntries : List ResolvedDependency :=
  [cyclicEntry "json" "util" "linux", cyclicEntry "util" "json" "windows"]

def cyclicEdges : List DependencyEdge := [⟨"json", "acme/json", {}⟩]

theorem cyclic_passes :
    tomlCyclic.fromStr cyclicToml = .ok cyclic ∧
    rootEdges cyclic.root "acme/app" = .ok (some cyclicEdges) ∧
    validateLockedDependencyGraph cyclicEntries = .ok () := by
  decide +kernel

theorem cyclic_entries :
    collect Semver.rejecting.intoResolved cyclic.package = .ok cyclicEntries := by
  rfl

theorem unfolding_cyclic (depth : ℕ) :
    unfolding (calledEntries cyclicEntries) depth (cyclicEntry "json" "util" "linux") = .tooDeep ∧
    unfolding (calledEntries cyclicEntries) depth (cyclicEntry "util" "json" "windows") = .tooDeep := by
  have hjson : calledEntries cyclicEntries (cyclicEntry "json" "util" "linux") =
      [some (cyclicEntry "util" "json" "windows")] := by rfl
  have hutil : calledEntries cyclicEntries (cyclicEntry "util" "json" "windows") =
      [some (cyclicEntry "json" "util" "linux")] := by rfl
  induction depth with
  | zero => exact ⟨rfl, rfl⟩
  | succ depth ih =>
    constructor
    · rw [unfolding, hjson, inOrder, ih.2]
    · rw [unfolding, hutil, inOrder, ih.1]

/-- The same entries without the edge on Windows. -/
def linuxEntries : List ResolvedDependency :=
  [cyclicEntry "json" "util" "linux", { cyclicEntry "util" "json" "linux" with dependencies := [] }]

end Sample

open Sample

theorem neverReturns_of_target_linux : NeverReturns ResolvedDependency.package
    (calledEntries linuxEntries) (startEntries linuxEntries true (some cyclicEdges)) :=
  have htarget : ⟨"x86_64", "unknown", "linux", "gnu"⟩ ∈ TargetTriple.supported := by decide +kernel
  neverReturns_of_target (by decide +kernel) htarget (by decide +kernel)

/-- The lockfile with the cycle passes every check, and reading it does not return. -/
theorem cyclic_never_returns :
    rootEdges cyclic.root "acme/app" = .ok (some cyclicEdges) ∧
    collect Semver.rejecting.intoResolved cyclic.package = .ok cyclicEntries ∧
    validateLockedDependencyGraph cyclicEntries = .ok () ∧
    ¬ Semver.rejecting.Returns tomlCyclic cyclicToml "acme/app" := by
  refine ⟨cyclic_passes.2.1, cyclic_entries, cyclic_passes.2.2, ?_⟩
  rintro ⟨depth, hreturns⟩
  have hending := ending_parseLockfileRoot .rejecting depth cyclic_passes.1 cyclic_passes.2.1
    cyclic_entries cyclic_passes.2.2
  have hstarts : startEntries cyclicEntries (!cyclic.root.isEmpty) (some cyclicEdges) =
      [some (cyclicEntry "json" "util" "linux")] := by rfl
  rw [hstarts, inOrder, (unfolding_cyclic depth).1, ending_eq_tooDeep] at hending
  exact hreturns hending

/-- On the lockfile with the cycle, a package comes back. -/
theorem parseLockfileRoot_returns_iff_cyclic :
    Semver.rejecting.Returns tomlCyclic cyclicToml "acme/app" ∧
      NeverRevisits cyclicEntries (!cyclic.root.isEmpty) (some cyclicEdges) ↔
    NeverReturns ResolvedDependency.package (calledEntries cyclicEntries)
      (startEntries cyclicEntries (!cyclic.root.isEmpty) (some cyclicEdges)) :=
  parseLockfileRoot_returns_iff .rejecting cyclic_passes.1 cyclic_passes.2.1 cyclic_entries
    cyclic_passes.2.2

end Nomo.Deps
