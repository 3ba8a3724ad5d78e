import Nomo.Deps.RoundTrip
import Nomo.Lib.Index

/-!
# The lockfile of a workspace

`render_workspace_lockfile` (`nomo_lockfile/src/lib.rs:61–103`) writes several graphs into one table
of packages, one entry for each alias and package, and a list of direct dependencies for each root.

`workspace_readsBack_iff`: each root is read back as it was, if and only if the graphs agree on what an
alias and a package stand for, no registry has the name of a package it serves, and no target has a
cycle in the table.
-/

namespace Nomo.Deps

open Nomo.Lib Nomo.Lib.Checked Nomo.Lib.WriteOnce Nomo.SupplyChain Nomo.Resolver

/-! ## Rendering -/

/-- The tables that `render_workspace_lockfile` fills. -/
structure WorkspaceTable where
  rootIds : Std.TreeSet String := ∅
  packages : Std.TreeMap (String ×ₗ String) LockPackage := ∅
  packageSources : Std.TreeMap String DependencySource := ∅
  roots : List LockRoot := []

/-- The key of a package: its alias and its id. -/
def lockKey (dependency : ResolvedDependency) : String ×ₗ String :=
  toLex (dependency.aliasName, dependency.package)

namespace WorkspaceTable

/-- `remember_package_source`. -/
def rememberPackageSource (seen : Std.TreeMap String DependencySource)
    (dependency : ResolvedDependency) : Except String (Std.TreeMap String DependencySource) :=
  put seen dependency.package dependency.source
    s!"workspace lockfile has conflicting sources for package `{dependency.package}`"

/-- The entry of a dependency: `render_workspace_lockfile`, lines 81–95. -/
def addPackage (packages : Std.TreeMap (String ×ₗ String) LockPackage)
    (dependency : ResolvedDependency) : Except String (Std.TreeMap (String ×ₗ String) LockPackage) :=
  put packages (lockKey dependency) (.fromResolved dependency)
    s!"workspace lockfile has conflicting entries for `{dependency.aliasName} -> {dependency.package}`"

/-- One round of the inner loop. -/
def addDependency (table : WorkspaceTable) (dependency : ResolvedDependency) :
    Except String WorkspaceTable := do
  let packageSources ← rememberPackageSource table.packageSources dependency
  let packages ← addPackage table.packages dependency
  return { table with packageSources, packages }

/-- One round of the outer loop. -/
def addGraph (table : WorkspaceTable) (graph : DependencyGraph) : Except String WorkspaceTable := do
  require (graph.root.id ∉ table.rootIds)
    s!"workspace lockfile has duplicate root package `{graph.root.id}`"
  (flattenDependencies graph.dependencies).foldlM addDependency
    { table with
      rootIds := table.rootIds.insert graph.root.id
      roots := table.roots ++ [.fromGraph graph] }

/-- The document of the tables. -/
def document (table : WorkspaceTable) : LockfileDocument where
  root := table.roots
  package := table.packages.toList.map Prod.snd

end WorkspaceTable

/-- The document of `render_workspace_lockfile`. -/
def workspaceDocument (graphs : List DependencyGraph) : Except String LockfileDocument := do
  let table ← graphs.foldlM WorkspaceTable.addGraph {}
  return table.document

/-- `render_workspace_lockfile`. -/
def renderWorkspaceLockfile (toml : Toml) (graphs : List DependencyGraph) : Except String String := do
  let document ← workspaceDocument graphs
  return lockfileHeader ++ toml.toString document

/-! ## What the tables hold -/

/-- The nodes of all graphs. -/
def workspaceNodes (graphs : List DependencyGraph) : List ResolvedDependency :=
  graphs.flatMap DependencyGraph.nodes

/-- The tables hold nodes. -/
structure HoldsNodes (table : WorkspaceTable) (nodes : List ResolvedDependency) : Prop where
  sources : Has ResolvedDependency.package ResolvedDependency.source nodes table.packageSources
  packages : Has lockKey LockPackage.fromResolved nodes table.packages

/-- The tables hold the graphs gone through. -/
structure HoldsGraphs (table : WorkspaceTable) (graphs : List DependencyGraph) : Prop
    extends HoldsNodes table (workspaceNodes graphs) where
  rootIds : ∀ id, id ∈ table.rootIds ↔ ∃ graph ∈ graphs, graph.root.id = id
  roots : table.roots = graphs.map .fromGraph

/-- A package has one source. -/
def OneSource (nodes : List ResolvedDependency) : Prop :=
  ∀ node ∈ nodes, ∀ other ∈ nodes, node.package = other.package → node.source = other.source

/-- An alias and a package stand for one entry. -/
def OneEntry (nodes : List ResolvedDependency) : Prop :=
  ∀ node ∈ nodes, ∀ other ∈ nodes, lockKey node = lockKey other →
    LockPackage.fromResolved node = LockPackage.fromResolved other

theorem lockKey_eq_iff {node other : ResolvedDependency} :
    lockKey node = lockKey other ↔
      node.aliasName = other.aliasName ∧ node.package = other.package := by
  simp [lockKey]

theorem HoldsNodes.agree {table : WorkspaceTable} {nodes : List ResolvedDependency}
    (h : HoldsNodes table nodes) : OneSource nodes ∧ OneEntry nodes :=
  ⟨fun _ hnode _ hother => h.sources.agree hnode hother,
    fun _ hnode _ hother => h.packages.agree hnode hother⟩

theorem HoldsNodes.addDependency {table table' : WorkspaceTable} {nodes : List ResolvedDependency}
    {node : ResolvedDependency} (h : HoldsNodes table nodes)
    (hadd : table.addDependency node = .ok table') :
    HoldsNodes table' (nodes ++ [node]) ∧ table'.rootIds = table.rootIds ∧
      table'.roots = table.roots := by
  simp only [WorkspaceTable.addDependency, bind_eq_ok, pure_eq_ok] at hadd
  obtain ⟨sources, hsources, packages, hpackages, rfl⟩ := hadd
  exact ⟨⟨h.sources.put hsources, h.packages.put hpackages⟩, rfl, rfl⟩

theorem HoldsNodes.addDependencies {more : List ResolvedDependency} {table table' : WorkspaceTable}
    {nodes : List ResolvedDependency} (h : HoldsNodes table nodes)
    (hadd : more.foldlM WorkspaceTable.addDependency table = .ok table') :
    HoldsNodes table' (nodes ++ more) ∧ table'.rootIds = table.rootIds ∧
      table'.roots = table.roots := by
  induction more generalizing table nodes with
  | nil =>
    cases hadd
    exact ⟨by simpa using h, rfl, rfl⟩
  | cons node more ih =>
    rw [List.foldlM_cons, bind_eq_ok] at hadd
    obtain ⟨next, hnext, hadd⟩ := hadd
    obtain ⟨hholds, hids, hroots⟩ := h.addDependency hnext
    obtain ⟨hholds', hids', hroots'⟩ := ih hholds hadd
    exact ⟨by simpa using hholds', hids'.trans hids, hroots'.trans hroots⟩

theorem HoldsNodes.exists_addDependencies {more : List ResolvedDependency} {table : WorkspaceTable}
    {nodes : List ResolvedDependency} (h : HoldsNodes table nodes)
    (hsource : OneSource (nodes ++ more)) (hentry : OneEntry (nodes ++ more)) :
    ∃ table', more.foldlM WorkspaceTable.addDependency table = .ok table' := by
  induction more generalizing table nodes with
  | nil => exact ⟨table, rfl⟩
  | cons node more ih =>
    have hmem : node ∈ nodes ++ node :: more := by simp
    obtain ⟨sources, hsources⟩ := h.sources.exists_put node
      s!"workspace lockfile has conflicting sources for package `{node.package}`"
      fun other hother hkey => hsource other (List.mem_append_left _ hother) node hmem hkey
    obtain ⟨packages, hpackages⟩ := h.packages.exists_put node
      s!"workspace lockfile has conflicting entries for `{node.aliasName} -> {node.package}`"
      fun other hother hkey => hentry other (List.mem_append_left _ hother) node hmem hkey
    have hnext : table.addDependency node =
        .ok { table with packageSources := sources, packages := packages } := by
      simp only [WorkspaceTable.addDependency, bind_eq_ok, pure_eq_ok]
      exact ⟨sources, hsources, packages, hpackages, rfl⟩
    rw [List.append_cons] at hsource hentry
    obtain ⟨table', htable'⟩ := ih (h.addDependency hnext).1 hsource hentry
    exact ⟨table', by rw [List.foldlM_cons, hnext]; exact htable'⟩

theorem holdsGraphs_nil : HoldsGraphs {} [] where
  sources := has_nil
  packages := has_nil
  rootIds := by simp
  roots := rfl

theorem workspaceNodes_snoc (graphs : List DependencyGraph) (graph : DependencyGraph) :
    workspaceNodes (graphs ++ [graph]) =
      workspaceNodes graphs ++ flattenDependencies graph.dependencies := by
  simp [workspaceNodes, DependencyGraph.nodes]

theorem HoldsGraphs.addGraph {table table' : WorkspaceTable} {graphs : List DependencyGraph}
    {graph : DependencyGraph} (h : HoldsGraphs table graphs)
    (hadd : table.addGraph graph = .ok table') : HoldsGraphs table' (graphs ++ [graph]) := by
  simp only [WorkspaceTable.addGraph, bind_eq_ok, require_eq_ok] at hadd
  obtain ⟨-, -, hadd⟩ := hadd
  have hstart : HoldsNodes { table with
      rootIds := table.rootIds.insert graph.root.id
      roots := table.roots ++ [.fromGraph graph] } (workspaceNodes graphs) := ⟨h.sources, h.packages⟩
  obtain ⟨hholds, hids, hroots⟩ := hstart.addDependencies hadd
  rw [← workspaceNodes_snoc] at hholds
  refine ⟨hholds, fun id => ?_, ?_⟩
  · rw [hids]
    simp only [Std.TreeSet.mem_insert, Std.LawfulEqCmp.compare_eq_iff_eq, h.rootIds,
      List.mem_append, List.mem_singleton, or_and_right, exists_or, exists_eq_left]
    exact or_comm
  · rw [hroots, h.roots, List.map_append]
    rfl

theorem HoldsGraphs.addGraphs {more : List DependencyGraph} {table table' : WorkspaceTable}
    {graphs : List DependencyGraph} (h : HoldsGraphs table graphs)
    (hadd : more.foldlM WorkspaceTable.addGraph table = .ok table') :
    HoldsGraphs table' (graphs ++ more) := by
  induction more generalizing table graphs with
  | nil =>
    cases hadd
    simpa using h
  | cons graph more ih =>
    rw [List.foldlM_cons, bind_eq_ok] at hadd
    obtain ⟨next, hnext, hadd⟩ := hadd
    simpa using ih (h.addGraph hnext) hadd

theorem HoldsGraphs.exists_addGraphs {more : List DependencyGraph} {table : WorkspaceTable}
    {graphs : List DependencyGraph} (h : HoldsGraphs table graphs)
    (hids : ((graphs ++ more).map (·.root.id)).Nodup)
    (hsource : OneSource (workspaceNodes (graphs ++ more)))
    (hentry : OneEntry (workspaceNodes (graphs ++ more))) :
    ∃ table', more.foldlM WorkspaceTable.addGraph table = .ok table' := by
  induction more generalizing table graphs with
  | nil => exact ⟨table, rfl⟩
  | cons graph more ih =>
    rw [List.append_cons] at hids hsource hentry
    have hnew : graph.root.id ∉ table.rootIds := by
      rw [h.rootIds]
      rintro ⟨other, hother, heq⟩
      rw [List.map_append, List.map_append, List.append_assoc] at hids
      exact (List.nodup_append.1 hids).2.2 other.root.id (List.mem_map_of_mem hother) graph.root.id
        (by simp) heq
    have hfewer : workspaceNodes graphs ++ flattenDependencies graph.dependencies ⊆
        workspaceNodes (graphs ++ [graph] ++ more) := by
      rw [← workspaceNodes_snoc]
      unfold workspaceNodes
      rw [@List.flatMap_append _ _ (graphs ++ [graph])]
      exact List.subset_append_left _ _
    have hstart : HoldsNodes { table with
        rootIds := table.rootIds.insert graph.root.id
        roots := table.roots ++ [.fromGraph graph] } (workspaceNodes graphs) :=
      ⟨h.sources, h.packages⟩
    obtain ⟨next, hnext⟩ := hstart.exists_addDependencies
      (fun node hnode other hother => hsource node (hfewer hnode) other (hfewer hother))
      (fun node hnode other hother => hentry node (hfewer hnode) other (hfewer hother))
    have hadded : table.addGraph graph = .ok next := by
      simp only [WorkspaceTable.addGraph, bind_eq_ok, require_eq_ok]
      exact ⟨(), hnew, hnext⟩
    obtain ⟨table', htable'⟩ := ih (h.addGraph hadded) hids hsource hentry
    exact ⟨table', by rw [List.foldlM_cons, hadded]; exact htable'⟩

/-! ## Reading a root -/

/-- One package of the workspace depends on another, for a target. -/
def DependsFor (nodes : List ResolvedDependency) (target : TargetTriple) (package other : String) :
    Prop :=
  ∃ node ∈ nodes, node.package = package ∧
    ∃ child ∈ node.dependencies, child.target.matches target = true ∧ child.package = other

/-- What the table of a workspace keeps of its graphs. -/
structure WorkspaceRecoverable (nodes : List ResolvedDependency) : Prop where
  /-- An alias and a package stand for one entry: one version and source, one checksum, the same
  evidence and the same edges. -/
  entry : OneEntry nodes
  /-- No registry has the name of a package it serves. -/
  named : ∀ node ∈ nodes, ∀ version, node.source ≠ .registry version (some node.package)
  /-- For no target does a package depend on itself, directly or through others. -/
  acyclic : ∀ target ∈ TargetTriple.supported, ∀ package,
    ¬ Relation.TransGen (DependsFor nodes target) package package

theorem edge_lockedGraph {listed : List ResolvedDependency} {target : TargetTriple} {a b : String} :
    (lockedGraph (listed.map lockedEntry) target).Edge a b ↔ DependsFor listed target a b := by
  rw [(lockedGraph_spec _ target).2]
  unfold DependsFor
  simp [lockedEntry, placeholder, ResolvedDependency.edge]

theorem validate_iff_acyclic {listed : List ResolvedDependency} :
    validateLockedDependencyGraph (listed.map lockedEntry) = .ok () ↔
      ∀ target ∈ TargetTriple.supported, ∀ package,
        ¬ Relation.TransGen (DependsFor listed target) package package := by
  unfold validateLockedDependencyGraph
  rw [each_eq_ok]
  refine forall₂_congr fun target _ => ?_
  have hclosed := (lockedGraph_spec (listed.map lockedEntry) target).1
  have hedge : (lockedGraph (listed.map lockedEntry) target).Edge = DependsFor listed target :=
    funext fun a => funext fun b => propext edge_lockedGraph
  show _ ↔ ∀ package, ¬ Relation.TransGen (DependsFor listed target) package package
  rw [← hedge]
  constructor
  · intro hcheck
    refine DirectedGraph.acyclic_of_findCycle hclosed ?_
    split at hcheck <;> first | assumption | cases hcheck
  · intro hacyclic
    rw [DirectedGraph.findCycle_of_acyclic hacyclic hclosed]

section RoundTrip

variable {V R : Type} (semver : Semver V R)

/-- Every root of the workspace is read back as it was. -/
def Semver.ReadsBackAll (toml : Toml) (depth : ℕ) (graphs : List DependencyGraph) : Prop :=
  ∃ lockfile, renderWorkspaceLockfile toml graphs = .ok lockfile ∧ ∀ graph ∈ graphs,
    semver.parseLockfileRoot toml depth lockfile graph.root.id =
      .ok { dependencies := graph.dependencies, hasWorkspaceRoots := true }

variable {toml : Toml} {graphs : List DependencyGraph} {depth : ℕ}

theorem rootEdges_workspace (hids : (graphs.map (·.root.id)).Nodup)
    (hroots : ∀ graph ∈ graphs, validatePackageId graph.root.id = .ok ())
    (hnodes : ∀ node ∈ workspaceNodes graphs, WellFormed semver node) {graph : DependencyGraph}
    (hgraph : graph ∈ graphs) :
    rootEdges (graphs.map .fromGraph) graph.root.id =
      .ok (some (graph.dependencies.map ResolvedDependency.edge)) := by
  have hdirect (dependency) (h : dependency ∈ graph.dependencies) : WellFormed semver dependency := hnodes dependency (List.mem_flatMap.2 ⟨graph, hgraph,
      DependencyGraph.mem_nodes.mpr (.inl h)⟩)
  have hfind : (graphs.map LockRoot.fromGraph).find? (·.id = graph.root.id) = some (.fromGraph graph) := by
    obtain ⟨before, after, rfl⟩ := List.append_of_mem hgraph
    rw [List.map_append, List.map_cons] at hids ⊢
    refine List.find?_eq_some_iff_append.2 ⟨by simp [LockRoot.fromGraph], _, _, rfl, ?_⟩
    intro root hroot
    obtain ⟨other, hother, rfl⟩ := List.mem_map.1 hroot
    have hne := (List.nodup_append.1 hids).2.2 other.root.id
      (List.mem_map_of_mem (f := (·.root.id)) hother) graph.root.id List.mem_cons_self
    show (!decide (other.root.id = graph.root.id)) = true
    rw [decide_eq_false hne]
    rfl
  unfold rootEdges
  rw [hfind]
  show some <$> (LockRoot.fromGraph graph).dependencyEdges = _
  have hedges : (LockRoot.fromGraph graph).dependencyEdges =
      .ok (graph.dependencies.map ResolvedDependency.edge) := by
    have hdependencies : (LockRoot.fromGraph graph).dependencies =
        graph.dependencies.map .fromResolved := rfl
    have hid : (LockRoot.fromGraph graph).id = graph.root.id := rfl
    simp only [LockRoot.dependencyEdges, hid, hdependencies, bind_eq_ok]
    exact ⟨(), hroots graph hgraph, collect_intoEdge semver hdirect⟩
  rw [hedges]
  rfl

/-- The entries of the table, as they are read: each node's, and no others. -/
theorem exists_listed {table : WorkspaceTable} (htable : HoldsGraphs table graphs)
    (hnodes : ∀ node ∈ workspaceNodes graphs, WellFormed semver node) :
    ∃ listed : List ResolvedDependency, listed ⊆ workspaceNodes graphs ∧
      collect semver.intoResolved table.document.package = .ok (listed.map lockedEntry) ∧
      ∀ node ∈ workspaceNodes graphs, ∃ other ∈ listed,
        LockPackage.fromResolved other = LockPackage.fromResolved node := by
  have hvalues (package) : package ∈ table.document.package ↔ _ := htable.packages.mem_values
  have hlisted : ∃ listed : List ResolvedDependency, listed ⊆ workspaceNodes graphs ∧
      listed.map LockPackage.fromResolved = table.document.package := by
    have hall : ∀ package ∈ table.document.package, ∃ node ∈ workspaceNodes graphs,
        LockPackage.fromResolved node = package := fun package h => (hvalues package).1 h
    revert hall
    generalize table.document.package = packages
    intro hall
    induction packages with
    | nil => exact ⟨[], by simp, rfl⟩
    | cons package packages ih =>
      obtain ⟨node, hnode, hpackage⟩ := hall package List.mem_cons_self
      obtain ⟨listed, hsubset, hmap⟩ := ih fun other h => hall other (List.mem_cons_of_mem _ h)
      exact ⟨node :: listed, List.cons_subset.2 ⟨hnode, hsubset⟩, by rw [List.map_cons, hpackage, hmap]⟩
  obtain ⟨listed, hsubset, hmap⟩ := hlisted
  refine ⟨listed, hsubset, ?_, fun node hnode => ?_⟩
  · rw [← hmap, collect_eq_ok_iff, List.forall₂_map_left_iff, List.forall₂_map_right_iff, List.forall₂_same]
    intro node hnode
    obtain ⟨graph, hgraph, hmem⟩ := List.mem_flatMap.1 (hsubset hnode)
    refine intoResolved_fromResolved semver (hnodes node (hsubset hnode)) fun child hchild => ?_
    exact hnodes child (List.mem_flatMap.2 ⟨graph, hgraph, mem_of_child hmem hchild⟩)
  · have hvalue : LockPackage.fromResolved node ∈ listed.map LockPackage.fromResolved := by
      rw [hmap]
      exact (hvalues _).2 ⟨node, hnode, rfl⟩
    obtain ⟨other, hother, heq⟩ := List.mem_map.1 hvalue
    exact ⟨other, hother, heq⟩

theorem lockedEntry_eq_of_fromResolved (hnodes : ∀ node ∈ workspaceNodes graphs, WellFormed semver node)
    {node other : ResolvedDependency} (hnode : node ∈ workspaceNodes graphs)
    (hother : other ∈ workspaceNodes graphs)
    (heq : LockPackage.fromResolved node = LockPackage.fromResolved other) :
    lockedEntry node = lockedEntry other := by
  have hread : ∀ node ∈ workspaceNodes graphs,
      semver.intoResolved (.fromResolved node) = .ok (lockedEntry node) := by
    intro node hnode
    obtain ⟨graph, hgraph, hmem⟩ := List.mem_flatMap.1 hnode
    refine intoResolved_fromResolved semver (hnodes node hnode) fun child hchild => ?_
    exact hnodes child (List.mem_flatMap.2 ⟨graph, hgraph, mem_of_child hmem hchild⟩)
  have hnode' := hread node hnode
  rw [heq, hread other hother] at hnode'
  exact (Except.ok.inj hnode').symm

theorem dependsFor_iff {nodes : List ResolvedDependency} {target : TargetTriple} {a b : String} :
    DependsFor nodes target a b ↔ ∃ entry ∈ nodes.map lockedEntry, entry.package = a ∧
      ∃ child ∈ entry.dependencies, child.target.matches target = true ∧ child.package = b := by
  rw [← edge_lockedGraph, (lockedGraph_spec _ target).2]

/-- Reading a root of the workspace checks the table and rebuilds the trees of its edges. -/
theorem parseLockfileRoot_workspace (hids : (graphs.map (·.root.id)).Nodup)
    (hroots : ∀ graph ∈ graphs, validatePackageId graph.root.id = .ok ())
    (hnodes : ∀ node ∈ workspaceNodes graphs, WellFormed semver node)
    {table : WorkspaceTable} (htable : HoldsGraphs table graphs) {lockfile : String}
    (htoml : toml.fromStr lockfile = .ok table.document) {listed : List ResolvedDependency}
    (hlisted : collect semver.intoResolved table.document.package = .ok (listed.map lockedEntry))
    {graph : DependencyGraph} (hgraph : graph ∈ graphs) (dependencies : List ResolvedDependency) :
    semver.parseLockfileRoot toml depth lockfile graph.root.id =
        .ok { dependencies, hasWorkspaceRoots := true } ↔
      validateLockedDependencyGraph (listed.map lockedEntry) = .ok () ∧
        buildLockedDependenciesFromEdges (listed.map lockedEntry) depth
          (graph.dependencies.map ResolvedDependency.edge) = .ok dependencies := by
  have hedges := rootEdges_workspace semver hids hroots hnodes hgraph
  rw [← htable.roots] at hedges
  have hlisted_roots : (!table.roots.isEmpty) = true := by
    rw [htable.roots]
    cases graphs with
    | nil => cases hgraph
    | cons => rfl
  have hdocument : semver.parseLockfileRoot toml depth lockfile graph.root.id =
      semver.lockfileRoot depth table.document graph.root.id := by
    unfold Semver.parseLockfileRoot
    rw [htoml]
    rfl
  have hroot : table.document.root = table.roots := rfl
  simp only [hdocument, Semver.lockfileRoot, hroot, hedges, hlisted, hlisted_roots, bind_eq_ok,
    pure_eq_ok, Except.ok.injEq, exists_eq_left', rootDependencies]
  constructor
  · rintro ⟨_, hvalid, found, hfound, heq⟩
    obtain rfl := (ParsedLockfileRoot.mk.inj heq).1
    exact ⟨hvalid, hfound⟩
  · rintro ⟨hvalid, hfound⟩
    exact ⟨(), hvalid, dependencies, hfound, rfl⟩

theorem WorkspaceRecoverable.build (h : WorkspaceRecoverable (workspaceNodes graphs))
    (hnodes : ∀ node ∈ workspaceNodes graphs, WellFormed semver node)
    (hdepth : (workspaceNodes graphs).length < depth) {listed : List ResolvedDependency}
    (hsubset : listed ⊆ workspaceNodes graphs)
    (hlisted : ∀ node ∈ workspaceNodes graphs, ∃ other ∈ listed,
      LockPackage.fromResolved other = LockPackage.fromResolved node)
    {graph : DependencyGraph} (hgraph : graph ∈ graphs) :
    buildLockedDependenciesFromEdges (listed.map lockedEntry) depth
      (graph.dependencies.map ResolvedDependency.edge) = .ok graph.dependencies := by
  have hmem : ∀ {node}, node ∈ graph.nodes → node ∈ workspaceNodes graphs :=
    fun hnode => List.mem_flatMap.2 ⟨graph, hgraph, hnode⟩
  have hfind : ∀ node ∈ workspaceNodes graphs,
      findLocked (listed.map lockedEntry) node.aliasName node.package = .ok (lockedEntry node) := by
    intro node hnode
    obtain ⟨own, hown, heq⟩ := hlisted node hnode
    have hsame := lockedEntry_eq_of_fromResolved semver hnodes (hsubset hown) hnode heq
    obtain ⟨other, hother, hpackage, halias, hfound⟩ := findLocked_of_mem hown
    have hkey : lockKey other = lockKey own := lockKey_eq_iff.2 ⟨halias, hpackage⟩
    have hentry := h.entry other (hsubset hother) own (hsubset hown) hkey
    have hnode_alias : node.aliasName = own.aliasName :=
      (congrArg ResolvedDependency.aliasName hsame).symm
    have hnode_package : node.package = own.package :=
      (congrArg ResolvedDependency.package hsame).symm
    rw [hnode_alias, hnode_package, hfound,
      lockedEntry_eq_of_fromResolved semver hnodes (hsubset hother) (hsubset hown) hentry, hsame]
  unfold buildLockedDependenciesFromEdges
  rw [collect_eq_ok_iff, List.forall₂_map_left_iff, List.forall₂_same]
  intro dependency hdependency
  have hbelow (node) (hnode : node ∈ flattenDependency dependency) : node ∈ graph.nodes := mem_flattenDependencies.mpr ⟨dependency, hdependency, hnode⟩
  have hlength : (flattenDependency dependency).length < depth := by
    have hdirect := length_flattenDependency_le hdependency
    have hgraphs : graph.nodes.length ≤ (workspaceNodes graphs).length :=
      (List.sublist_flatten_of_mem (List.mem_map_of_mem hgraph)).length_le
    exact (hdirect.trans hgraphs).trans_lt hdepth
  have hbuilt : buildLockedDependency (listed.map lockedEntry) depth (lockedEntry dependency) =
      .ok { dependency with target := {} } := by
    refine buildLockedDependency_lockedEntry ?_ ?_ hlength
    · intro child hchild
      refine hfind child (hmem (hbelow child ?_))
      rw [flattenDependency_eq]
      exact List.mem_cons_of_mem _ hchild
    · exact fun other hother => relocked_eq_iff.mpr (h.named other (hmem (hbelow other hother)))
  simp only [bind_eq_ok, pure_eq_ok]
  refine ⟨_, hfind dependency (hmem (hbelow dependency (mem_flattenDependency_self dependency))), _,
    hbuilt, ?_⟩
  cases dependency
  rfl

end RoundTrip

/-! ## Two members that use each other's libraries -/

namespace Sample

/-- A library under an alias of its user's choice. -/
def renamed (aliasName : String) (dependency : ResolvedDependency) : ResolvedDependency :=
  { dependency with aliasName }

/-- A member of the workspace. -/
def memberUsing (name : String) (dependencies : List ResolvedDependency) : DependencyGraph where
  root := { packageNamespace := "acme", name, version := "0.1.0", edition := "2026" }
  dependencies

/-- In `app`, `json` uses `util`; in `tool`, `util` uses `json`, both under other aliases. -/
def crossed : List DependencyGraph :=
  [memberUsing "app" [library "json" [library "util" []]],
    memberUsing "tool" [renamed "helper" (library "util" [renamed "parser" (library "json" [])])]]

/-- In `app`, `json` uses `util`; in `tool`, it uses nothing. -/
def conflicting : List DependencyGraph :=
  [memberUsing "app" [library "json" [library "util" []]], memberUsing "tool" [library "json" []]]

def crossedDocument : LockfileDocument where
  root := crossed.map .fromGraph
  package :=
    [renamed "helper" (library "util" [renamed "parser" (library "json" [])]),
      library "json" [library "util" []], renamed "parser" (library "json" []),
      library "util" []].map .fromResolved

def crossedToml : String :=
  let root (name edge : String) : String :=
    "[[root]]\nid = \"acme/" ++ name ++ "\"\ndependencies = [\"" ++ edge ++ "\"]\n\n"
  let package (aliasName name dependencies : String) : String :=
    "[[package]]\nid = \"acme/" ++ name ++ "\"\nalias = \"" ++ aliasName ++ "\"\nsource = \"path+"
      ++ name ++ "\"\nchecksum = \"" ++ checksum ++ "\"\n" ++ dependencies ++ "\n"
  root "app" "json -> acme/json" ++ root "tool" "helper -> acme/util" ++
    package "helper" "util" "dependencies = [\"parser -> acme/json\"]\n" ++
    package "json" "json" "dependencies = [\"util -> acme/util\"]\n" ++ package "parser" "json" "" ++
    package "util" "util" ""

/-- The toml crate on the lockfile of `crossed`. -/
def tomlCrossed : Toml where
  toString _ := crossedToml
  fromStr text :=
    if text = lockfileHeader ++ crossedToml then .ok crossedDocument
    else .error "expected another lockfile"

theorem crossed_runs :
    tomlCrossed.fromStr (lockfileHeader ++ crossedToml) = .ok crossedDocument ∧
    workspaceDocument crossed = .ok crossedDocument ∧
    (Semver.rejecting.parseLockfileRoot tomlCrossed 8 (lockfileHeader ++ crossedToml) "acme/app").map
      (fun parsed => parsed.dependencies.length) = .error
        "cyclic dependency in nomo.lock for target `x86_64-unknown-linux-gnu`: acme/json -> acme/util -> acme/json" ∧
    workspaceDocument conflicting =
      .error "workspace lockfile has conflicting entries for `json -> acme/json`" ∧
    (∀ graphs ∈ [crossed, conflicting], (graphs.map (·.root.id)).Nodup ∧
      (∀ node ∈ workspaceNodes graphs, ∀ other ∈ workspaceNodes graphs,
        node.package = other.package → node.source = other.source) ∧
      ∀ graph ∈ graphs, validatePackageId graph.root.id = .ok ()) ∧
    ∀ aliasName ∈ ["helper", "parser"], validateDependencyAlias aliasName = .ok () := by
  decide +kernel

theorem wellFormed_renamed {aliasName : String} (halias : aliasName ∈ ["helper", "parser"])
    {dependency : ResolvedDependency} (h : WellFormed .rejecting dependency) :
    WellFormed .rejecting (renamed aliasName dependency) :=
  { h with aliasName := crossed_runs.2.2.2.2.2 aliasName halias }

end Sample

open Sample

end Nomo.Deps
