import Nomo.Deps.Lockfile

/-!
# When a lockfile gives the graph back

Every entry of a lockfile is parsed to what was written (`intoResolved_fromResolved`), so the question
is whether the trees are rebuilt. An edge is followed to the first entry with its alias and package;
the tree comes back if that entry carries what the edge's own place in the graph does. The direct
dependencies come back from the list of roots, or, where there is none, if no entry refers to them:
a package that is a direct dependency and also a dependency of another package is lost.
-/

namespace Nomo.Deps

open Nomo.Lib Nomo.Lib.Checked Nomo.SupplyChain Nomo.Resolver

/-! ## Trees -/

theorem ResolvedDependency.induct {P : ResolvedDependency → Prop}
    (h : ∀ dependency, (∀ child ∈ dependency.dependencies, P child) → P dependency) :
    ∀ dependency, P dependency := by
  intro dependency
  refine @ResolvedDependency.rec P (fun dependencies => ∀ child ∈ dependencies, P child) ?_ ?_ ?_
    dependency
  · intro aliasName package source checksum supplyChain target dependencies ih
    exact h _ ih
  · intro child hchild
    cases hchild
  · intro dependency rest hdependency hrest
    exact List.forall_mem_cons.mpr ⟨hdependency, hrest⟩

theorem flattenDependency_eq (dependency : ResolvedDependency) :
    flattenDependency dependency = dependency :: flattenDependencies dependency.dependencies := by
  cases dependency
  rfl

variable {dependencies : List ResolvedDependency} {node : ResolvedDependency}

theorem mem_flattenDependencies : node ∈ flattenDependencies dependencies ↔
      ∃ dependency ∈ dependencies, node ∈ flattenDependency dependency := by
  induction dependencies with
  | nil => simp [flattenDependencies]
  | cons dependency rest ih => simp [flattenDependencies, ih]

theorem mem_flattenDependency_self (dependency : ResolvedDependency) :
    dependency ∈ flattenDependency dependency := by
  simp [flattenDependency_eq]

theorem flattenDependency_subset :
    ∀ {dependency : ResolvedDependency}, node ∈ flattenDependency dependency →
      flattenDependency node ⊆ flattenDependency dependency := by
  intro dependency
  induction dependency using ResolvedDependency.induct with
  | h dependency ih =>
    intro hnode
    rw [flattenDependency_eq dependency] at hnode ⊢
    rcases List.mem_cons.mp hnode with rfl | hnode
    · rw [flattenDependency_eq]
      exact List.Subset.refl _
    · obtain ⟨child, hchild, hnode⟩ := mem_flattenDependencies.mp hnode
      intro other hother
      exact List.mem_cons_of_mem _ (mem_flattenDependencies.mpr ⟨child, hchild, ih child hchild hnode hother⟩)

theorem mem_of_child {child : ResolvedDependency} (hnode : node ∈ flattenDependencies dependencies)
    (hchild : child ∈ node.dependencies) :
    child ∈ flattenDependencies dependencies := by
  obtain ⟨dependency, hdependency, hmem⟩ := mem_flattenDependencies.mp hnode
  refine mem_flattenDependencies.mpr ⟨dependency, hdependency, flattenDependency_subset hmem ?_⟩
  rw [flattenDependency_eq]
  exact List.mem_cons_of_mem _
    (mem_flattenDependencies.mpr ⟨child, hchild, mem_flattenDependency_self child⟩)

theorem length_flattenDependency_le {child : ResolvedDependency} (hchild : child ∈ dependencies) :
    (flattenDependency child).length ≤ (flattenDependencies dependencies).length := by
  induction dependencies with
  | nil => cases hchild
  | cons other rest ih =>
    simp only [flattenDependencies, List.length_append]
    rcases List.mem_cons.mp hchild with rfl | hrest
    · omega
    · have hrest' := ih hrest
      omega

/-- The nodes of a graph. -/
def DependencyGraph.nodes (graph : DependencyGraph) : List ResolvedDependency :=
  flattenDependencies graph.dependencies

/-- The nodes below the direct dependencies. -/
def DependencyGraph.below (graph : DependencyGraph) : List ResolvedDependency :=
  graph.dependencies.flatMap fun dependency => flattenDependencies dependency.dependencies

theorem DependencyGraph.mem_nodes {graph : DependencyGraph} :
    node ∈ graph.nodes ↔ node ∈ graph.dependencies ∨ node ∈ graph.below := by
  unfold nodes below
  rw [mem_flattenDependencies, List.mem_flatMap]
  simp only [flattenDependency_eq, List.mem_cons]
  constructor
  · rintro ⟨dependency, hdependency, rfl | hnode⟩
    · exact .inl hdependency
    · exact .inr ⟨dependency, hdependency, hnode⟩
  · rintro (hnode | ⟨dependency, hdependency, hnode⟩)
    · exact ⟨node, hnode, .inl rfl⟩
    · exact ⟨dependency, hdependency, .inr hnode⟩

theorem DependencyGraph.exists_parent {graph : DependencyGraph} (hnode : node ∈ graph.below) :
    ∃ parent ∈ graph.nodes, node ∈ parent.dependencies := by
  have hparent (dependency : ResolvedDependency) : ∀ node ∈ flattenDependencies dependency.dependencies,
      ∃ parent ∈ flattenDependency dependency, node ∈ parent.dependencies := by
    induction dependency using ResolvedDependency.induct with
    | h dependency ih =>
      intro node hnode
      obtain ⟨child, hchild, hmem⟩ := mem_flattenDependencies.mp hnode
      rw [flattenDependency_eq] at hmem
      rcases List.mem_cons.mp hmem with rfl | hmem
      · exact ⟨dependency, mem_flattenDependency_self dependency, hchild⟩
      · obtain ⟨parent, hparent, hmem⟩ := ih child hchild node hmem
        refine ⟨parent, ?_, hmem⟩
        rw [flattenDependency_eq]
        exact List.mem_cons_of_mem _ (mem_flattenDependencies.mpr ⟨child, hchild, hparent⟩)
  obtain ⟨dependency, hdependency, hmem⟩ := List.mem_flatMap.mp hnode
  obtain ⟨parent, hparent, hmem⟩ := hparent dependency node hmem
  exact ⟨parent, mem_flattenDependencies.mpr ⟨dependency, hdependency, hparent⟩, hmem⟩

/-! ## Entries -/

/-- The source as it is read back: a registry with the name of the package is no registry. -/
def relocked (package : String) : DependencySource → DependencySource
  | .registry version registry => .registry version (registry.filter (· ≠ package))
  | source => source

/-- The edge to a dependency. -/
def ResolvedDependency.edge (dependency : ResolvedDependency) : DependencyEdge where
  aliasName := dependency.aliasName
  package := dependency.package
  target := dependency.target

/-- The entry of a node, as it is read back. -/
def lockedEntry (node : ResolvedDependency) : ResolvedDependency :=
  { node with
    source := relocked node.package node.source
    target := {}
    dependencies := node.dependencies.map fun child => placeholder child.edge }

section Entries

variable {V R : Type} (semver : Semver V R)

/-- What a manifest's parser and the resolver make sure of a dependency: its names, its version, its
selectors, its checksum and its target condition are well formed. -/
structure WellFormed (node : ResolvedDependency) : Prop where
  package : validatePackageId node.package = .ok ()
  aliasName : validateDependencyAlias node.aliasName = .ok ()
  version : semver.validateLockVersionShape node.package node.source = .ok ()
  selectors : validateLockSourceSelectors node.package node.source = .ok ()
  checksum : ∀ checksum ∈ node.checksum, validateLockChecksum node.package checksum = .ok ()
  target : node.target.validateCanonical = .ok ()

omit semver in
theorem stripPrefix_append (start text : String) :
    stripPrefix start (start ++ text) = some text := by
  simp [stripPrefix]

theorem relocked_registry (package version : String) (registry : Option String) :
    relocked package (.registry version registry) = .registry version
      (if registry.getD package = package then none else some (registry.getD package)) := by
  cases registry with
  | none => simp [relocked]
  | some registry => by_cases h : registry = package <;> simp [relocked, Option.filter, h]

theorem lockSource_fromResolved (node : ResolvedDependency) :
    lockSource node.package (LockPackage.fromResolved node).source
        (LockPackage.fromResolved node).version (LockPackage.fromResolved node).branch
        (LockPackage.fromResolved node).tag (LockPackage.fromResolved node).rev =
      .ok (relocked node.package node.source) := by
  unfold LockPackage.fromResolved lockSource
  cases hsource : node.source with
  | registry version registry =>
    simp only [stripPrefix_append, relocked_registry]
    simp
  | path path =>
    have hregistry : stripPrefix "registry+" ("path+" ++ path) = none := by
      simp [stripPrefix, List.isPrefixOf?]
    simp only [hregistry, stripPrefix_append]
    simp [relocked]
  | git git branch tag rev =>
    have hregistry : stripPrefix "registry+" ("git+" ++ git) = none := by
      simp [stripPrefix, List.isPrefixOf?]
    have hpath : stripPrefix "path+" ("git+" ++ git) = none := by
      simp [stripPrefix, List.isPrefixOf?]
    simp only [hregistry, hpath, stripPrefix_append]
    simp [relocked]

theorem validate_relocked (h : WellFormed semver node) :
    semver.validateLockVersionShape node.package (relocked node.package node.source) = .ok () ∧
      validateLockSourceSelectors node.package (relocked node.package node.source) = .ok () := by
  have hversion := h.version
  have hselectors := h.selectors
  cases hsource : node.source <;> rw [hsource] at hversion hselectors <;>
    exact ⟨hversion, hselectors⟩

theorem splitOnceText_arrow (left right : List Char) (hleft : ' ' ∉ left) :
    splitOnceText [' ', '-', '>', ' '] (left ++ [' ', '-', '>', ' '] ++ right) =
      some (left, right) := by
  induction left with
  | nil => simp [splitOnceText, List.isPrefixOf?]
  | cons c cs ih =>
    simp only [List.mem_cons, not_or] at hleft
    have hnot : ([' ', '-', '>', ' '].isPrefixOf? (c :: (cs ++ [' ', '-', '>', ' '] ++ right)))
        = none := by
      simp [List.isPrefixOf?, hleft.1]
    simp only [List.cons_append, splitOnceText, hnot, ih hleft.2]
    rfl

theorem not_space_of_validateDependencyAlias {value : String}
    (h : validateDependencyAlias value = .ok ()) : ' ' ∉ value.toList := by
  unfold validateDependencyAlias at h
  rw [require_eq_ok] at h
  intro hmem
  have hspace := List.all_eq_true.mp h.2.1 ' ' hmem
  revert hspace
  decide

theorem eq_default_of_isUnconditional {target : TargetCondition}
    (h : target.isUnconditional = true) : target = {} := by
  obtain ⟨arch, os, env⟩ := target
  simp only [TargetCondition.isUnconditional, Bool.and_eq_true, List.isEmpty_iff] at h
  simp [h]

/-- **An edge** is read as it was written. -/
theorem intoEdge_fromResolved (h : WellFormed semver node) :
    (LockDependencyEntry.fromResolved node).intoEdge = .ok node.edge := by
  unfold LockDependencyEntry.fromResolved
  split_ifs with hunconditional
  · have htext : s!"{node.aliasName} -> {node.package}".toList =
        node.aliasName.toList ++ [' ', '-', '>', ' '] ++ node.package.toList := by
      show (node.aliasName ++ " -> " ++ node.package).toList = _
      simp
    have harrow : (" -> " : String).toList = [' ', '-', '>', ' '] := by decide
    simp only [LockDependencyEntry.intoEdge, parseLockDependencyEntry, bind_eq_ok, orElse_eq_ok,
      htext, harrow, splitOnceText_arrow _ _ (not_space_of_validateDependencyAlias h.aliasName)]
    refine ⟨_, rfl, ?_⟩
    simp [h.aliasName, h.package, ResolvedDependency.edge, eq_default_of_isUnconditional hunconditional]
  · simp [LockDependencyEntry.intoEdge, h.aliasName, h.package, h.target, hunconditional,
      Except.mapError, ResolvedDependency.edge]

theorem collect_intoEdge (h : ∀ dependency ∈ dependencies, WellFormed semver dependency) :
    collect LockDependencyEntry.intoEdge (dependencies.map .fromResolved) =
      .ok (dependencies.map ResolvedDependency.edge) := by
  rw [collect_eq_ok_iff, List.forall₂_map_left_iff, List.forall₂_map_right_iff, List.forall₂_same]
  exact fun dependency hdependency => intoEdge_fromResolved semver (h dependency hdependency)

/-- **An entry** is read as it was written. -/
theorem intoResolved_fromResolved (h : WellFormed semver node)
    (hchildren : ∀ child ∈ node.dependencies, WellFormed semver child) :
    semver.intoResolved (.fromResolved node) = .ok (lockedEntry node) := by
  have hid : (LockPackage.fromResolved node).id = node.package := by
    unfold LockPackage.fromResolved
    cases node.source <;> rfl
  have halias : (LockPackage.fromResolved node).aliasName = node.aliasName := by
    unfold LockPackage.fromResolved
    cases node.source <;> rfl
  have hchecksum : (LockPackage.fromResolved node).checksum = node.checksum := by
    unfold LockPackage.fromResolved
    cases node.source <;> rfl
  have hsupply : (LockPackage.fromResolved node).supplyChain = node.supplyChain := by
    unfold LockPackage.fromResolved
    cases node.source <;> rfl
  have hdependencies : (LockPackage.fromResolved node).dependencies =
      node.dependencies.map .fromResolved := by
    unfold LockPackage.fromResolved
    cases node.source <;> rfl
  obtain ⟨hversion, hselectors⟩ := validate_relocked semver h
  have hchecks : ∀ checksum ∈ node.checksum.toList, validateLockChecksum node.package checksum = .ok () :=
    fun checksum hmem => h.checksum checksum (by simpa using hmem)
  simp only [Semver.intoResolved, Semver.parseLockSource, hid, halias, hchecksum, hsupply,
    hdependencies, collect_intoEdge semver hchildren, lockSource_fromResolved, bind_eq_ok,
    each_eq_ok, pure_eq_ok]
  refine ⟨(), h.package, (), h.aliasName, _, ⟨_, rfl, (), hversion, (), hselectors, rfl⟩, (),
    hchecks, _, rfl, ?_⟩
  simp [lockedEntry, List.map_map, Function.comp_def]

/-- **All entries** are read as they were written. -/
theorem collect_intoResolved {graph : DependencyGraph}
    (h : ∀ node ∈ graph.nodes, WellFormed semver node) :
    collect semver.intoResolved (lockfileDocument graph).package =
      .ok (graph.nodes.map lockedEntry) := by
  show collect semver.intoResolved (graph.nodes.map .fromResolved) = _
  rw [collect_eq_ok_iff, List.forall₂_map_left_iff, List.forall₂_map_right_iff, List.forall₂_same]
  intro node hnode
  exact intoResolved_fromResolved semver (h node hnode)
    fun child hchild => h child (mem_of_child hnode hchild)

end Entries

/-! ## The check for cycles -/

/-- One package of the graph depends on another. -/
def DependencyGraph.DependsOn (graph : DependencyGraph) (package other : String) : Prop :=
  ∃ node ∈ graph.nodes, node.package = package ∧
    ∃ child ∈ node.dependencies, child.package = other

/-- No package depends on itself, directly or through others. -/
def DependencyGraph.Acyclic (graph : DependencyGraph) : Prop :=
  ∀ package, ¬ Relation.TransGen graph.DependsOn package package

theorem edge_addPackage {target : TargetTriple} {graph : DirectedGraph String}
    {package : ResolvedDependency} {a b : String} :
    (addPackage target graph package).Edge a b ↔ graph.Edge a b ∨ (a = package.package ∧
      ∃ child ∈ package.dependencies, child.target.matches target = true ∧ child.package = b) := by
  have hfold : ∀ (children : List ResolvedDependency) (g : DirectedGraph String),
      (children.foldl (fun g child =>
        if child.target.matches target then g.addEdge package.package child.package else g) g).Edge
          a b ↔
      g.Edge a b ∨ (a = package.package ∧
        ∃ child ∈ children, child.target.matches target = true ∧ child.package = b) := by
    intro children
    induction children with
    | nil => simp
    | cons child rest ih =>
      intro g
      rw [List.foldl_cons, ih]
      split_ifs with hmatches
      · rw [DirectedGraph.edge_addEdge]
        simp only [List.mem_cons, exists_eq_or_imp, hmatches, true_and]
        tauto
      · simp [hmatches]
  unfold addPackage
  rw [hfold, DirectedGraph.edge_addNode]

theorem closed_addPackage {target : TargetTriple} {graph : DirectedGraph String}
    (hclosed : graph.Closed) (package : ResolvedDependency) :
    (addPackage target graph package).Closed := by
  have hfold : ∀ (children : List ResolvedDependency) (g : DirectedGraph String), g.Closed →
      (children.foldl (fun g child =>
        if child.target.matches target then g.addEdge package.package child.package
        else g) g).Closed := by
    intro children
    induction children with
    | nil => exact fun g h => h
    | cons child rest ih =>
      intro g h
      refine ih _ ?_
      dsimp only
      split_ifs
      · exact h.addEdge _ _
      · exact h
  exact hfold package.dependencies _ (hclosed.addNode _)

theorem lockedGraph_spec (packages : List ResolvedDependency) (target : TargetTriple) :
    (lockedGraph packages target).Closed ∧ ∀ a b, (lockedGraph packages target).Edge a b ↔
      ∃ package ∈ packages, package.package = a ∧ ∃ child ∈ package.dependencies,
        child.target.matches target = true ∧ child.package = b := by
  unfold lockedGraph
  induction packages using List.reverseRecOn with
  | nil => exact ⟨DirectedGraph.closed_empty, fun _ _ => by simp⟩
  | append_singleton packages package ih =>
    rw [List.foldl_append]
    refine ⟨closed_addPackage ih.1 package, fun a b => ?_⟩
    show (addPackage target _ package).Edge a b ↔ _
    rw [edge_addPackage, ih.2]
    simp only [List.mem_append, List.mem_singleton, or_and_right, exists_or, exists_eq_left,
      eq_comm (a := a)]

/-- **A graph without cycles** passes the check, for every target. -/
theorem validateLockedDependencyGraph_of_acyclic {graph : DependencyGraph}
    (h : graph.Acyclic) :
    validateLockedDependencyGraph (graph.nodes.map lockedEntry) = .ok () := by
  unfold validateLockedDependencyGraph
  rw [each_eq_ok]
  intro target _
  obtain ⟨hclosed, hedge⟩ := lockedGraph_spec (graph.nodes.map lockedEntry) target
  have hdepends (a b) : (lockedGraph (graph.nodes.map lockedEntry) target).Edge a b →
      graph.DependsOn a b := by
    intro hab
    obtain ⟨entry, hentry, ha, child, hchild, -, hb⟩ := (hedge a b).mp hab
    obtain ⟨node, hnode, rfl⟩ := List.mem_map.mp hentry
    obtain ⟨original, horiginal, rfl⟩ := List.mem_map.mp hchild
    exact ⟨node, hnode, ha, original, horiginal, hb⟩
  have hacyclic : (lockedGraph (graph.nodes.map lockedEntry) target).Acyclic :=
    fun a ha => h a (Relation.TransGen.mono hdepends a a ha)
  rw [DirectedGraph.findCycle_of_acyclic hacyclic hclosed]

/-! ## Rebuilding the trees -/

/-- The entry has what the node has: its source, its checksum, its evidence and its edges. -/
def SameData (node other : ResolvedDependency) : Prop :=
  node.source = other.source ∧ node.checksum = other.checksum ∧
    node.supplyChain = other.supplyChain ∧
    node.dependencies.map ResolvedDependency.edge = other.dependencies.map ResolvedDependency.edge

theorem lockedEntry_eq_of_edges {other : ResolvedDependency}
    (hpackage : node.package = other.package) (halias : node.aliasName = other.aliasName)
    (hdata : SameData node other) : lockedEntry node = lockedEntry other := by
  obtain ⟨hsource, hchecksum, hsupply, hedges⟩ := hdata
  have hplaceholders (n : ResolvedDependency) : n.dependencies.map (fun c => placeholder c.edge) =
      (n.dependencies.map ResolvedDependency.edge).map placeholder := by
    rw [List.map_map]
    rfl
  simp only [lockedEntry, hplaceholders, hedges, hpackage, halias, hsource, hchecksum, hsupply]

theorem findLocked_of_mem {nodes : List ResolvedDependency} (hnode : node ∈ nodes) :
    ∃ other ∈ nodes, other.package = node.package ∧
      other.aliasName = node.aliasName ∧
      findLocked (nodes.map lockedEntry) node.aliasName node.package = .ok (lockedEntry other) := by
  unfold findLocked
  cases hfind : (nodes.map lockedEntry).find? fun entry =>
      decide (entry.package = node.package ∧ entry.aliasName = node.aliasName) with
  | none =>
    have hnot := List.find?_eq_none.mp hfind (lockedEntry node) (List.mem_map_of_mem hnode)
    simp [lockedEntry] at hnot
  | some entry =>
    obtain ⟨other, hother, rfl⟩ := List.mem_map.mp (List.mem_of_find?_eq_some hfind)
    have hsame := List.find?_some hfind
    simp only [decide_eq_true_eq] at hsame
    exact ⟨other, hother, hsame.1, hsame.2, by simp⟩

/-- **A tree is rebuilt** from entries that carry what its nodes do. -/
theorem buildLockedDependency_lockedEntry {packages : List ResolvedDependency} {depth : ℕ}
    (hfind : ∀ child ∈ flattenDependencies node.dependencies,
      findLocked packages child.aliasName child.package = .ok (lockedEntry child))
    (hnamed : ∀ other ∈ flattenDependency node, relocked other.package other.source = other.source)
    (hdepth : (flattenDependency node).length < depth) :
    buildLockedDependency packages depth (lockedEntry node) = .ok { node with target := {} } := by
  induction node using ResolvedDependency.induct generalizing depth with
  | h node ih =>
    cases depth with
    | zero => exact absurd hdepth (Nat.not_lt_zero _)
    | succ depth =>
      have hchildren : collect (fun child => do
          let locked ← findLocked packages child.aliasName child.package
          let locked ← buildLockedDependency packages depth locked
          return { locked with aliasName := child.aliasName, target := child.target })
          (lockedEntry node).dependencies = .ok node.dependencies := by
        rw [collect_eq_ok_iff]
        show List.Forall₂ _ (node.dependencies.map fun child => placeholder child.edge)
          node.dependencies
        rw [List.forall₂_map_left_iff, List.forall₂_same]
        intro child hchild
        have hbelow : ∀ other ∈ flattenDependency child, other ∈ flattenDependencies node.dependencies :=
          fun other hother => mem_flattenDependencies.mpr ⟨child, hchild, hother⟩
        have hself := hfind child (hbelow child (mem_flattenDependency_self child))
        have hshort : (flattenDependency child).length < depth := by
          have hlength := length_flattenDependency_le hchild
          rw [flattenDependency_eq, List.length_cons] at hdepth
          omega
        have hbuilt := @ih child hchild depth
          (fun other hother => hfind other (hbelow other (by
            rw [flattenDependency_eq]
            exact List.mem_cons_of_mem _ hother)))
          (fun other hother => hnamed other (by
            rw [flattenDependency_eq]
            exact List.mem_cons_of_mem _ (hbelow other hother)))
          hshort
        simp only [bind_eq_ok, pure_eq_ok]
        refine ⟨_, hself, _, hbuilt, ?_⟩
        cases child
        rfl
      have hsource : (lockedEntry node).source = node.source :=
        hnamed node (mem_flattenDependency_self node)
      simp only [buildLockedDependency, bind_eq_ok, pure_eq_ok]
      refine ⟨_, hchildren, ?_⟩
      rw [hsource]
      rfl

/-- The edge to `node` is followed to an entry from which `node` is rebuilt. -/
def Rebuilds (packages : List ResolvedDependency) (node : ResolvedDependency) : Prop :=
  ∃ entry depth built, findLocked packages node.aliasName node.package = .ok entry ∧
    buildLockedDependency packages depth entry = .ok built ∧
    { built with aliasName := node.aliasName, target := node.target } = node

variable {entry : ResolvedDependency}

theorem package_of_findLocked {packages : List ResolvedDependency} {aliasName package : String}
    (h : findLocked packages aliasName package = .ok entry) :
    entry.package = package := by
  unfold findLocked at h
  rw [orElse_eq_ok, Option.or_eq_some_iff] at h
  rcases h with h | ⟨-, h⟩
  · have hfound := List.find?_some h
    simp only [decide_eq_true_eq] at hfound
    exact hfound.1
  · simpa using List.find?_some h

theorem package_of_buildLockedDependency {packages : List ResolvedDependency}
    {built : ResolvedDependency} {depth : ℕ}
    (h : buildLockedDependency packages depth entry = .ok built) :
    built.package = entry.package := by
  cases depth with
  | zero => cases h
  | succ depth =>
    simp only [buildLockedDependency, bind_eq_ok, pure_eq_ok] at h
    obtain ⟨children, -, rfl⟩ := h
    rfl

/-- What a tree is rebuilt from: the data of its root and the trees of its edges. -/
theorem data_of_buildLockedDependency {packages : List ResolvedDependency}
    {built : ResolvedDependency} {depth : ℕ}
    (h : buildLockedDependency packages depth entry = .ok built) :
    SameData entry built ∧ ∀ child ∈ built.dependencies, Rebuilds packages child := by
  cases depth with
  | zero => cases h
  | succ depth =>
    simp only [buildLockedDependency, bind_eq_ok, pure_eq_ok] at h
    obtain ⟨children, hchildren, rfl⟩ := h
    rw [collect_eq_ok_iff] at hchildren
    simp only [bind_eq_ok, pure_eq_ok] at hchildren
    have hrebuilt : List.Forall₂ (fun placeholder child =>
        ResolvedDependency.edge placeholder = ResolvedDependency.edge child ∧
          Rebuilds packages child) entry.dependencies children := by
      refine hchildren.imp ?_
      rintro placeholder child ⟨found, hfound, built, hbuilt, rfl⟩
      have hpackage : built.package = placeholder.package :=
        (package_of_buildLockedDependency hbuilt).trans (package_of_findLocked hfound)
      refine ⟨by simp [ResolvedDependency.edge, hpackage], found, depth, built, ?_, hbuilt, rfl⟩
      rw [hpackage]
      exact hfound
    refine ⟨⟨rfl, rfl, rfl, ?_⟩, ?_⟩
    · rw [← List.forall₂_eq_eq_eq, List.forall₂_map_left_iff, List.forall₂_map_right_iff]
      exact hrebuilt.imp fun _ _ h => h.1
    have hflip : List.Forall₂ (fun child placeholder => Rebuilds packages child ∧
        ResolvedDependency.edge placeholder = ResolvedDependency.edge child)
        children entry.dependencies :=
      List.Forall₂.flip (hrebuilt.imp fun _ _ h => ⟨h.2, h.1⟩)
    exact ((List.forall₂_and_left _ _).mp hflip).1

/-- **Whatever is rebuilt** carries the data of the entries that its edges are followed to. -/
theorem data_of_rebuilds {packages : List ResolvedDependency} (h : Rebuilds packages node) :
    ∀ other ∈ flattenDependency node, ∃ entry,
      findLocked packages other.aliasName other.package = .ok entry ∧ SameData entry other := by
  induction node using ResolvedDependency.induct with
  | h node ih =>
    obtain ⟨entry, depth, built, hfound, hbuilt, hnode⟩ := h
    obtain ⟨hdata, hchildren⟩ := data_of_buildLockedDependency hbuilt
    have hdependencies : node.dependencies = built.dependencies := by rw [← hnode]
    intro other hother
    rw [flattenDependency_eq] at hother
    rcases List.mem_cons.mp hother with rfl | hother
    · refine ⟨entry, hfound, ?_⟩
      rw [← hnode]
      exact hdata
    · obtain ⟨child, hchild, hmem⟩ := mem_flattenDependencies.mp hother
      exact ih child hchild (hchildren child (hdependencies ▸ hchild)) other hmem

/-! ## The round trip -/

/-- The nodes that are found by following an edge: those below the direct dependencies and, when the
root's edges are listed, the direct dependencies. -/
def DependencyGraph.followed (graph : DependencyGraph) : List ResolvedDependency :=
  if graph.hasConditionalRoot then graph.nodes else graph.below

/-- What the lockfile keeps of a graph. -/
structure Recoverable (graph : DependencyGraph) : Prop where
  /-- No registry has the name of a package it serves. -/
  named : ∀ node ∈ graph.nodes, ∀ version, node.source ≠ .registry version (some node.package)
  /-- Without a list of roots, no direct dependency is a dependency of another package. -/
  direct : graph.hasConditionalRoot = true ∨ ∀ dependency ∈ graph.dependencies,
    ∀ node ∈ graph.nodes, ∀ child ∈ node.dependencies, child.package ≠ dependency.package
  /-- A package occurs under one alias with the same data everywhere. -/
  agree : ∀ node ∈ graph.followed, ∀ other ∈ graph.followed, node.package = other.package →
    node.aliasName = other.aliasName → SameData node other

theorem relocked_eq_iff {package : String} {source : DependencySource} :
    relocked package source = source ↔ ∀ version, source ≠ .registry version (some package) := by
  cases source with
  | registry version registry =>
    cases registry with
    | none => simp [relocked]
    | some registry => simp [relocked, Option.filter]
  | path path | git git branch tag rev => simp [relocked]

theorem relocked_relocked (package : String) (source : DependencySource) :
    relocked package (relocked package source) = relocked package source := by
  cases source with
  | registry version registry => simp [relocked]
  | path path | git git branch tag rev => rfl

theorem SameData.symm {other : ResolvedDependency} (h : SameData node other) :
    SameData other node :=
  ⟨h.1.symm, h.2.1.symm, h.2.2.1.symm, h.2.2.2.symm⟩

theorem SameData.trans {a b c : ResolvedDependency} (h : SameData a b) (h' : SameData b c) :
    SameData a c :=
  ⟨h.1.trans h'.1, h.2.1.trans h'.2.1, h.2.2.1.trans h'.2.2.1, h.2.2.2.trans h'.2.2.2⟩

theorem mem_of_findLocked {packages : List ResolvedDependency} {aliasName package : String}
    (h : findLocked packages aliasName package = .ok entry) :
    entry ∈ packages := by
  unfold findLocked at h
  rw [orElse_eq_ok, Option.or_eq_some_iff] at h
  rcases h with h | ⟨-, h⟩
  all_goals exact List.mem_of_find?_eq_some h

theorem DependencyGraph.followed_subset (graph : DependencyGraph) : graph.followed ⊆ graph.nodes := by
  intro node hnode
  unfold followed at hnode
  split_ifs at hnode
  · exact hnode
  · exact mem_nodes.mpr (.inr hnode)

/-- In a recoverable graph, following an edge leads to the entry of its own place. -/
theorem Recoverable.findLocked {graph : DependencyGraph} (h : Recoverable graph)
    (hnode : node ∈ graph.followed) :
    findLocked (graph.nodes.map lockedEntry) node.aliasName node.package =
      .ok (lockedEntry node) := by
  obtain ⟨other, hother, hpackage, halias, hfound⟩ :=
    findLocked_of_mem (graph.followed_subset hnode)
  have hfollowed : other ∈ graph.followed := by
    unfold DependencyGraph.followed at hnode ⊢
    split_ifs at hnode ⊢ with hconditional
    · exact hother
    rcases DependencyGraph.mem_nodes.mp hother with hdirect | hbelow
    · -- nothing refers to a direct dependency
      obtain ⟨parent, hparent, hchild⟩ := DependencyGraph.exists_parent hnode
      rcases h.direct with hroot | hdistinct
      · exact absurd hroot hconditional
      · exact absurd hpackage.symm (hdistinct other hdirect parent hparent node hchild)
    · exact hbelow
  rw [hfound, lockedEntry_eq_of_edges hpackage halias (h.agree other hfollowed node hnode hpackage halias)]

theorem DependencyGraph.below_subset_followed (graph : DependencyGraph) :
    graph.below ⊆ graph.followed := by
  intro node hnode
  unfold followed
  split_ifs
  · exact mem_nodes.mpr (.inr hnode)
  · exact hnode

theorem Recoverable.build {graph : DependencyGraph} (h : Recoverable graph) {depth : ℕ}
    (hdepth : graph.nodes.length < depth) {dependency : ResolvedDependency}
    (hdependency : dependency ∈ graph.dependencies) :
    buildLockedDependency (graph.nodes.map lockedEntry) depth (lockedEntry dependency) =
      .ok { dependency with target := {} } := by
  refine buildLockedDependency_lockedEntry ?_ ?_ ?_
  · intro child hchild
    exact h.findLocked (graph.below_subset_followed
      (List.mem_flatMap.mpr ⟨dependency, hdependency, hchild⟩))
  · intro other hother
    exact relocked_eq_iff.mpr (h.named other
      (mem_flattenDependencies.mpr ⟨dependency, hdependency, hother⟩))
  · exact (length_flattenDependency_le hdependency).trans_lt hdepth

/-- The entries that nothing refers to are those of direct dependencies. -/
theorem filter_unreferenced (graph : DependencyGraph) :
    (graph.nodes.map lockedEntry).filter (fun entry => decide (entry.package ∉
        referencedPackages (graph.nodes.map lockedEntry))) =
      (graph.dependencies.filter fun dependency => decide (dependency.package ∉
        referencedPackages (graph.nodes.map lockedEntry))).map lockedEntry := by
  have hbelow : ∀ node ∈ graph.below, node.package ∈ referencedPackages (graph.nodes.map lockedEntry) := by
    intro node hnode
    obtain ⟨parent, hparent, hchild⟩ := DependencyGraph.exists_parent hnode
    refine List.mem_flatMap.mpr ⟨lockedEntry parent, List.mem_map_of_mem hparent, ?_⟩
    exact List.mem_map.mpr ⟨placeholder node.edge, List.mem_map_of_mem hchild, rfl⟩
  generalize referencedPackages (graph.nodes.map lockedEntry) = referenced at hbelow ⊢
  have hlist (dependencies : List ResolvedDependency) :
      (∀ node ∈ dependencies.flatMap fun d => flattenDependencies d.dependencies,
        node.package ∈ referenced) →
      (flattenDependencies dependencies).filter (fun d => decide (d.package ∉ referenced)) =
        dependencies.filter fun d => decide (d.package ∉ referenced) := by
    intro h
    induction dependencies with
    | nil => rfl
    | cons dependency rest ih =>
      rw [List.flatMap_cons] at h
      have hnone : (flattenDependencies dependency.dependencies).filter
          (fun d => decide (d.package ∉ referenced)) = [] := by
        rw [List.filter_eq_nil_iff]
        intro node hnode
        simpa using h node (List.mem_append_left _ hnode)
      rw [flattenDependencies, flattenDependency_eq, List.filter_append, List.filter_cons,
        List.filter_cons, hnone, ih fun node hnode => h node (List.mem_append_right _ hnode)]
      split_ifs <;> rfl
  rw [List.filter_map]
  exact congrArg _ (hlist graph.dependencies hbelow)

section RoundTrip

variable {V R : Type} (semver : Semver V R)

/-- The lockfile of `graph` is read back as a list of direct dependencies. -/
def Semver.ReadsBack (toml : Toml) (depth : ℕ) (graph : DependencyGraph)
    (dependencies : List ResolvedDependency) : Prop :=
  ∃ parsed, semver.parseLockfileRoot toml depth (renderLockfile toml graph) graph.root.id =
    .ok parsed ∧ parsed.dependencies = dependencies

variable {toml : Toml} {graph : DependencyGraph} {depth : ℕ}

theorem readsBack_iff (edges : Option (List DependencyEdge))
    (htoml : toml.fromStr (renderLockfile toml graph) = .ok (lockfileDocument graph))
    (hnodes : ∀ node ∈ graph.nodes, WellFormed semver node) (hacyclic : graph.Acyclic)
    (hedges : rootEdges (lockfileDocument graph).root graph.root.id = .ok edges)
    (dependencies : List ResolvedDependency) :
    semver.ReadsBack toml depth graph dependencies ↔
      rootDependencies (graph.nodes.map lockedEntry) depth
        (!(lockfileDocument graph).root.isEmpty) graph.root.id edges = .ok dependencies := by
  have hdocument : semver.parseLockfileRoot toml depth (renderLockfile toml graph) graph.root.id =
      semver.lockfileRoot depth (lockfileDocument graph) graph.root.id := by
    unfold Semver.parseLockfileRoot
    rw [htoml]
    rfl
  unfold Semver.ReadsBack
  simp only [hdocument, Semver.lockfileRoot, hedges, collect_intoResolved semver hnodes,
    bind_eq_ok, pure_eq_ok, Except.ok.injEq, exists_eq_left']
  constructor
  · rintro ⟨_, ⟨_, -, _, hdependencies, rfl⟩, rfl⟩
    exact hdependencies
  · intro hdependencies
    exact ⟨_, ⟨(), validateLockedDependencyGraph_of_acyclic hacyclic, _, hdependencies, rfl⟩, rfl⟩

theorem readsBack_of_conditional
    (htoml : toml.fromStr (renderLockfile toml graph) = .ok (lockfileDocument graph))
    (hroot : validatePackageId graph.root.id = .ok ())
    (hnodes : ∀ node ∈ graph.nodes, WellFormed semver node) (hacyclic : graph.Acyclic)
    (hconditional : graph.hasConditionalRoot = true) (dependencies : List ResolvedDependency) :
    semver.ReadsBack toml depth graph dependencies ↔
      buildLockedDependenciesFromEdges (graph.nodes.map lockedEntry) depth
        (graph.dependencies.map ResolvedDependency.edge) = .ok dependencies := by
  have hdirect (dependency) (h : dependency ∈ graph.dependencies) : WellFormed semver dependency := hnodes dependency (DependencyGraph.mem_nodes.mpr (.inl h))
  refine readsBack_iff semver (some (graph.dependencies.map ResolvedDependency.edge)) htoml hnodes
    hacyclic ?_ dependencies
  have hdocument : (lockfileDocument graph).root = [.fromGraph graph] := by
    simp [lockfileDocument, hconditional]
  have hid : (LockRoot.fromGraph graph).id = graph.root.id := rfl
  have hdependencies : (LockRoot.fromGraph graph).dependencies = graph.dependencies.map .fromResolved := rfl
  simp [rootEdges, hdocument, hid, LockRoot.dependencyEdges, hroot, hdependencies,
    collect_intoEdge semver hdirect]

theorem readsBack_of_unconditional
    (htoml : toml.fromStr (renderLockfile toml graph) = .ok (lockfileDocument graph))
    (hnodes : ∀ node ∈ graph.nodes, WellFormed semver node) (hacyclic : graph.Acyclic)
    (hconditional : graph.hasConditionalRoot = false) (dependencies : List ResolvedDependency) :
    semver.ReadsBack toml depth graph dependencies ↔
      collect (buildLockedDependency (graph.nodes.map lockedEntry) depth)
        ((graph.dependencies.filter fun dependency => decide (dependency.package ∉
          referencedPackages (graph.nodes.map lockedEntry))).map lockedEntry) =
            .ok dependencies := by
  have hdocument : (lockfileDocument graph).root = [] := by
    simp [lockfileDocument, hconditional]
  rw [← filter_unreferenced, readsBack_iff semver none htoml hnodes hacyclic]
  · simp [rootDependencies, hdocument]
  · simp [rootEdges, hdocument]

theorem mem_referencedPackages {package : String} :
    package ∈ referencedPackages (graph.nodes.map lockedEntry) ↔
      ∃ node ∈ graph.nodes, ∃ child ∈ node.dependencies, child.package = package := by
  simp [referencedPackages, lockedEntry, placeholder, ResolvedDependency.edge]

/-- If every edge that is followed leads to an entry with the data of its own place, then the nodes
agree and no registry has the name of its package. -/
theorem agree_of_data {listed nodes : List ResolvedDependency}
    (hdata : ∀ node ∈ nodes, ∃ entry,
      findLocked (listed.map lockedEntry) node.aliasName node.package = .ok entry ∧
        SameData entry node) :
    (∀ node ∈ nodes, ∀ other ∈ nodes, node.package = other.package →
      node.aliasName = other.aliasName → SameData node other) ∧
    ∀ node ∈ nodes, relocked node.package node.source = node.source := by
  constructor
  · intro node hnode other hother hpackage halias
    obtain ⟨entry, hfound, hsame⟩ := hdata node hnode
    obtain ⟨entry', hfound', hsame'⟩ := hdata other hother
    rw [hpackage, halias, hfound'] at hfound
    obtain rfl : entry' = entry := by simpa using hfound
    exact (SameData.symm hsame).trans hsame'
  · intro node hnode
    obtain ⟨entry, hfound, hsource, -⟩ := hdata node hnode
    obtain ⟨other, -, rfl⟩ := List.mem_map.mp (mem_of_findLocked hfound)
    have hpackage : (lockedEntry other).package = node.package := package_of_findLocked hfound
    rw [← hsource, ← hpackage]
    exact relocked_relocked _ _

/-- **When a lockfile gives the graph back.** For every acyclic graph with well-formed nodes, reading
the lockfile written for it returns its direct dependencies with the same trees if and only if the
graph is recoverable. -/
theorem readsBack_iff_recoverable
    (htoml : toml.fromStr (renderLockfile toml graph) = .ok (lockfileDocument graph))
    (hroot : validatePackageId graph.root.id = .ok ())
    (hnodes : ∀ node ∈ graph.nodes, WellFormed semver node) (hacyclic : graph.Acyclic)
    (hdepth : graph.nodes.length < depth) :
    semver.ReadsBack toml depth graph graph.dependencies ↔ Recoverable graph := by
  cases hconditional : graph.hasConditionalRoot with
  | true =>
    have hfollowed : graph.followed = graph.nodes := by
      simp [DependencyGraph.followed, hconditional]
    rw [readsBack_of_conditional semver htoml hroot hnodes hacyclic hconditional]
    unfold buildLockedDependenciesFromEdges
    rw [collect_eq_ok_iff, List.forall₂_map_left_iff, List.forall₂_same]
    simp only [bind_eq_ok, pure_eq_ok]
    constructor
    · intro hbuilt
      have hdata : ∀ node ∈ graph.nodes, ∃ entry,
          findLocked (graph.nodes.map lockedEntry) node.aliasName node.package = .ok entry ∧
            SameData entry node := by
        intro node hnode
        obtain ⟨dependency, hdependency, hmem⟩ := mem_flattenDependencies.mp hnode
        obtain ⟨entry, hfound, built, hbuild, hsame⟩ := hbuilt dependency hdependency
        exact data_of_rebuilds ⟨entry, depth, built, hfound, hbuild, hsame⟩ node hmem
      obtain ⟨hagree, hnamed⟩ := agree_of_data hdata
      exact ⟨fun node hnode => relocked_eq_iff.mp (hnamed node hnode), .inl hconditional,
        by rwa [hfollowed]⟩
    · intro h dependency hdependency
      refine ⟨_, h.findLocked ?_, _, h.build hdepth hdependency, ?_⟩
      · rw [hfollowed]
        exact DependencyGraph.mem_nodes.mpr (.inl hdependency)
      · cases dependency
        rfl
  | false =>
    have hfollowed : graph.followed = graph.below := by
      simp [DependencyGraph.followed, hconditional]
    have htarget : ∀ dependency ∈ graph.dependencies, { dependency with target := {} } = dependency := by
      intro dependency hdependency
      have hunconditional : dependency.target.isUnconditional = true := by
        have hany := List.any_eq_false.mp hconditional dependency hdependency
        simpa using hany
      have hdefault := eq_default_of_isUnconditional hunconditional
      cases dependency
      simp only at hdefault ⊢
      rw [hdefault]
    rw [readsBack_of_unconditional semver htoml hnodes hacyclic hconditional, collect_eq_ok_iff]
    constructor
    · intro hbuilt
      -- none is lost
      have hall : ∀ dependency ∈ graph.dependencies, dependency.package ∉
          referencedPackages (graph.nodes.map lockedEntry) := by
        have hlength := hbuilt.length_eq
        rw [List.length_map, List.length_filter_eq_length_iff] at hlength
        exact fun dependency hdependency => by simpa using hlength dependency hdependency
      rw [List.filter_eq_self.mpr fun dependency h => by simpa using hall dependency h,
        List.forall₂_map_left_iff, List.forall₂_same] at hbuilt
      have hdata : ∀ node ∈ graph.below, ∃ entry,
          findLocked (graph.nodes.map lockedEntry) node.aliasName node.package = .ok entry ∧
            SameData entry node := by
        intro node hnode
        obtain ⟨dependency, hdependency, hmem⟩ := List.mem_flatMap.mp hnode
        obtain ⟨child, hchild, hmem⟩ := mem_flattenDependencies.mp hmem
        exact data_of_rebuilds
          ((data_of_buildLockedDependency (hbuilt dependency hdependency)).2 child hchild) node hmem
      obtain ⟨hagree, hnamed⟩ := agree_of_data hdata
      refine ⟨fun node hnode => relocked_eq_iff.mp ?_, .inr ?_, by rwa [hfollowed]⟩
      · rcases DependencyGraph.mem_nodes.mp hnode with hdirect | hbelow
        · exact (data_of_buildLockedDependency (hbuilt node hdirect)).1.1
        · exact hnamed node hbelow
      · intro dependency hdependency node hnode child hchild hpackage
        exact hall dependency hdependency
          (mem_referencedPackages.mpr ⟨node, hnode, child, hchild, hpackage⟩)
    · intro h
      have hall : ∀ dependency ∈ graph.dependencies, dependency.package ∉
          referencedPackages (graph.nodes.map lockedEntry) := by
        intro dependency hdependency hmem
        obtain ⟨node, hnode, child, hchild, hpackage⟩ := mem_referencedPackages.mp hmem
        rcases h.direct with hroot | hdistinct
        · rw [hconditional] at hroot
          cases hroot
        · exact hdistinct dependency hdependency node hnode child hchild hpackage
      rw [List.filter_eq_self.mpr fun dependency h => by simpa using hall dependency h,
        List.forall₂_map_left_iff, List.forall₂_same]
      intro dependency hdependency
      rw [h.build hdepth hdependency, htarget dependency hdependency]

end RoundTrip

/-! ## A direct dependency that another package uses -/

namespace Sample

def checksum : String :=
  "sha256:0000000000000000000000000000000000000000000000000000000000000000"

/-- A library in a directory of its own. -/
def library (name : String) (dependencies : List ResolvedDependency) : ResolvedDependency where
  aliasName := name
  package := "acme/" ++ name
  source := .path name
  checksum := some checksum
  supplyChain := none
  target := {}
  dependencies

/-- The application uses `json` and `util`, and `util` uses `json`. -/
def shared : DependencyGraph where
  root := { packageNamespace := "acme", name := "app", version := "0.1.0", edition := "2026" }
  dependencies := [library "json" [], library "util" [library "json" []]]

def sharedToml : String :=
  let json := "[[package]]\nid = \"acme/json\"\nalias = \"json\"\nsource = \"path+json\"\nchecksum = \""
    ++ checksum ++ "\"\n"
  let util := "[[package]]\nid = \"acme/util\"\nalias = \"util\"\nsource = \"path+util\"\nchecksum = \""
    ++ checksum ++ "\"\ndependencies = [\"json -> acme/json\"]\n"
  json ++ "\n" ++ util ++ "\n" ++ json

/-- The toml crate on this lockfile. -/
def toml : Toml where
  toString _ := sharedToml
  fromStr text :=
    if text = lockfileHeader ++ sharedToml then .ok (lockfileDocument shared)
    else .error "expected another lockfile"

theorem toml_shared :
    toml.fromStr (renderLockfile toml shared) = .ok (lockfileDocument shared) ∧
    validatePackageId shared.root.id = .ok () ∧
    (Semver.rejecting.parseLockfileRoot toml 4 (renderLockfile toml shared) shared.root.id).map
      (fun parsed => parsed.dependencies.map (·.aliasName)) = .ok ["util"] ∧
    ∀ name ∈ ["json", "util"], validatePackageId ("acme/" ++ name) = .ok () ∧
      validateDependencyAlias name = .ok () ∧
      validateLockChecksum ("acme/" ++ name) checksum = .ok () := by
  decide +kernel

end Sample

open Sample

/-- The lockfile of `shared` is read back without `json` among the direct dependencies. -/
theorem shared_not_readsBack : ¬ Semver.rejecting.ReadsBack toml 4 shared shared.dependencies := by
  rintro ⟨parsed, hparsed, hdependencies⟩
  have hread := toml_shared.2.2.1
  rw [hparsed] at hread
  simp only [Except.map, hdependencies, Except.ok.injEq] at hread
  revert hread
  decide

theorem wellFormed_library {name : String} (hname : name ∈ ["json", "util"])
    (dependencies : List ResolvedDependency) : WellFormed .rejecting (library name dependencies) := by
  obtain ⟨hpackage, halias, hchecksum⟩ := toml_shared.2.2.2 name hname
  refine ⟨hpackage, halias, rfl, rfl, ?_, rfl⟩
  rintro _ ⟨⟩
  exact hchecksum

/-- `shared` is acyclic and well formed; it is not recoverable. -/
theorem readsBack_iff_recoverable_shared :
    Semver.rejecting.ReadsBack toml 4 shared shared.dependencies ↔ Recoverable shared := by
  have hnodes : shared.nodes = [library "json" [], library "util" [library "json" []],
      library "json" []] := rfl
  refine readsBack_iff_recoverable .rejecting ?_ ?_ ?_ ?_ ?_
  · exact toml_shared.1
  · exact toml_shared.2.1
  · rw [hnodes]
    simp only [List.forall_mem_cons]
    exact ⟨wellFormed_library (by simp) _, wellFormed_library (by simp) _,
      wellFormed_library (by simp) _, by simp⟩
  · have hdepends : ∀ a b, shared.DependsOn a b → a = "acme/util" ∧ b = "acme/json" := by
      rintro a b ⟨node, hnode, rfl, child, hchild, rfl⟩
      rw [hnodes] at hnode
      simp only [List.mem_cons, List.not_mem_nil, or_false] at hnode
      rcases hnode with rfl | rfl | rfl <;> simp [library] at hchild
      subst hchild
      exact ⟨by decide, by decide⟩
    intro package hcycle
    obtain ⟨next, hfirst, -⟩ := Relation.TransGen.head'_iff.mp hcycle
    obtain ⟨previous, -, hlast⟩ := Relation.TransGen.tail'_iff.mp hcycle
    have hutil := (hdepends _ _ hfirst).1
    rw [(hdepends _ _ hlast).2] at hutil
    revert hutil
    decide
  · decide

end Nomo.Deps
