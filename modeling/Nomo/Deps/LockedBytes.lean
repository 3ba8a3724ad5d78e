import Nomo.Deps.LockedBuild
import Nomo.Deps.RoundTrip

/-!
# Locked sources and the recorded checksums

The check of the checksums walks down the locked graph: it looks for a dependency from the root of its
parent, and goes on below only if it finds one. What is built from the graph looks for every dependency
from the base of the lock, which is also what the paths and the caches in a lock are relative to. So a
direct dependency is always checked where it is used, and a dependency below may be used where the
check never came: these are the sources that need not be the locked bytes
(`lockedBytes_iff_of_overlooked`).
-/

namespace Nomo.Deps

open Nomo.Lib Nomo.Lib.Checked Nomo.SupplyChain Nomo.Resolver Nomo.Packing

section

variable {crates : Crates} {disk : SourceDisk}

/-! ## Where a dependency is found -/

/-- The roots of a dependency depend on its alias, its package and its source. -/
theorem lockedOrVendorSourceRoot_congr {a b : ResolvedDependency} (halias : a.aliasName = b.aliasName)
    (hpackage : a.package = b.package) (hsource : a.source = b.source) (base : String) :
    lockedOrVendorSourceRoot crates disk base a = lockedOrVendorSourceRoot crates disk base b := by
  have hstring : lockSourceString a = lockSourceString b := by
    unfold lockSourceString LockPackage.fromResolved
    rw [hsource]
    cases b.source with
    | registry version registry => simp only [hpackage]
    | path path | git git branch tag rev => rfl
  have hvendored : vendoredSourceRoot disk base a = vendoredSourceRoot disk base b := by
    unfold vendoredSourceRoot vendoredPath checkLockedPackage
    rw [halias, hpackage, hstring]
  have hlocked : lockedSourceRoot crates disk base a = lockedSourceRoot crates disk base b := by
    unfold lockedSourceRoot checkedRoot checkLockedPackage lockedPathRoot
    rw [halias, hpackage, hsource]
  unfold lockedOrVendorSourceRoot
  rw [hlocked, hvendored]

variable {dependency : ResolvedDependency}

theorem checkedRoot_eq_ok {root : String} {found : Option String} :
    checkedRoot disk dependency root = .ok found ↔
      checkLockedPackage disk "locked" dependency root = .ok () ∧ found = some root := by
  rw [checkedRoot, bind_eq_ok]
  constructor
  · rintro ⟨⟨⟩, hpackage, ⟨⟩⟩
    exact ⟨hpackage, rfl⟩
  · rintro ⟨hpackage, rfl⟩
    exact ⟨(), hpackage, rfl⟩

variable {base : String}

/-- What is built from a lock finds a dependency where the check, from the same base, finds it. -/
theorem lockedOrVendor_of_resolved {root : String}
    (h : resolvedDependencyModuleRoot crates disk base dependency = .ok (some root)) :
    lockedOrVendorSourceRoot crates disk base dependency = .ok (some root) := by
  unfold resolvedDependencyModuleRoot at h
  unfold lockedOrVendorSourceRoot lockedSourceRoot
  cases hsource : dependency.source with
  | path path =>
    simp only [hsource, bind_eq_ok] at h ⊢
    obtain ⟨found, hfound, h⟩ := h
    cases found with
    | none => exact ⟨none, ⟨none, hfound, rfl⟩, h⟩
    | some found =>
      obtain ⟨_, hroot⟩ := checkedRoot_eq_ok.mp h
      exact ⟨some root, ⟨some found, hfound, h⟩, rfl⟩
  | git git branch tag rev =>
    simp only [hsource, bind_eq_ok] at h ⊢
    obtain ⟨found, hfound, h⟩ := h
    cases found with
    | none => cases h
    | some found =>
      obtain ⟨_, hroot⟩ := checkedRoot_eq_ok.mp h
      rw [hroot]
      simpa only [lockedOrVendorSourceRoot, lockedSourceRoot, hsource, bind_eq_ok] using hfound
  | registry version registry =>
    simp only [hsource, bind_eq_ok] at h ⊢
    obtain ⟨found, hfound, h⟩ := h
    cases found with
    | none => exact ⟨none, ⟨none, hfound, rfl⟩, h⟩
    | some found => exact ⟨some root, ⟨some found, hfound, h⟩, rfl⟩

/-! ## The walk of the check -/

/-- The walk of the check, from a base, comes by a use. -/
inductive Checked (crates : Crates) (disk : SourceDisk) :
    String → List ResolvedDependency → SourceUse → Prop
  | here {base root : String} {dependency : ResolvedDependency}
      {dependencies : List ResolvedDependency} : dependency ∈ dependencies →
      lockedOrVendorSourceRoot crates disk base dependency = .ok (some root) →
      Checked crates disk base dependencies (dependency.use root)
  | inside {base root : String} {dependency : ResolvedDependency}
      {dependencies : List ResolvedDependency} {use : SourceUse} : dependency ∈ dependencies →
      lockedOrVendorSourceRoot crates disk base dependency = .ok (some root) →
      Checked crates disk root dependency.dependencies use →
      Checked crates disk base dependencies use

/-- The source has the bytes whose checksum the lock records. -/
def LockedBytes (crates : Crates) (disk : SourceDisk) (use : SourceUse) : Prop :=
  ∀ expected, use.checksum = some expected →
    packageChecksum crates (disk.packageAt use.root) = .ok expected

variable {dependencies : List ResolvedDependency}

theorem verifyLockedSourceChecksums_eq_ok :
    verifyLockedSourceChecksums crates disk base dependencies = .ok () ↔
      ∀ dependency ∈ dependencies, verifyLockedSourceChecksum crates disk base dependency = .ok () := by
  induction dependencies with
  | nil => simp [verifyLockedSourceChecksums]
  | cons dependency rest ih =>
    rw [verifyLockedSourceChecksums, bind_eq_ok, List.forall_mem_cons, ← ih]
    constructor
    · rintro ⟨⟨⟩, hfirst, hrest⟩
      exact ⟨hfirst, hrest⟩
    · rintro ⟨hfirst, hrest⟩
      exact ⟨(), hfirst, hrest⟩

/-- One step of the check: a dependency that is found is compared, and those below it are checked
from its root. -/
theorem verifyLockedSourceChecksum_found {root : String}
    (h : verifyLockedSourceChecksum crates disk base dependency = .ok ())
    (hroot : lockedOrVendorSourceRoot crates disk base dependency = .ok (some root)) :
    LockedBytes crates disk (dependency.use root) ∧
      verifyLockedSourceChecksums crates disk root dependency.dependencies = .ok () := by
  rcases dependency with ⟨aliasName, package, source, checksum, supplyChain, target, dependencies⟩
  simp only [verifyLockedSourceChecksum, hroot, bind_eq_ok] at h
  obtain ⟨_, hfound, h⟩ := h
  cases hfound
  obtain ⟨⟨⟩, hchecksum, hbelow⟩ := bind_eq_ok.mp h
  refine ⟨?_, hbelow⟩
  rintro expected hexpected
  simp only [ResolvedDependency.use] at hexpected
  subst hexpected
  simp only [checkLockedChecksum, bind_eq_ok, require_eq_ok] at hchecksum
  obtain ⟨actual, hactual, hsame⟩ := hchecksum
  rw [← hsame]
  exact hactual

theorem lockedBytes_of_checked {use : SourceUse}
    (hchecked : Checked crates disk base dependencies use)
    (hverify : verifyLockedSourceChecksums crates disk base dependencies = .ok ()) :
    LockedBytes crates disk use := by
  induction hchecked with
  | here hmem hroot =>
    exact (verifyLockedSourceChecksum_found (verifyLockedSourceChecksums_eq_ok.mp hverify _ hmem) hroot).1
  | inside hmem hroot _ ih =>
    exact ih (verifyLockedSourceChecksum_found
      (verifyLockedSourceChecksums_eq_ok.mp hverify _ hmem) hroot).2

/-! ## The entries that are used -/

/-- The use is of an entry, found from the base of the lock. -/
def EntryUse (crates : Crates) (disk : SourceDisk) (base : String) (entries : List ResolvedDependency)
    (use : SourceUse) : Prop :=
  ∃ entry ∈ entries, lockedOrVendorSourceRoot crates disk base entry = .ok (some use.root) ∧
    entry.use use.root = use

variable {entries : List ResolvedDependency}

theorem EntryUse.mono {more : List ResolvedDependency} {use : SourceUse}
    (h : EntryUse crates disk base entries use) (hsubset : ∀ entry ∈ entries, entry ∈ more) :
    EntryUse crates disk base more use := by
  obtain ⟨entry, hentry, hroot, huse⟩ := h
  exact ⟨entry, hsubset entry hentry, hroot, huse⟩

theorem entryUse_of_resolved {root : String} (hmem : dependency ∈ entries)
    (hroot : resolvedDependencyModuleRoot crates disk base dependency = .ok (some root)) :
    EntryUse crates disk base entries (dependency.use root) :=
  ⟨dependency, hmem, lockedOrVendor_of_resolved hroot, rfl⟩

@[simp] theorem filterDependencyForTarget_dependencies (target : TargetTriple)
    (dependency : ResolvedDependency) : (filterDependencyForTarget target dependency).dependencies =
      filterDependenciesForTarget target dependency.dependencies := by
  cases dependency
  rfl

@[simp] theorem use_filterDependencyForTarget (target : TargetTriple)
    (dependency : ResolvedDependency) (root : String) :
    (filterDependencyForTarget target dependency).use root = dependency.use root := by
  cases dependency
  rfl

@[simp] theorem lockedOrVendorSourceRoot_filter (target : TargetTriple)
    (dependency : ResolvedDependency) (base : String) :
    lockedOrVendorSourceRoot crates disk base (filterDependencyForTarget target dependency) =
      lockedOrVendorSourceRoot crates disk base dependency := by
  apply lockedOrVendorSourceRoot_congr
  all_goals
    cases dependency
    rfl

theorem exists_of_mem_filter {target : TargetTriple} {filtered : ResolvedDependency}
    (h : filtered ∈ filterDependenciesForTarget target dependencies) :
    ∃ dependency ∈ dependencies, filtered = filterDependencyForTarget target dependency := by
  induction dependencies with
  | nil => cases h
  | cons dependency rest ih =>
    rw [filterDependenciesForTarget] at h
    split_ifs at h with htarget
    · rcases List.mem_cons.mp h with rfl | h
      · exact ⟨dependency, List.mem_cons_self .., rfl⟩
      · obtain ⟨other, hother, rfl⟩ := ih h
        exact ⟨other, List.mem_cons_of_mem _ hother, rfl⟩
    · obtain ⟨other, hother, rfl⟩ := ih h
      exact ⟨other, List.mem_cons_of_mem _ hother, rfl⟩

theorem exists_of_mem_flatten_filter {target : TargetTriple} (dependency : ResolvedDependency) :
    ∀ filtered ∈ flattenDependency (filterDependencyForTarget target dependency),
      ∃ entry ∈ flattenDependency dependency, filtered = filterDependencyForTarget target entry := by
  induction dependency using ResolvedDependency.induct with
  | _ dependency ih =>
  rintro filtered hfiltered
  rw [flattenDependency_eq, filterDependencyForTarget_dependencies] at hfiltered
  rw [flattenDependency_eq]
  rcases List.mem_cons.mp hfiltered with rfl | hfiltered
  · exact ⟨dependency, List.mem_cons_self .., rfl⟩
  · obtain ⟨child, hchild, hmem⟩ := mem_flattenDependencies.mp hfiltered
    obtain ⟨child, hmember, rfl⟩ := exists_of_mem_filter hchild
    obtain ⟨entry, hentry, rfl⟩ := ih child hmember filtered hmem
    exact ⟨entry, List.mem_cons_of_mem _ (mem_flattenDependencies.mpr ⟨child, hmember, hentry⟩), rfl⟩

theorem EntryUse.of_filtered {target : TargetTriple} {filtered : List ResolvedDependency}
    {use : SourceUse} (h : EntryUse crates disk base filtered use)
    (hentries : ∀ node ∈ filtered, ∃ entry ∈ entries, node = filterDependencyForTarget target entry) :
    EntryUse crates disk base entries use := by
  obtain ⟨node, hnode, hroot, huse⟩ := h
  obtain ⟨entry, hentry, rfl⟩ := hentries node hnode
  rw [lockedOrVendorSourceRoot_filter] at hroot
  rw [use_filterDependencyForTarget] at huse
  exact ⟨entry, hentry, hroot, huse⟩

/-! ## What the builds use -/

theorem resolvedExternalModule_eq_some {found : ExternalModule × SourceUse}
    (h : resolvedExternalModule crates disk base dependency = .ok (some found)) :
    ∃ root, resolvedDependencyModuleRoot crates disk base dependency = .ok (some root) ∧
      found.2 = dependency.use root := by
  rw [resolvedExternalModule, bind_eq_ok] at h
  obtain ⟨root, hroot, h⟩ := h
  cases root with
  | none => cases h
  | some root =>
    simp only [bind_eq_ok, pure_eq_ok, Option.some.injEq] at h
    obtain ⟨_, -, _, -, rfl⟩ := h
    exact ⟨root, hroot, rfl⟩

theorem projectModuleContext_uses {root : String} {context : ProjectModuleContext}
    {uses : List SourceUse}
    (h : projectModuleContextFromResolvedDependencies crates disk root dependencies base =
      .ok (context, uses)) {use : SourceUse} (huse : use ∈ uses) :
    EntryUse crates disk base dependencies use := by
  simp only [projectModuleContextFromResolvedDependencies, bind_eq_ok, pure_eq_ok, Prod.mk.injEq] at h
  obtain ⟨_, -, _, -, modules, hmodules, -, rfl⟩ := h
  obtain ⟨found, hfound, rfl⟩ := List.mem_map.mp huse
  obtain ⟨_, hmodule, rfl⟩ := List.mem_filterMap.mp hfound
  obtain ⟨dependency, hdependency, hresolved⟩ := exists_of_mem_collect hmodules hmodule
  obtain ⟨root, hroot, huse⟩ := resolvedExternalModule_eq_some hresolved
  rw [huse]
  exact entryUse_of_resolved hdependency hroot

theorem FfiCollection.mem_add {collection : FfiCollection} {target : TargetTriple} {package : String}
    {use added : SourceUse} (h : use ∈ (collection.add disk target package added).uses) :
    use ∈ collection.uses ∨ use = added := by
  unfold FfiCollection.add at h
  split_ifs at h
  · exact .inl h
  · rcases List.mem_append.mp h with h | h
    · exact .inl h
    · exact .inr (List.mem_singleton.mp h)

/-- A step adds only uses of the given entries. -/
def AddsUses {S : Type} (crates : Crates) (disk : SourceDisk) (base : String)
    (uses : S → List SourceUse) (entries : List ResolvedDependency) (step : S → Except String S) :
    Prop :=
  ∀ before after, step before = .ok after →
    ∀ use ∈ uses after, use ∈ uses before ∨ EntryUse crates disk base entries use

/-- What a list of dependencies adds, if each adds from its entries. -/
theorem addsUses_all {S : Type} {uses : S → List SourceUse}
    {each : ResolvedDependency → S → Except String S}
    (all : List ResolvedDependency → S → Except String S) (hnil : ∀ s, all [] s = .ok s)
    (hcons : ∀ dependency rest s, all (dependency :: rest) s = each dependency s >>= all rest)
    (hstep : ∀ dependency ∈ dependencies,
      AddsUses crates disk base uses (flattenDependency dependency) (each dependency)) :
    AddsUses crates disk base uses (flattenDependencies dependencies) (all dependencies) := by
  induction dependencies with
  | nil =>
    intro before after h use huse
    cases (hnil before).symm.trans h
    exact .inl huse
  | cons dependency rest ih =>
    intro before after h use huse
    rw [hcons, bind_eq_ok] at h
    obtain ⟨middle, hfirst, hrest⟩ := h
    rw [flattenDependencies]
    rcases ih (fun d hd => hstep d (List.mem_cons_of_mem _ hd)) _ _ hrest use huse with huse | huse
    · refine (hstep dependency (List.mem_cons_self ..) before middle hfirst use huse).imp_right ?_
      exact fun huse => huse.mono fun entry => List.mem_append_left _
    · exact .inr (huse.mono fun entry => List.mem_append_right _)

theorem collectLockedFfi_uses {target : TargetTriple} (dependency : ResolvedDependency) :
    AddsUses crates disk base FfiCollection.uses (flattenDependency dependency)
      (collectLockedFfi crates disk base target dependency) := by
  induction dependency using ResolvedDependency.induct with
  | _ dependency ih =>
  rintro before after h use huse
  rcases dependency with ⟨aliasName, package, source, checksum, supplyChain, condition, dependencies⟩
  rw [collectLockedFfi, bind_eq_ok] at h
  obtain ⟨root, hroot, h⟩ := h
  cases root with
  | none =>
    cases h
    exact .inl huse
  | some root =>
    simp only [bind_eq_ok] at h
    obtain ⟨manifest, -, _, -, hbelow⟩ := h
    rw [flattenDependency_eq]
    rcases addsUses_all (collectLockedDependencyFfiMetadata crates disk base target)
      (fun _ => rfl) (fun _ _ _ => rfl) ih _ _ hbelow use huse with huse | huse
    · rcases FfiCollection.mem_add huse with huse | rfl
      · exact .inl huse
      · exact .inr (entryUse_of_resolved (List.mem_cons_self ..) hroot)
    · exact .inr (huse.mono fun entry => List.mem_cons_of_mem _)

section PackageGraph

variable {Symbol : Type} [DecidableEq Symbol]
  {collectPublicApi : String → Except String (List Symbol)}

theorem addResolvedPackage_uses {package id : PackageId} :
    AddsUses crates disk base GraphBuild.uses [dependency]
      (addResolvedPackage crates disk collectPublicApi base package id dependency) := by
  intro before after h
  rw [addResolvedPackage] at h
  split at h
  · cases h
  · cases h
  · cases h
  simp only [bind_eq_ok, pure_eq_ok] at h
  obtain ⟨root, hroot, _, -, _, -, rfl⟩ := h
  rintro use huse
  rcases List.mem_append.mp huse with huse | huse
  · exact .inl huse
  · obtain ⟨root, hmem, rfl⟩ := List.mem_map.mp huse
    rw [Option.mem_toList.mp hmem] at hroot
    exact .inr (entryUse_of_resolved (List.mem_singleton_self _) hroot)

theorem addResolvedDependency_uses (dependency : ResolvedDependency) (package : PackageId) :
    AddsUses crates disk base GraphBuild.uses (flattenDependency dependency)
      (addResolvedDependency crates disk collectPublicApi base package dependency) := by
  induction dependency using ResolvedDependency.induct generalizing package with
  | _ dependency ih =>
  rintro before after h use huse
  rcases dependency with ⟨aliasName, name, source, checksum, supplyChain, condition, dependencies⟩
  rw [addResolvedDependency, bind_eq_ok] at h
  obtain ⟨id, -, h⟩ := h
  obtain ⟨middle, hpackage, h⟩ := bind_eq_ok.mp h
  rw [flattenDependency_eq]
  have hhere : ∀ use ∈ middle.uses, use ∈ before.uses ∨ EntryUse crates disk base
      (⟨aliasName, name, source, checksum, supplyChain, condition, dependencies⟩ ::
        flattenDependencies dependencies) use := by
    rintro use huse
    refine (addResolvedPackage_uses _ _ hpackage use huse).imp_right fun huse => huse.mono ?_
    rintro entry hentry
    rw [List.mem_singleton.mp hentry]
    exact List.mem_cons_self ..
  split_ifs at h with hexpanded
  · cases h
    exact hhere use huse
  · rcases addsUses_all (addResolvedDependencies crates disk collectPublicApi base id)
      (fun _ => rfl) (fun _ _ _ => rfl) (fun d hd => ih d hd id) _ _ h use huse with huse | huse
    · exact hhere use huse
    · exact .inr (huse.mono fun entry => List.mem_cons_of_mem _)

end PackageGraph

/-! ## Locked builds -/

section LockedBuilds

variable {V R : Type} [DecidableEq V] {semver : Semver V R} {toml : Toml} {depth : ℕ}
  {project : ProjectPaths} {target : TargetTriple}

/-- The use is one of a module context, of FFI link metadata or of a package graph that is built,
locked, of a project for a target. -/
inductive LockedUse (crates : Crates) (disk : SourceDisk) {V R : Type} [DecidableEq V]
    (semver : Semver V R) (toml : Toml) (depth : ℕ) (project : ProjectPaths) (target : TargetTriple) :
    SourceUse → Prop
  | moduleContext {context : ProjectModuleContext} {uses : List SourceUse} {use : SourceUse} :
      lockedModuleContext crates disk semver toml depth project target = .ok (context, uses) →
      use ∈ uses → LockedUse crates disk semver toml depth project target use
  | ffiLinkMetadata {metadata : FfiLinkMetadata} {uses : List SourceUse} {use : SourceUse} :
      lockedFfiLinkMetadata crates disk semver toml depth project target = .ok (metadata, uses) →
      use ∈ uses → LockedUse crates disk semver toml depth project target use
  | packageGraph {Symbol : Type} [DecidableEq Symbol]
      {collectPublicApi : String → Except String (List Symbol)} {graph : PackageGraph Symbol}
      {uses : List SourceUse} {use : SourceUse} :
      lockedPackageGraph crates disk collectPublicApi semver toml depth project target =
        .ok (graph, uses) →
      use ∈ uses → LockedUse crates disk semver toml depth project target use

/-- The use is of an entry below a direct dependency of the lock, where the check did not come. -/
def Overlooked (crates : Crates) (disk : SourceDisk) {V R : Type} [DecidableEq V] (semver : Semver V R)
    (toml : Toml) (depth : ℕ) (project : ProjectPaths) (use : SourceUse) : Prop :=
  ∃ graph base, lockedGraphOf crates disk semver toml depth project = .ok (graph, base) ∧
    EntryUse crates disk base graph.below use ∧ ¬ Checked crates disk base graph.dependencies use

theorem lockedModuleContext_uses {context : ProjectModuleContext} {uses : List SourceUse}
    {use : SourceUse}
    (h : lockedModuleContext crates disk semver toml depth project target = .ok (context, uses))
    (huse : use ∈ uses) :
    ∃ graph base, lockedGraphOf crates disk semver toml depth project = .ok (graph, base) ∧
      EntryUse crates disk base graph.dependencies use := by
  rw [lockedModuleContext, bind_eq_ok] at h
  obtain ⟨⟨graph, base⟩, hlock, h⟩ := h
  exact ⟨graph, base, hlock, (projectModuleContext_uses h huse).of_filtered
    fun node hnode => exists_of_mem_filter hnode⟩

theorem LockedUse.entryUse {use : SourceUse}
    (h : LockedUse crates disk semver toml depth project target use) :
    ∃ graph base, lockedGraphOf crates disk semver toml depth project = .ok (graph, base) ∧
      EntryUse crates disk base graph.nodes use := by
  have hnodes : ∀ dependencies,
      ∀ node ∈ flattenDependencies (filterDependenciesForTarget target dependencies),
        ∃ entry ∈ flattenDependencies dependencies, node = filterDependencyForTarget target entry := by
    intro dependencies node hnode
    obtain ⟨filtered, hfiltered, hnode⟩ := mem_flattenDependencies.mp hnode
    obtain ⟨dependency, hdependency, rfl⟩ := exists_of_mem_filter hfiltered
    obtain ⟨entry, hentry, hnode⟩ := exists_of_mem_flatten_filter dependency node hnode
    exact ⟨entry, mem_flattenDependencies.mpr ⟨dependency, hdependency, hentry⟩, hnode⟩
  cases h with
  | moduleContext h huse =>
    obtain ⟨graph, base, hlock, huse⟩ := lockedModuleContext_uses h huse
    exact ⟨graph, base, hlock, huse.mono fun entry hentry =>
      DependencyGraph.mem_nodes.mpr (.inl hentry)⟩
  | ffiLinkMetadata h huse =>
    simp only [lockedFfiLinkMetadata, bind_eq_ok, pure_eq_ok, Prod.mk.injEq] at h
    obtain ⟨⟨manifest, start⟩, hstart, ⟨graph, base⟩, hlock, collection, hcollect, -, rfl⟩ := h
    have hempty : start.uses = [] := by
      simp only [projectFfi, bind_eq_ok, pure_eq_ok, Prod.mk.injEq] at hstart
      obtain ⟨_, -, _, -, -, rfl⟩ := hstart
      rfl
    refine ⟨graph, base, hlock, ?_⟩
    rcases addsUses_all (collectLockedDependencyFfiMetadata crates disk base target) (fun _ => rfl)
      (fun _ _ _ => rfl) (fun d _ => collectLockedFfi_uses d) _ _ hcollect _ huse with
      huse | huse
    · rw [hempty] at huse
      cases huse
    · exact huse.of_filtered (hnodes graph.dependencies)
  | packageGraph h huse =>
    simp only [lockedPackageGraph, bind_eq_ok, pure_eq_ok, Prod.mk.injEq] at h
    obtain ⟨⟨graph, base⟩, hlock, _, -, _, -, build, hbuild, -, rfl⟩ := h
    refine ⟨graph, base, hlock, ?_⟩
    rcases addsUses_all (addResolvedDependencies crates disk _ base _) (fun _ => rfl)
      (fun _ _ _ => rfl) (fun d _ => addResolvedDependency_uses d _) _ _ hbuild _ huse with huse | huse
    · cases huse
    · exact huse.of_filtered (hnodes graph.dependencies)

/-- How a locked graph was read, and the checks that it passed. -/
structure ReadLock (crates : Crates) (disk : SourceDisk) {V R : Type} [DecidableEq V]
    (semver : Semver V R) (toml : Toml) (depth : ℕ) (project : ProjectPaths) (graph : DependencyGraph)
    (base : String) (manifest : Manifest) (text : String) (parsed : ParsedLockfileRoot) : Prop where
  manifest_eq : disk.parseManifestAtRoot project.root = .ok manifest
  text_eq : disk.readToString (pushPath project.lockRoot "nomo.lock") = .ok text
  parsed_eq : semver.parseLockfileRoot toml depth text manifest.package.id = .ok parsed
  dependencies_eq : graph.dependencies = parsed.dependencies
  verified : verifyLockedSourceChecksums crates disk base graph.dependencies = .ok ()
  validated : semver.validateProjectLockDirectDependencies manifest graph = .ok ()

theorem readLock_of_lockedGraphOf {graph : DependencyGraph}
    (h : lockedGraphOf crates disk semver toml depth project = .ok (graph, base)) :
    ∃ manifest text parsed,
      ReadLock crates disk semver toml depth project graph base manifest text parsed := by
  simp only [lockedGraphOf, dependencyGraphAndSourceBaseFromLockfile, bind_eq_ok, pure_eq_ok,
    Prod.mk.injEq] at h
  obtain ⟨⟨_, _⟩, hread, other, hother, _, hvalidated, rfl, rfl⟩ := h
  obtain ⟨manifest, hmanifest, _, -, text, htext, parsed, hparsed, ⟨⟩, hverify, heq⟩ := hread
  cases heq
  obtain rfl : manifest = other := by
    rw [hmanifest] at hother
    exact Except.ok.inj hother
  exact ⟨manifest, text, parsed, hmanifest, htext, hparsed, rfl, hverify, hvalidated⟩

theorem verified_of_lockedGraphOf {graph : DependencyGraph}
    (h : lockedGraphOf crates disk semver toml depth project = .ok (graph, base)) :
    verifyLockedSourceChecksums crates disk base graph.dependencies = .ok () := by
  obtain ⟨_, _, _, hread⟩ := readLock_of_lockedGraphOf h
  exact hread.verified

theorem checked_of_direct {use : SourceUse} (h : EntryUse crates disk base dependencies use) :
    Checked crates disk base dependencies use := by
  obtain ⟨entry, hentry, hroot, huse⟩ := h
  rw [← huse]
  exact .here hentry hroot

/-- **What a module context uses are the locked bytes.** -/
theorem lockedModuleContext_lockedBytes {context : ProjectModuleContext} {uses : List SourceUse}
    {use : SourceUse}
    (h : lockedModuleContext crates disk semver toml depth project target = .ok (context, uses))
    (huse : use ∈ uses) : LockedBytes crates disk use := by
  obtain ⟨graph, base, hlock, huse⟩ := lockedModuleContext_uses h huse
  exact lockedBytes_of_checked (checked_of_direct huse) (verified_of_lockedGraphOf hlock)

theorem lockedBytes_of_not_overlooked {use : SourceUse}
    (h : LockedUse crates disk semver toml depth project target use)
    (hseen : ¬ Overlooked crates disk semver toml depth project use) : LockedBytes crates disk use := by
  obtain ⟨graph, base, hlock, huse⟩ := h.entryUse
  have hverify := verified_of_lockedGraphOf hlock
  obtain ⟨entry, hentry, hroot, heq⟩ := huse
  rcases DependencyGraph.mem_nodes.mp hentry with hdirect | hbelow
  · exact lockedBytes_of_checked (checked_of_direct ⟨entry, hdirect, hroot, heq⟩) hverify
  · by_contra hbytes
    refine hseen ⟨graph, base, hlock, ⟨entry, hbelow, hroot, heq⟩, fun hchecked => hbytes ?_⟩
    exact lockedBytes_of_checked hchecked hverify

/-- **Locked sources.** All that a locked build uses has the locked bytes if and only if what the
check overlooked has them. -/
theorem lockedBytes_iff_of_overlooked (crates : Crates) (disk : SourceDisk) (semver : Semver V R)
    (toml : Toml) (depth : ℕ) (project : ProjectPaths) (target : TargetTriple) :
    (∀ use, LockedUse crates disk semver toml depth project target use →
        LockedBytes crates disk use) ↔
      ∀ use, LockedUse crates disk semver toml depth project target use →
        Overlooked crates disk semver toml depth project use → LockedBytes crates disk use := by
  constructor
  · exact fun h use huse _ => h use huse
  · intro h use huse
    by_cases hoverlooked : Overlooked crates disk semver toml depth project use
    · exact h use huse hoverlooked
    · exact lockedBytes_of_not_overlooked huse hoverlooked

end LockedBuilds

end

/-! ## A source that was changed -/

namespace Sample

def libraryToml (name dependencies : String) : List UInt8 :=
  bytes ("[package]\nnamespace = \"acme\"\nname = \"" ++ name ++
    "\"\nversion = \"1.0.0\"\nedition = \"2026\"\n" ++ dependencies)

def utilDependencies : String :=
  "\n[dependencies]\njson = \x7b package = \"acme/json\", path = \"../json\" \x7d\n"

/-- A package with one source file. -/
def libraryRoot (location : String) (manifest source : List UInt8) : PackageRoot where
  location
  entries := .cons ⟨bytes "nomo.toml", by decide⟩ (.file (.ok manifest) true)
    (.cons ⟨bytes "src", by decide⟩ (.directory
      (.cons ⟨bytes "lib.nomo", by decide⟩ (.file (.ok source) true) .nil)) .nil)
  ffiSources := .ok []

/-- What `package_checksum` hashes of such a package. -/
def checksumInput (manifest source : List UInt8) : List UInt8 :=
  bytes "nomo.toml" ++ [0] ++ manifest ++ [0] ++ bytes "src/lib.nomo" ++ [0] ++ source ++ [0]

def utilSource : List UInt8 := bytes "pub fn run() -> void \x7b\x7d\n"

/-- The source of `json` that is on the disk. -/
def changedSource : List UInt8 := bytes "pub fn parse() -> void \x7b steal() \x7d\n"

/-- The hashes of what is on the disk. -/
def changedCrates : Crates := .tabulated
  [(checksumInput (libraryToml "util" utilDependencies) utilSource,
      .ofHex "1bece97704fbb17b16f6210c0db6acd1c34dfd553a22b6d60bae363fe2ebf8e6" (by decide)),
    (checksumInput (libraryToml "json" "") changedSource,
      .ofHex "4f490eaea58aecdfdaca98270bed83654e645f026259762bcc426b880775a332" (by decide))]
  [] []

/-- A library below `libs`, with the checksum of when it was locked. -/
def libsLibrary (name checksum : String) (dependencies : List ResolvedDependency) :
    ResolvedDependency where
  aliasName := name
  package := "acme/" ++ name
  source := .path ("libs/" ++ name)
  checksum := some ("sha256:" ++ checksum)
  supplyChain := none
  target := {}
  dependencies

/-- The checksum of `json` when it was locked. -/
def jsonChecksum : String := "7021462f6c13ece01164ca77d2bbb02bd3c130f884de06bdd6ddb01e6267bcd3"

/-- The lock: the application uses `util`, and `util` uses `json`. -/
def libsLock : DependencyGraph where
  root := (utilManifest "libs/util").package
  dependencies := [libsLibrary "util" "1bece97704fbb17b16f6210c0db6acd1c34dfd553a22b6d60bae363fe2ebf8e6"
    [libsLibrary "json" jsonChecksum []]]

def libsToml : String :=
  "[[package]]\nid = \"acme/util\"\nalias = \"util\"\nsource = \"path+libs/util\"\nchecksum = " ++
    "\"sha256:1bece97704fbb17b16f6210c0db6acd1c34dfd553a22b6d60bae363fe2ebf8e6\"\n" ++
    "dependencies = [\"json -> acme/json\"]\n\n" ++
    "[[package]]\nid = \"acme/json\"\nalias = \"json\"\nsource = \"path+libs/json\"\nchecksum = " ++
    "\"sha256:7021462f6c13ece01164ca77d2bbb02bd3c130f884de06bdd6ddb01e6267bcd3\"\n"

/-- The toml crate on this lockfile. -/
def libsTomlCrate : Toml where
  toString _ := libsToml
  fromStr text :=
    if text = lockfileHeader ++ libsToml then .ok (lockfileDocument libsLock)
    else .error "expected another lockfile"

def libraryManifest (name : String) (dependencies : List Dependency) : Manifest :=
  { utilManifest "libs/util" with
    package := { packageNamespace := "acme", name, version := "1.0.0", edition := "2026" }
    dependencies }

/-- The application with its two libraries, `json` changed since it was locked. -/
def changedDisk : SourceDisk where
  present path := path ∈ ["/home/user/app/libs/util", "/home/user/app/libs/json"]
  isDir path := path ∈ ["/home/user/app", "/home/user/app/libs/util", "/home/user/app/libs/json"]
  isFile path := path = "/home/user/app/nomo.lock"
  canonicalize path := .ok path
  readToString path :=
    if path = "/home/user/app/nomo.lock" then .ok (lockfileHeader ++ libsToml)
    else .error "No such file or directory (os error 2)"
  packageAt root :=
    if root = "/home/user/app/libs/util" then
      libraryRoot root (libraryToml "util" utilDependencies) utilSource
    else if root = "/home/user/app/libs/json" then
      libraryRoot root (libraryToml "json" "") changedSource
    else libraryRoot root (libraryToml "app" "") (bytes "fn main() -> void \x7b\x7d\n")
  parseManifestAtRoot root :=
    if root = "/home/user/app/libs/util" then
      .ok (libraryManifest "util" [{ aliasName := "json", package := "acme/json"
                                     source := .path "../json", target := {} }])
    else if root = "/home/user/app/libs/json" then .ok (libraryManifest "json" [])
    else if root = "/home/user/app" then .ok (utilManifest "libs/util")
    else .error "failed to read nomo.toml"
  ffiForTarget _ _ := ⟨[], [], [], [], []⟩
  gitRemoteUrl _ := none
  vendorFromToml _ := .error "expected a vendor manifest"

def libsProject : ProjectPaths where
  root := "/home/user/app"
  workspaceRoot := none

def linuxTarget : TargetTriple := ⟨"x86_64", "unknown", "linux", "gnu"⟩

def utilUse : SourceUse :=
  (libsLibrary "util" "1bece97704fbb17b16f6210c0db6acd1c34dfd553a22b6d60bae363fe2ebf8e6" []).use
    "/home/user/app/libs/util"

end Sample

open Sample in
theorem lockedModuleContext_lockedBytes_util : LockedBytes changedCrates changedDisk utilUse := by
  have hrun : (lockedModuleContext changedCrates changedDisk .rejecting libsTomlCrate 4 libsProject
      linuxTarget).map Prod.snd = .ok [utilUse] := by
    decide +kernel
  obtain ⟨⟨context, _⟩, hbuilt, rfl⟩ := map_eq_ok.1 hrun
  exact lockedModuleContext_lockedBytes hbuilt (List.mem_singleton_self _)

open Sample in
/-- `json` is used with other bytes than the locked ones. -/
theorem changedDisk_not_lockedBytes :
    ¬ ∀ (crates : Crates) (disk : SourceDisk) (semver : Semver ℕ Unit) (toml : Toml) (depth : ℕ)
      (project : ProjectPaths) (target : TargetTriple) (use : SourceUse),
      LockedUse crates disk semver toml depth project target use → LockedBytes crates disk use := by
  intro h
  have hrun : (lockedFfiLinkMetadata changedCrates changedDisk .rejecting libsTomlCrate 4 libsProject
      linuxTarget).map (fun built => built.2.map fun use => (use.root, use.checksum)) =
        .ok [("/home/user/app/libs/util",
            some "sha256:1bece97704fbb17b16f6210c0db6acd1c34dfd553a22b6d60bae363fe2ebf8e6"),
          ("/home/user/app/libs/json",
            some "sha256:7021462f6c13ece01164ca77d2bbb02bd3c130f884de06bdd6ddb01e6267bcd3")] := by
    decide +kernel
  have hnow : packageChecksum changedCrates (changedDisk.packageAt "/home/user/app/libs/json") =
      .ok "sha256:4f490eaea58aecdfdaca98270bed83654e645f026259762bcc426b880775a332" := by
    decide +kernel
  cases hbuilt : lockedFfiLinkMetadata changedCrates changedDisk .rejecting libsTomlCrate 4
      libsProject linuxTarget with
  | error message =>
    rw [hbuilt] at hrun
    cases hrun
  | ok built =>
    obtain ⟨metadata, uses⟩ := built
    rw [hbuilt] at hrun
    have huses : uses.map (fun use => (use.root, use.checksum)) = _ := Except.ok.inj hrun
    obtain ⟨use, huse, hjson⟩ : ∃ use ∈ uses, (use.root, use.checksum) =
        ("/home/user/app/libs/json",
          some "sha256:7021462f6c13ece01164ca77d2bbb02bd3c130f884de06bdd6ddb01e6267bcd3") := by
      rw [← List.mem_map, huses]
      exact List.mem_cons_of_mem _ (List.mem_singleton_self _)
    obtain ⟨hroot, hchecksum⟩ := Prod.mk.inj hjson
    have hlocked := h changedCrates changedDisk .rejecting libsTomlCrate 4 libsProject linuxTarget use
      (.ffiLinkMetadata hbuilt huse) _ hchecksum
    rw [hroot, hnow] at hlocked
    revert hlocked
    decide

end Nomo.Deps
