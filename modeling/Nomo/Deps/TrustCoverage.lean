import Nomo.Deps.CurrentBuild
import Nomo.Deps.Fixpoint
import Nomo.Deps.LockedBytes

/-!
# The trust policy and what is built

A project may demand that registry dependencies are signed, or signed and logged. Resolution asks the
registry code for that, and a lock is refused unless its registry entries carry the evidence. Two ways
lead past both: a build without a lock resolves every registry dependency with checksums only
(`yields_checksumOnly` below), and a locked build uses sources that it does not compare with their
entries. `trusted_iff_of_not_compared` says that nothing else does.
-/

namespace Nomo.Deps

open Nomo.Lib Nomo.Lib.Checked Nomo.SupplyChain Nomo.Resolver Nomo.Packing
open Attempt (Yields yields_bind yields_pure yields_fail yields_collect)

/-! ## Evidence in a lock -/

/-- The source is from a registry. -/
def DependencySource.isRegistry : DependencySource → Bool
  | .registry _ _ => true
  | _ => false

/-- A lock entry carries the evidence that a policy demands. -/
def CarriesEvidence : TrustPolicy → ResolvedDependency → Prop
  | .checksumOnly, _ => True
  | .signed, entry => entry.supplyChain.isSome = true
  | .signedTransparent, entry => ∃ evidence, entry.supplyChain = some evidence ∧
      evidence.transparencyRoot.isSome = true ∧ evidence.transparencySize.isSome = true

theorem carriesEvidence_of_checkLockedTrust {policy : TrustPolicy} {entry : ResolvedDependency}
    (hregistry : entry.source.isRegistry = true)
    (h : checkLockedTrust policy entry.package entry.source entry.supplyChain = .ok ()) :
    CarriesEvidence policy entry := by
  cases hsource : entry.source with
  | path path | git git branch tag rev =>
    rw [hsource] at hregistry
    cases hregistry
  | registry version registry =>
    rw [hsource] at h
    cases policy with
    | checksumOnly => trivial
    | signed =>
      show entry.supplyChain.isSome = true
      exact require_eq_ok.mp h
    | signedTransparent =>
      simp only [checkLockedTrust, bind_eq_ok, orElse_eq_ok, require_eq_ok] at h
      exact h

theorem validateLockedTrust_eq_ok {policy : TrustPolicy} {dependency : ResolvedDependency} :
    validateLockedTrust policy dependency = .ok () ↔
      checkLockedTrust policy dependency.package dependency.source dependency.supplyChain = .ok () ∧
        validateLockedTrustPolicy policy dependency.dependencies = .ok () := by
  cases dependency
  rw [validateLockedTrust, bind_eq_ok]
  constructor
  · rintro ⟨⟨⟩, hhere, hbelow⟩
    exact ⟨hhere, hbelow⟩
  · rintro ⟨hhere, hbelow⟩
    exact ⟨(), hhere, hbelow⟩

theorem validateLockedTrustPolicy_eq_ok {policy : TrustPolicy}
    {dependencies : List ResolvedDependency} :
    validateLockedTrustPolicy policy dependencies = .ok () ↔
      ∀ dependency ∈ dependencies, validateLockedTrust policy dependency = .ok () := by
  induction dependencies with
  | nil => simp [validateLockedTrustPolicy]
  | cons dependency rest ih =>
    rw [validateLockedTrustPolicy, bind_eq_ok, List.forall_mem_cons, ← ih]
    constructor
    · rintro ⟨⟨⟩, hfirst, hrest⟩
      exact ⟨hfirst, hrest⟩
    · rintro ⟨hfirst, hrest⟩
      exact ⟨(), hfirst, hrest⟩

theorem carriesEvidence_of_validated {policy : TrustPolicy} (dependency : ResolvedDependency)
    (h : validateLockedTrust policy dependency = .ok ()) :
    ∀ entry ∈ flattenDependency dependency, entry.source.isRegistry = true →
      CarriesEvidence policy entry := by
  induction dependency using ResolvedDependency.induct with
  | _ dependency ih =>
  rintro entry hentry hregistry
  obtain ⟨hhere, hbelow⟩ := validateLockedTrust_eq_ok.mp h
  rw [flattenDependency_eq] at hentry
  rcases List.mem_cons.mp hentry with rfl | hentry
  · exact carriesEvidence_of_checkLockedTrust hregistry hhere
  · obtain ⟨child, hchild, hentry⟩ := mem_flattenDependencies.mp hentry
    exact ih child hchild (validateLockedTrustPolicy_eq_ok.mp hbelow child hchild) entry hentry
      hregistry

/-! ## What a build without a lock asks for -/

section Current

variable {σ V R : Type} [LinearOrder V] {semver : Semver V R} {sources : BuildSources σ V}

/-- A registry source was found by a call that asks for checksums only. -/
def ChecksumOnly (use : SourceUse) : Prop :=
  use.source.isRegistry = true → use.policy = some .checksumOnly

theorem dependencyModuleRoot_checksumOnly (base : String) (dependency : Dependency) (offline : Bool) :
    Yields (dependencyModuleRoot semver sources base dependency offline) fun found =>
      ∀ use ∈ found, ChecksumOnly use := by
  have hsource : Yields (unvalidatedModuleRoot semver sources base dependency offline) fun found =>
      ∀ use ∈ found, ChecksumOnly use := by
    unfold unvalidatedModuleRoot
    cases hsource : dependency.source with
    | path path | git git branch tag rev =>
      refine yields_bind fun root => yields_pure ?_
      rintro _ ⟨⟩ hregistry
      simp [Dependency.use, hsource, DependencySource.isRegistry] at hregistry
    | registry version registry =>
      refine yields_bind fun authorization => yields_bind fun selected => yields_bind fun resolved => ?_
      cases resolved.root with
      | none => exact yields_pure (by simp)
      | some root =>
        refine yields_bind fun manifest => yields_bind fun _ => yields_pure ?_
        rintro _ ⟨⟩ _
        rfl
  refine hsource.bind fun found hfound => ?_
  cases found with
  | none => exact yields_pure (by simp)
  | some use => exact yields_bind fun _ => yields_pure hfound

/-- A module context without a lock has registry sources of such calls. -/
theorem currentModuleContext_checksumOnly (root : String) (offline : Bool) (target : TargetTriple) :
    Yields (currentModuleContext semver sources root offline target) fun built =>
      ∀ use ∈ built.2, ChecksumOnly use := by
  have hmodule (dependency) : Yields (currentExternalModule semver sources root offline dependency)
      fun found => ∀ external ∈ found, ChecksumOnly external.2 := by
    refine (dependencyModuleRoot_checksumOnly root dependency offline).bind fun found hfound => ?_
    cases found with
    | none => exact yields_pure (by simp)
    | some use =>
      refine yields_bind fun manifest => yields_bind fun sourceImportRoot => yields_pure ?_
      rintro _ ⟨⟩
      exact hfound use rfl
  refine yields_bind fun manifest => yields_bind fun localModuleRoot => ?_
  refine (yields_collect fun dependency _ => hmodule dependency).bind fun modules hmodules => ?_
  refine yields_pure ?_
  rintro use huse
  obtain ⟨external, hexternal, rfl⟩ := List.mem_map.mp huse
  obtain ⟨found, hfound, hsome⟩ := List.mem_filterMap.mp hexternal
  exact hmodules found hfound external hsome

/-- A collection of FFI link metadata has registry sources of such calls. -/
def FfiCollection.ChecksumsOnly (collection : FfiCollection) : Prop :=
  ∀ use ∈ collection.uses, ChecksumOnly use

theorem collectCurrentFfis_checksumOnly
    {descend : List Dependency → String → FfiCollection → Attempt σ FfiCollection}
    (hdescend : ∀ dependencies base collection, collection.ChecksumsOnly →
      Yields (descend dependencies base collection) FfiCollection.ChecksumsOnly)
    (base : String) (offline : Bool) (target : TargetTriple) (dependencies : List Dependency)
    (collection : FfiCollection) (h : collection.ChecksumsOnly) :
    Yields (collectCurrentFfis semver sources descend base offline target dependencies collection)
      FfiCollection.ChecksumsOnly := by
  induction dependencies generalizing collection with
  | nil => exact yields_pure h
  | cons dependency rest ih =>
    refine Yields.bind (P := FfiCollection.ChecksumsOnly) ?_ fun collection h => ih collection h
    refine (dependencyModuleRoot_checksumOnly base dependency offline).bind fun found hfound => ?_
    cases found with
    | none => exact yields_pure h
    | some use =>
      refine yields_bind fun manifest => yields_bind fun _ => ?_
      split_ifs
      · exact yields_pure h
      refine yields_bind fun metadata => hdescend _ _ _ ?_
      rintro other hother
      rcases List.mem_append.mp hother with hother | hother
      · exact h other hother
      · rw [List.mem_singleton.mp hother]
        exact hfound use rfl

theorem collectCurrentDependencyFfi_checksumOnly (offline : Bool) (target : TargetTriple) (depth : ℕ) :
    ∀ dependencies base collection, collection.ChecksumsOnly →
      Yields (collectCurrentDependencyFfiMetadata semver sources offline target depth dependencies base
        collection) FfiCollection.ChecksumsOnly := by
  induction depth with
  | zero => exact fun _ _ _ _ => yields_fail
  | succ depth ih =>
    exact fun dependencies base collection h =>
      collectCurrentFfis_checksumOnly ih base offline target _ collection h

theorem currentFfiLinkMetadata_checksumOnly (root : String) (offline : Bool) (target : TargetTriple)
    (depth : ℕ) : Yields (currentFfiLinkMetadata semver sources root offline target depth) fun built =>
      ∀ use ∈ built.2, ChecksumOnly use := by
  refine yields_bind fun manifest => yields_bind fun _ => yields_bind fun metadata => ?_
  refine (collectCurrentDependencyFfi_checksumOnly offline target depth _ _ _ ?_).bind ?_
  · rintro use ⟨⟩
  · exact fun collection h => yields_pure h

end Current

/-! ## What is trusted -/

section

variable {σ V R : Type} [LinearOrder V]

/-- The entries of the lock of a project. -/
def lockEntries (disk : SourceDisk) (semver : Semver V R) (toml : Toml) (depth : ℕ)
    (project : ProjectPaths) : Except String (List ResolvedDependency) := do
  let manifest ← disk.parseManifestAtRoot project.root
  let text ← disk.readToString (pushPath project.lockRoot "nomo.lock")
  let parsed ← semver.parseLockfileRoot toml depth text manifest.package.id
  return flattenDependencies parsed.dependencies

/-- The source has the checksum of an entry that carries the evidence a policy demands. -/
def MatchesEvidence (crates : Crates) (disk : SourceDisk) (lock : Except String (List ResolvedDependency))
    (policy : TrustPolicy) (use : SourceUse) : Prop :=
  ∃ entries, lock = .ok entries ∧ ∃ entry ∈ entries, CarriesEvidence policy entry ∧
    ∃ expected, entry.checksum = some expected ∧
      packageChecksum crates (disk.packageAt use.root) = .ok expected

/-- The source was verified under a policy in this run, or matches such an entry. -/
def Trusted (crates : Crates) (disk : SourceDisk) (lock : Except String (List ResolvedDependency))
    (policy : TrustPolicy) (use : SourceUse) : Prop :=
  use.policy = some policy ∨ MatchesEvidence crates disk lock policy use

variable (crates : Crates) (disk : σ → SourceDisk) (semver : Semver V R) (sources : BuildSources σ V)
  (toml : Toml) (depth : ℕ) (project : ProjectPaths) (options : DependencyResolutionOptions)
  (target : TargetTriple)

/-- The use is one of a module context or of FFI link metadata that a run produces. -/
inductive BuildUse (world world' : σ) : SourceUse → Prop
  | moduleContext {context : ProjectModuleContext} {uses : List SourceUse} {use : SourceUse} :
      (projectModuleContext semver sources crates disk toml depth project options target).Gives world
        (context, uses) world' →
      use ∈ uses → BuildUse world world' use
  | ffiLinkMetadata {metadata : FfiLinkMetadata} {uses : List SourceUse} {use : SourceUse} :
      (projectFfiLinkMetadata semver sources crates disk toml depth project options target).Gives world
        (metadata, uses) world' →
      use ∈ uses → BuildUse world world' use

/-- The run compares the source with its entry: the lock is read, the entry records a checksum, and
the check of the checksums comes by. -/
def Compared (world : σ) (use : SourceUse) : Prop :=
  usesLock disk world project options = true ∧ use.checksum.isSome = true ∧
    ¬ Overlooked crates (disk world) semver toml depth project use

variable {crates disk semver sources toml depth project options target}

theorem projectModuleContext_of_lock {world : σ} (h : usesLock disk world project options = true) :
    projectModuleContext semver sources crates disk toml depth project options target world =
      (lockedModuleContext crates (disk world) semver toml depth project target, world) :=
  if_pos h

theorem projectModuleContext_of_current {world : σ}
    (h : ¬ usesLock disk world project options = true) :
    projectModuleContext semver sources crates disk toml depth project options target world =
      currentModuleContext semver sources project.root options.offline target world :=
  if_neg h

theorem projectFfiLinkMetadata_of_lock {world : σ} (h : usesLock disk world project options = true) :
    projectFfiLinkMetadata semver sources crates disk toml depth project options target world =
      (lockedFfiLinkMetadata crates (disk world) semver toml depth project target, world) :=
  if_pos h

theorem projectFfiLinkMetadata_of_current {world : σ}
    (h : ¬ usesLock disk world project options = true) :
    projectFfiLinkMetadata semver sources crates disk toml depth project options target world =
      currentFfiLinkMetadata semver sources project.root options.offline target depth world :=
  if_neg h

theorem BuildUse.locked {world world' : σ} {use : SourceUse}
    (h : BuildUse crates disk semver sources toml depth project options target world world' use)
    (hlock : usesLock disk world project options = true) :
    world' = world ∧ LockedUse crates (disk world) semver toml depth project target use := by
  cases h with
  | moduleContext h huse =>
    rw [Attempt.Gives, projectModuleContext_of_lock hlock] at h
    obtain ⟨hbuilt, rfl⟩ := Prod.mk.inj h
    exact ⟨rfl, .moduleContext hbuilt huse⟩
  | ffiLinkMetadata h huse =>
    rw [Attempt.Gives, projectFfiLinkMetadata_of_lock hlock] at h
    obtain ⟨hbuilt, rfl⟩ := Prod.mk.inj h
    exact ⟨rfl, .ffiLinkMetadata hbuilt huse⟩

/-- No registry source is verified under a policy that demands more than checksums. -/
theorem BuildUse.policy_ne {world world' : σ} {use : SourceUse} {policy : TrustPolicy}
    (h : BuildUse crates disk semver sources toml depth project options target world world' use)
    (hregistry : use.source.isRegistry = true) (hpolicy : policy ≠ .checksumOnly) :
    use.policy ≠ some policy := by
  by_cases hlock : usesLock disk world project options = true
  · obtain ⟨-, hlocked⟩ := h.locked hlock
    obtain ⟨_, _, -, entry, -, -, huse⟩ := hlocked.entryUse
    rw [← huse]
    exact nofun
  have hchecksum : ChecksumOnly use := by
    cases h with
    | moduleContext h huse =>
      rw [Attempt.Gives, projectModuleContext_of_current hlock] at h
      exact (currentModuleContext_checksumOnly _ _ _).of_gives h use huse
    | ffiLinkMetadata h huse =>
      rw [Attempt.Gives, projectFfiLinkMetadata_of_current hlock] at h
      exact (currentFfiLinkMetadata_checksumOnly _ _ _ _).of_gives h use huse
  rw [hchecksum hregistry]
  rintro ⟨⟩
  exact hpolicy rfl

theorem BuildUse.matchesEvidence_of_compared {world world' : σ} {use : SourceUse}
    {manifest : Manifest}
    (h : BuildUse crates disk semver sources toml depth project options target world world' use)
    (hmanifest : (disk world).parseManifestAtRoot project.root = .ok manifest)
    (hregistry : use.source.isRegistry = true)
    (hcompared : Compared crates disk semver toml depth project options world use) :
    MatchesEvidence crates (disk world') (lockEntries (disk world) semver toml depth project)
      manifest.trust use := by
  obtain ⟨hlock, hrecorded, hseen⟩ := hcompared
  obtain ⟨rfl, hlocked⟩ := h.locked hlock
  obtain ⟨graph, base, hgraph, entry, hentry, -, huse⟩ := hlocked.entryUse
  obtain ⟨expected, hexpected⟩ := Option.isSome_iff_exists.mp hrecorded
  have hbytes := lockedBytes_of_not_overlooked hlocked hseen expected hexpected
  obtain ⟨other, text, parsed, hread⟩ := readLock_of_lockedGraphOf hgraph
  obtain rfl : manifest = other := Except.ok.inj (hmanifest.symm.trans hread.manifest_eq)
  have hentries : lockEntries (disk world') semver toml depth project = .ok graph.nodes := by
    rw [lockEntries, bind_eq_ok]
    refine ⟨manifest, hmanifest, ?_⟩
    simp only [hread.text_eq, hread.parsed_eq, bind_eq_ok, Except.ok.injEq, exists_eq_left', pure_eq_ok]
    rw [DependencyGraph.nodes, hread.dependencies_eq]
  have hevidence : CarriesEvidence manifest.trust entry := by
    obtain ⟨dependency, hdependency, hmem⟩ := mem_flattenDependencies.mp hentry
    have htrust : validateLockedTrustPolicy manifest.trust graph.dependencies = .ok () := by
      have hvalidated := hread.validated
      rw [Semver.validateProjectLockDirectDependencies, bind_eq_ok] at hvalidated
      obtain ⟨_, -, htrust⟩ := hvalidated
      exact htrust
    refine carriesEvidence_of_validated dependency
      (validateLockedTrustPolicy_eq_ok.mp htrust dependency hdependency) entry hmem ?_
    rw [← huse] at hregistry
    exact hregistry
  refine ⟨graph.nodes, hentries, entry, hentry, hevidence, expected, ?_, hbytes⟩
  rw [← huse] at hexpected
  exact hexpected

/-- **What the trust policy covers.** Under a policy that demands more than checksums, all registry
sources of a run are trusted if and only if those that the run does not compare with their entries
match an entry with the evidence. -/
theorem trusted_iff_of_not_compared {world : σ} {manifest : Manifest}
    (hmanifest : (disk world).parseManifestAtRoot project.root = .ok manifest)
    (hpolicy : manifest.trust ≠ .checksumOnly) (world' : σ) :
    (∀ use, BuildUse crates disk semver sources toml depth project options target world world' use →
        use.source.isRegistry = true →
        Trusted crates (disk world') (lockEntries (disk world) semver toml depth project)
          manifest.trust use) ↔
      ∀ use, BuildUse crates disk semver sources toml depth project options target world world' use →
        use.source.isRegistry = true →
        ¬ Compared crates disk semver toml depth project options world use →
        MatchesEvidence crates (disk world') (lockEntries (disk world) semver toml depth project)
          manifest.trust use := by
  constructor
  · intro h use huse hregistry _
    exact (h use huse hregistry).resolve_left (huse.policy_ne hregistry hpolicy)
  · intro h use huse hregistry
    by_cases hcompared : Compared crates disk semver toml depth project options world use
    · exact .inr (huse.matchesEvidence_of_compared hmanifest hregistry hcompared)
    · exact .inr (h use huse hregistry hcompared)

end

/-! ## An unsigned package in a build that demands signatures -/

namespace Sample

/-- The source of `acme/json` in the cache. -/
def cachedJson : String := "/home/user/app/.nomo/cache/registry/acme/json/1.0.0/default/source"

/-- The application demands signatures and uses `acme/json` from the default registry. -/
def signedManifest : Manifest :=
  { manifest "app" "0.1.0" [{ aliasName := "json", package := "acme/json"
                              source := .registry "1.0.0" none, target := {} }] with
    trust := .signed }

def signedManifestAt (root : String) : Except String Manifest :=
  if root = "/home/user/app" then .ok signedManifest
  else if root = cachedJson then .ok (manifest "json" "1.0.0" [])
  else .error "failed to read nomo.toml"

/-- A disk without a lock. -/
def signedDisk : SourceDisk where
  present path := path = cachedJson
  isDir path := path ∈ ["/home/user/app", cachedJson]
  isFile _ := false
  canonicalize path := .ok path
  readToString _ := .error "No such file or directory (os error 2)"
  packageAt root := libraryRoot root (libraryToml "json" "") changedSource
  parseManifestAtRoot := signedManifestAt
  ffiForTarget _ _ := ⟨[], [], [], [], []⟩
  gitRemoteUrl _ := none
  vendorFromToml _ := .error "expected a vendor manifest"

/-- A cache with a package that nobody signed, and no registry. -/
def signedSources : BuildSources Unit ℕ where
  canonicalize path := pure path
  readFile _ := Attempt.fail "No such file or directory (os error 2)"
  checkpointFromJson _ := .error "no checkpoint"
  checkpointsFromJson _ := .error "no checkpoint"
  parseManifestAtRoot root := Attempt.lift (signedManifestAt root)
  packageChecksum _ := pure
    "sha256:4f490eaea58aecdfdaca98270bed83654e645f026259762bcc426b880775a332"
  resolveGitSource _ _ _ _ _ _ _ _ := Attempt.fail "no git"
  gitHeadRev _ := Attempt.fail "no git"
  registryDependencyAuthorization _ := pure none
  loadRegistryVersionCandidates _ _ _ _ _ _ := Attempt.fail "no registry"
  resolveRegistrySource request :=
    if request.trustPolicy = .checksumOnly then pure { root := some cachedJson, evidence := none }
    else Attempt.fail
      (s!"registry dependency `{request.aliasName}` requires `{request.trustPolicy.asStr}` " ++
        "trust metadata, but none is available")
  packageSourceFiles _ := pure ⟨⟩
  ffiForTarget _ _ := pure ⟨[], [], [], [], []⟩

/-- A build without a lock. -/
def currentOptions : DependencyResolutionOptions where
  locked := false
  offline := false

end Sample

open Sample in
/-- The condition, for the application. -/
theorem trusted_iff_of_not_compared_signed :
    (∀ use, BuildUse changedCrates (fun _ => signedDisk) Sample.semver signedSources libsTomlCrate 4
        libsProject currentOptions linuxTarget () () use → use.source.isRegistry = true →
        Trusted changedCrates signedDisk
          (lockEntries signedDisk Sample.semver libsTomlCrate 4 libsProject) signedManifest.trust use) ↔
      ∀ use, BuildUse changedCrates (fun _ => signedDisk) Sample.semver signedSources libsTomlCrate 4
        libsProject currentOptions linuxTarget () () use → use.source.isRegistry = true →
        ¬ Compared changedCrates (fun _ => signedDisk) Sample.semver libsTomlCrate 4 libsProject
          currentOptions () use →
        MatchesEvidence changedCrates signedDisk
          (lockEntries signedDisk Sample.semver libsTomlCrate 4 libsProject) signedManifest.trust use := by
  refine trusted_iff_of_not_compared ?_ ?_ ()
  · rfl
  · decide

open Sample in
/-- The unsigned package is used. -/
theorem signedDisk_not_trusted :
    ¬ ∀ (crates : Crates) (disk : Unit → SourceDisk) (semver : Semver ℕ Unit)
      (sources : BuildSources Unit ℕ) (toml : Toml) (depth : ℕ) (project : ProjectPaths)
      (options : DependencyResolutionOptions) (target : TargetTriple) (world world' : Unit)
      (manifest : Manifest), (disk world).parseManifestAtRoot project.root = .ok manifest →
      manifest.trust ≠ .checksumOnly → ∀ use,
      BuildUse crates disk semver sources toml depth project options target world world' use →
      use.source.isRegistry = true →
      Trusted crates (disk world') (lockEntries (disk world) semver toml depth project)
        manifest.trust use := by
  intro h
  let use : SourceUse := ⟨"acme/json", .registry "1.0.0" none, none, cachedJson, some .checksumOnly⟩
  have hbuilt : (projectModuleContext Sample.semver signedSources changedCrates (fun _ => signedDisk)
      libsTomlCrate 4 libsProject currentOptions linuxTarget).Gives ()
        (moduleContext "/home/user/app" signedManifest "app" ["json"]
          [⟨"json", "json", "acme/json", cachedJson ++ "/src"⟩], [use]) () := by
    show _ = _
    decide +kernel
  have htrusted := h changedCrates (fun _ => signedDisk) Sample.semver signedSources libsTomlCrate 4
    libsProject currentOptions linuxTarget () () signedManifest rfl (by decide) use
    (.moduleContext hbuilt (List.mem_singleton_self _)) rfl
  rcases htrusted with hpolicy | ⟨entries, hentries, -⟩
  · cases hpolicy
  · have hnone : lockEntries signedDisk Sample.semver libsTomlCrate 4 libsProject =
        .error "No such file or directory (os error 2)" := rfl
    rw [hnone] at hentries
    cases hentries

end Nomo.Deps
