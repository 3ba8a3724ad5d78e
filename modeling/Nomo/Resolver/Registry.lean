import Nomo.Resolver.Archive
import Nomo.SupplyChain.Transparency

/-!
# Resolving a registry dependency

`resolve_registry_source_with_verification_policy` and what it calls (`nomo_resolver/src/lib.rs:309–560,
656–757, 891–969`, `registry_metadata.rs:76–219`): a version's metadata comes from the registry or,
offline, from the cache; the archive comes from the cache or from the registry; the archive is
compared with the metadata, the metadata's envelope is verified, and the archive is unpacked.

`Cache` is what the package cache holds for one package, version and registry, and for the registry.
Everything outside it, the files of a local registry, the network, the clock and the JSON text of the
data, is a field of `World`.
-/

namespace Nomo.Resolver

open Nomo.Lib Nomo.Lib.Checked Nomo.SupplyChain

/-! ## Metadata -/

/-- `ReleaseProvenance`. -/
structure ReleaseProvenance where
  schema : Nat
  builder : String
  builderVersion : String
  package : String
  version : String
  archiveChecksum : String
  manifestChecksum : String
deriving DecidableEq

/-- `RegistryVersionMetadata`. -/
structure RegistryVersionMetadata where
  package : String
  version : String
  checksum : String
  yanked : Bool
  publisherKeys : List PublisherKey
  signature : Option SignedReleaseEnvelope
  provenance : Option ReleaseProvenance
  transparency : Option TransparencyBundle
deriving DecidableEq

/-- `RegistryTrustPolicy`, here `TrustPolicy`. -/
inductive TrustPolicy
  | checksumOnly
  | signed
  | signedTransparent
deriving DecidableEq

/-- `RegistryTrustPolicy::as_str`. -/
def TrustPolicy.asStr : TrustPolicy → String
  | checksumOnly => "checksum-only"
  | signed => "signed"
  | signedTransparent => "signed+transparent"

/-- `VerifiedReleaseEvidence`. -/
structure VerifiedReleaseEvidence where
  keyId : String
  subjectDigest : String
  provenanceDigest : Option String
  transparencyRoot : Option String
  transparencySize : Option Nat
deriving DecidableEq

/-- `VerifiedRegistrySource`. -/
structure VerifiedRegistrySource where
  root : Option String
  evidence : Option VerifiedReleaseEvidence
deriving DecidableEq

/-- A `GET` request to a registry. -/
structure RegistryHttpRequest where
  endpoint : String
  path : String
  accept : String
  authorization : Option String

/-- `RegistryHttpResponse`. -/
structure RegistryHttpResponse where
  status : Nat
  body : List UInt8

/-! ## What the resolver works with -/

/-- The cache for one package, version and registry: `metadata.json`, `package.nomo-package` and
`source`; and for the registry: `tree-head.json` and `gossip-checkpoint.json`. -/
structure Cache where
  metadata : Option (List UInt8)
  archive : Option (List UInt8)
  source : Option Tree
  treeHead : Option (List UInt8)
  gossip : Option (List UInt8)
deriving DecidableEq

/-- What the resolver takes from elsewhere. -/
structure World where
  disk : Disk
  /-- The files of registries with a `file://` endpoint. -/
  files : String → Option (List UInt8)
  /-- `send_registry_http_request`. -/
  http : RegistryHttpRequest → Except String RegistryHttpResponse
  metadataFromJson : List UInt8 → Except String RegistryVersionMetadata
  metadataToJson : RegistryVersionMetadata → Except String (List UInt8)
  treeHeadFromJson : List UInt8 → Except String CachedTreeHead
  treeHeadToJson : CachedTreeHead → Except String (List UInt8)
  checkpointToJson : GossipCheckpoint → Except String (List UInt8)
  provenanceToJson : ReleaseProvenance → Except String String
  /-- `current_unix_seconds`. -/
  now : Nat

/-- A call of the resolver. -/
structure Request where
  baseRoot : String
  aliasName : String
  package : String
  version : String
  registry : Option String
  offline : Bool
  authorizationHeader : Option String
  trustPolicy : TrustPolicy
  transparencyPolicy : TransparencyVerificationPolicy

variable (crates : Crates) (world : World)

/-! ## Paths -/

/-- `registry_cache_key`. -/
def registryCacheKey : Option String → String
  | none => "default"
  | some registry => encodeHex (crates.sha256 (bytes registry)).bytes

/-- `registry_cache_root`. -/
def registryCacheRoot (baseRoot package version : String) (registry : Option String) : String :=
  let root := (split '/' package).foldl pushPath (pushPath baseRoot ".nomo/cache/registry")
  pushPath (pushPath root version) (registryCacheKey crates registry)

/-- The directory of `registry_trust_head_cache_path` and `registry_gossip_checkpoint_cache_path`. -/
def registryTrustRoot (baseRoot registry : String) : String :=
  pushPath (pushPath baseRoot ".nomo/cache/registry/trust") (registryCacheKey crates (some registry))

/-- `write_json_cache`, without the change it makes to the cache. -/
def writeJsonCache (parent file label : String) (json : Except String (List UInt8)) :
    Except String (List UInt8) := do
  let path := pushPath parent file
  let temporary := path ++ ".tmp"
  (permit (world.disk.createDir parent)).mapError fun err =>
    s!"failed to create {label} cache at {parent}: {err}"
  let content ← json.mapError fun err => s!"failed to encode {label}: {err}"
  (permit (world.disk.write temporary)).mapError fun err =>
    s!"failed to write {label} cache at {temporary}: {err}"
  (permit (world.disk.rename path)).mapError fun err =>
    s!"failed to install {label} cache at {path}: {err}"
  return content

/-! ## Metadata from the registry -/

/-- `is_registry_http_endpoint`. -/
def isRegistryHttpEndpoint (endpoint : String) : Bool :=
  (stripPrefix "http://" endpoint).isSome || (stripPrefix "https://" endpoint).isSome

/-- `package_segments`. -/
def packageSegments (package : String) : Except String (String × String) := do
  let (owner, name) ← orElse (splitOnce '/' package.toList)
    s!"registry package `{package}` must use canonical owner/package form"
  return (String.ofList owner, String.ofList name)

/-- The subject of a signed release is the release its metadata describes: the comparison in
`validate_version_metadata` (`registry_metadata.rs:197–200`). -/
def SubjectMatches (package version : String) (metadata : RegistryVersionMetadata) : Prop :=
  ∀ envelope ∈ metadata.signature, envelope.subject.package = package ∧
    envelope.subject.version = version ∧ envelope.subject.archiveChecksum = metadata.checksum

instance (package version : String) (metadata : RegistryVersionMetadata) :
    Decidable (SubjectMatches package version metadata) := by
  unfold SubjectMatches
  infer_instance

/-- `validate_version_metadata` (`registry_metadata.rs:176–208`). -/
def validateVersionMetadata (registry expectedPackage expectedVersion : String)
    (metadata : RegistryVersionMetadata) : Except String Unit := do
  require (metadata.package = expectedPackage)
    s!"registry `{registry}` returned version metadata for `{metadata.package}`, expected `{expectedPackage}`"
  crates.validateVersionLike "registry metadata version" metadata.version
  require (metadata.version = expectedVersion)
    s!"registry `{registry}` returned version `{metadata.version}`, expected `{expectedVersion}` for `{expectedPackage}`"
  validateChecksum "registry metadata" metadata.checksum
  each (fun envelope => crates.validateSubject envelope.subject) metadata.signature.toList
  require (SubjectMatches expectedPackage expectedVersion metadata)
    s!"registry `{registry}` returned a signed release subject that does not match `{expectedPackage}` {expectedVersion}"

/-- `read_optional_json_file`. -/
def readOptionalJsonFile (path label : String) : Except String (Option RegistryVersionMetadata) :=
  match world.files path with
  | none => return none
  | some content => do
    (permit (world.disk.read path)).mapError fun err => s!"failed to read {label} at {path}: {err}"
    some <$> (world.metadataFromJson content).mapError fun err =>
      s!"invalid {label} at {path}: {err}"

/-- `fetch_json`, for a version's metadata. -/
def fetchJson (registry path : String) (authorization : Option String) (package version : String) :
    Except String RegistryVersionMetadata := do
  let response ← world.http {
    endpoint := registry
    path := path
    accept := "application/json"
    authorization := authorization }
  require (response.status = 200)
    s!"registry `{registry}` failed to fetch metadata for package `{package}` version `{version}`: HTTP {response.status}"
  (world.metadataFromJson response.body).mapError fun err =>
    s!"registry `{registry}` returned invalid metadata JSON for `{package}`: {err}"

/-- The metadata that a registry holds for a version, before any check (`registry_metadata.rs:86–108`). -/
def readRegistryVersionMetadata (registry owner name package version : String)
    (authorization : Option String) : Except String (Option RegistryVersionMetadata) :=
  match stripPrefix "file://" registry with
  | some root =>
    readOptionalJsonFile world
      (["api/v1/packages", owner, name, version, "metadata.json"].foldl pushPath root)
      "registry version metadata"
  | none =>
    if isRegistryHttpEndpoint registry then
      some <$> fetchJson world registry s!"/api/v1/packages/{owner}/{name}/{version}"
        authorization package version
    else return none

/-- `load_registry_version_metadata` (`registry_metadata.rs:76–112`). -/
def loadRegistryVersionMetadata (registry package version : String)
    (authorization : Option String) : Except String (Option RegistryVersionMetadata) := do
  validatePackageId package
  crates.validateVersionLike "registry package version" version
  let (owner, name) ← packageSegments package
  let metadata ← readRegistryVersionMetadata world registry owner name package version authorization
  each (validateVersionMetadata crates registry package version) metadata.toList
  return metadata

/-! ## Metadata from the cache -/

/-- `read_cached_registry_version_metadata` (`lib.rs:691–722`). -/
def readCachedRegistryVersionMetadata (baseRoot package version registry : String)
    (cached : Option (List UInt8)) : Except String (Option RegistryVersionMetadata) :=
  let path := pushPath (registryCacheRoot crates baseRoot package version (some registry))
    "metadata.json"
  match cached with
  | none => return none
  | some content => do
    (permit (world.disk.read path)).mapError fun err =>
      s!"failed to read cached registry version metadata at {path}: {err}"
    let metadata ← (world.metadataFromJson content).mapError fun err =>
      s!"cached registry version metadata at {path} is invalid: {err}"
    require (metadata.package = package ∧ metadata.version = version)
      s!"cached registry version metadata at {path} contains `{metadata.package} {metadata.version}`, expected `{package} {version}`"
    return some metadata

/-- `write_cached_registry_version_metadata`. -/
def writeCachedRegistryVersionMetadata (baseRoot registry : String)
    (metadata : RegistryVersionMetadata) : Attempt Cache PUnit := do
  let content ← Attempt.lift (writeJsonCache world
    (registryCacheRoot crates baseRoot metadata.package metadata.version (some registry))
    "metadata.json" "registry version metadata" (world.metadataToJson metadata))
  Attempt.update fun cache => { cache with metadata := some content }

/-- The metadata that a call uses (`lib.rs:320–339`). -/
def registryMetadata (request : Request) : Attempt Cache (Option RegistryVersionMetadata) :=
  match request.registry with
  | none => pure none
  | some registry =>
    if (stripPrefix "file://" registry).isSome then
      Attempt.lift (loadRegistryVersionMetadata crates world registry request.package
        request.version request.authorizationHeader)
    else if request.offline then do
      let cached ← Attempt.read Cache.metadata
      Attempt.lift (readCachedRegistryVersionMetadata crates world request.baseRoot request.package
        request.version registry cached)
    else do
      let metadata ← Attempt.lift (loadRegistryVersionMetadata crates world registry
        request.package request.version request.authorizationHeader)
      if let some metadata := metadata then
        writeCachedRegistryVersionMetadata crates world request.baseRoot registry metadata
      return metadata

/-! ## Verification -/

/-- `PROVENANCE_SCHEMA`. -/
def provenanceSchema : Nat := 1

/-- `ReleaseProvenance::render`. -/
def renderProvenance (provenance : ReleaseProvenance) : Except String String := do
  require (provenance.schema = provenanceSchema)
    s!"unsupported provenance schema {provenance.schema}"
  validatePackageId provenance.package
  crates.validateVersionLike "provenance version" provenance.version
  validateSha256 "provenance archive checksum" provenance.archiveChecksum
  validateSha256 "provenance manifest checksum" provenance.manifestChecksum
  return (← world.provenanceToJson provenance) ++ "\n"

/-- `read_cached_tree_head`. -/
def readCachedTreeHead (path : String) (cached : Option (List UInt8)) :
    Except String (Option CachedTreeHead) :=
  match cached with
  | none => return none
  | some content => do
    (permit (world.disk.read path)).mapError fun err =>
      s!"failed to read cached transparency head at {path}: {err}"
    some <$> (world.treeHeadFromJson content).mapError fun err =>
      s!"cached transparency head at {path} is invalid: {err}"

/-- The part of `verify_registry_supply_chain` for transparency (`lib.rs:484–508`). -/
def verifyRegistryTransparency (request : Request) (registry : String)
    (metadata : RegistryVersionMetadata) (envelope : SignedReleaseEnvelope) :
    Attempt Cache CachedTreeHead := do
  let bundle ← Attempt.lift (orElse metadata.transparency
    s!"registry dependency `{request.aliasName}` requires a transparency inclusion proof")
  let trustRoot := registryTrustRoot crates request.baseRoot registry
  let content ← Attempt.read Cache.treeHead
  let cached ← Attempt.lift (readCachedTreeHead world (pushPath trustRoot "tree-head.json") content)
  let verified ← Attempt.lift
    ((crates.verifyTransparencyBundleWithPolicy bundle envelope cached request.transparencyPolicy
      request.offline world.now).mapError fun error =>
        s!"registry dependency `{request.aliasName}` transparency verification failed: {error}")
  let head ← Attempt.lift (writeJsonCache world trustRoot "tree-head.json" "transparency head"
    (world.treeHeadToJson verified.cachedHead))
  Attempt.update fun cache => { cache with treeHead := some head }
  let checkpoint ← Attempt.lift (writeJsonCache world trustRoot "gossip-checkpoint.json"
    "transparency gossip checkpoint" (world.checkpointToJson verified.gossipCheckpoint))
  Attempt.update fun cache => { cache with gossip := some checkpoint }
  return verified.cachedHead

/-- `verify_registry_supply_chain` (`lib.rs:442–509`). -/
def verifyRegistrySupplyChain (request : Request) (registry : String)
    (metadata : RegistryVersionMetadata) : Attempt Cache (Option VerifiedReleaseEvidence) := do
  if request.trustPolicy = .checksumOnly then
    return none
  else
    let envelope ← Attempt.lift (orElse metadata.signature
      s!"registry dependency `{request.aliasName}` requires a publisher signature under `{request.trustPolicy.asStr}` policy")
    Attempt.lift ((crates.verifyReleaseEnvelope envelope envelope.subject
      metadata.publisherKeys).mapError fun error =>
        s!"registry dependency `{request.aliasName}` publisher verification failed: {error}")
    Attempt.lift (each (fun expected => do
      let provenance ← orElse metadata.provenance
        s!"registry dependency `{request.aliasName}` is missing signed provenance"
      let rendered ← renderProvenance crates world provenance
      require (crates.sha256Digest (bytes rendered) = expected)
        s!"registry dependency `{request.aliasName}` provenance digest does not match the signed release")
      envelope.subject.provenanceDigest.toList)
    let subjectDigest ← Attempt.lift (crates.subjectDigest envelope.subject)
    let evidence : VerifiedReleaseEvidence := {
      keyId := envelope.signature.keyId
      subjectDigest := subjectDigest
      provenanceDigest := envelope.subject.provenanceDigest
      transparencyRoot := none
      transparencySize := none }
    if request.trustPolicy = .signedTransparent then
      let head ← verifyRegistryTransparency crates world request registry metadata envelope
      return some { evidence with
        transparencyRoot := some head.rootHash
        transparencySize := some head.treeSize }
    else
      return some evidence

/-- `verify_registry_manifest_checksum` (`lib.rs:511–540`). -/
def verifyRegistryManifestChecksum (request : Request) (metadata : RegistryVersionMetadata)
    (sourceRoot : String) (source : Option Tree) : Except String Unit :=
  if request.trustPolicy = .checksumOnly then .ok ()
  else
    each (fun envelope => do
      let path := pushPath sourceRoot "nomo.toml"
      (permit (world.disk.read path)).mapError fun err =>
        s!"failed to read signed manifest at {path}: {err}"
      let content ← orElse ((source.getD []).lookup ["nomo.toml"])
        s!"failed to read signed manifest at {path}"
      let actual := crates.sha256Digest content
      require (actual = envelope.subject.manifestChecksum)
        s!"signed manifest checksum mismatch for `{metadata.package}` {metadata.version}: expected {envelope.subject.manifestChecksum}, found {actual}")
      metadata.signature.toList

/-- `verify_registry_archive_checksum` (`lib.rs:542–556`). -/
def verifyRegistryArchiveChecksum (request : Request) (metadata : RegistryVersionMetadata)
    (archive : List UInt8) : Except String Unit :=
  let actual := archiveChecksum crates archive
  require (actual = metadata.checksum)
    s!"registry dependency `{request.aliasName}` archive checksum mismatch: expected {metadata.checksum}, found {actual}"

/-! ## The archive -/

/-- `fetch_registry_archive` (`lib.rs:937–969`). -/
def fetchRegistryArchive (request : Request) (registry : String) : Except String (List UInt8) := do
  let (owner, name) ← packageSegments request.package
  let authorization := (request.authorizationHeader.map trim).filter (· ≠ "")
  let response ← (world.http {
    endpoint := registry
    path := s!"/api/v1/packages/{owner}/{name}/{request.version}/download"
    accept := "application/octet-stream"
    authorization := authorization }).mapError fun err =>
      s!"failed to fetch registry dependency `{request.aliasName}`: {err}"
  require (response.status = 200)
    s!"registry `{registry}` failed to fetch dependency `{request.aliasName}`: HTTP {response.status}"
  return response.body

/-- `read_registry_archive` (`lib.rs:907–935`). -/
def readRegistryArchive (request : Request) (registry : String) :
    Except String (Option (List UInt8)) :=
  match stripPrefix "file://" registry with
  | some root => do
    let (owner, name) ← packageSegments request.package
    let path := ["api/v1/packages", owner, name, request.version, "download"].foldl pushPath root
    let content ← orElse (world.files path)
      s!"registry dependency `{request.aliasName}` archive is missing at {path}"
    (permit (world.disk.read path)).mapError fun err =>
      s!"failed to read registry dependency `{request.aliasName}` archive at {path}: {err}"
    return some content
  | none =>
    if isRegistryHttpEndpoint registry then some <$> fetchRegistryArchive world request registry
    else return none

/-- Unpack into the `source` directory of the cache. -/
def unpackSource (request : Request) (archive : List UInt8) (sourceRoot : String) :
    Attempt Cache PUnit :=
  Attempt.within Cache.source (fun source cache => { cache with source := source })
    (unpackPackageArchive crates world.disk archive request.package request.version sourceRoot)

/-! ## Resolution -/

/-- A source that is in the cache (`lib.rs:350–387`). -/
def resolveCachedSource (request : Request) (metadata : Option RegistryVersionMetadata)
    (sourceRoot : String) : Attempt Cache VerifiedRegistrySource :=
  match metadata, request.registry with
  | none, _ => pure ⟨some sourceRoot, none⟩
  | some _, none => Attempt.fail "registry metadata requires a registry endpoint"
  | some metadata, some registry => do
    let archivePath := pushPath
      (registryCacheRoot crates request.baseRoot request.package request.version request.registry)
      "package.nomo-package"
    let content ← Attempt.read Cache.archive
    let archive ← Attempt.lift (orElse content
      s!"cached registry dependency `{request.aliasName}` is missing its verified archive at {archivePath}")
    Attempt.lift ((permit (world.disk.read archivePath)).mapError fun err =>
      s!"failed to read cached registry dependency `{request.aliasName}` archive at {archivePath}: {err}")
    Attempt.lift (verifyRegistryArchiveChecksum crates request metadata archive)
    let evidence ← verifyRegistrySupplyChain crates world request registry metadata
    unpackSource crates world request archive sourceRoot
    let source ← Attempt.read Cache.source
    Attempt.lift (verifyRegistryManifestChecksum crates world request metadata sourceRoot source)
    return ⟨some sourceRoot, evidence⟩

/-- A source that has to be downloaded (`lib.rs:400–439`). -/
def resolveDownloadedSource (request : Request) (metadata : Option RegistryVersionMetadata)
    (registry : String) : Attempt Cache VerifiedRegistrySource := do
  match ← Attempt.lift (readRegistryArchive world request registry) with
  | none => return ⟨none, none⟩
  | some archive =>
    let evidence ← match metadata with
      | some metadata => do
        Attempt.lift (verifyRegistryArchiveChecksum crates request metadata archive)
        verifyRegistrySupplyChain crates world request registry metadata
      | none => pure none
    let cacheRoot := registryCacheRoot crates request.baseRoot request.package request.version
      (some registry)
    Attempt.lift (permit (world.disk.createDir cacheRoot))
    let archivePath := pushPath cacheRoot "package.nomo-package"
    Attempt.lift ((permit (world.disk.write archivePath)).mapError fun err =>
      s!"failed to cache registry dependency `{request.aliasName}` archive at {archivePath}: {err}")
    Attempt.update fun cache => { cache with archive := some archive }
    let sourceRoot := pushPath cacheRoot "source"
    unpackSource crates world request archive sourceRoot
    let source ← Attempt.read Cache.source
    Attempt.lift (each (fun metadata =>
      verifyRegistryManifestChecksum crates world request metadata sourceRoot source)
      metadata.toList)
    return ⟨some sourceRoot, evidence⟩

/-- `resolve_registry_source_with_verification_policy` (`lib.rs:309–440`). -/
def resolveRegistrySource (request : Request) : Attempt Cache VerifiedRegistrySource := do
  let metadata ← registryMetadata crates world request
  let suffix := if request.offline then " in the offline cache" else ""
  Attempt.lift (require (request.trustPolicy = .checksumOnly ∨ metadata.isSome = true)
    s!"registry dependency `{request.aliasName}` requires `{request.trustPolicy.asStr}` trust metadata, but none is available{suffix}")
  Attempt.lift (require (∀ m ∈ metadata, m.yanked = false)
    s!"registry dependency `{request.aliasName}` package `{request.package}` version `{request.version}` is yanked; an existing lockfile may continue to use it")
  if (← Attempt.read Cache.source).isSome then
    -- `registry_cached_source_root` (`lib.rs:558–574`)
    let sourceRoot := pushPath
      (registryCacheRoot crates request.baseRoot request.package request.version request.registry)
      "source"
    let sourceRoot ← Attempt.lift ((world.disk.canonicalize sourceRoot).mapError fun err =>
      s!"failed to resolve cached registry package `{request.package}` at {sourceRoot}: {err}")
    resolveCachedSource crates world request metadata sourceRoot
  else if request.offline then
    return ⟨none, none⟩
  else
    match request.registry with
    | none => return ⟨none, none⟩
    | some registry => resolveDownloadedSource crates world request metadata registry

end Nomo.Resolver
