import Nomo.Resolver.Registry

/-!
# The archive behind a signed release

Under a signed policy, a source that `resolve_registry_source_with_verification_policy` returns should
be unpacked from the archive that a trusted publisher signed, under the package and version that was
asked for.  The archive is compared with the checksum in the metadata, and the envelope in the metadata
with the keys in the metadata.  What ties the two together is the comparison in
`validate_version_metadata`, which metadata from the registry passes through and metadata from the
cache does not: `verify_registry_supply_chain` compares the envelope's subject only with itself
(`lib.rs:461`).

So the binding holds for metadata from the registry, and for cached metadata exactly when its envelope
is for the release it describes.
-/

namespace Nomo.Resolver

open Nomo.Lib Nomo.Lib.Checked Nomo.Lib.Attempt Nomo.SupplyChain

@[simp] theorem permit_eq_ok {refusal : Option String} {u : Unit} :
    permit refusal = .ok u ↔ refusal = none := by
  cases refusal <;> simp [permit]

section

variable {crates : Crates} {world : World}

/-! ## Where the metadata comes from -/

/-- The metadata comes from the registry: a local one, or any when the call is not offline. -/
def Request.Fetched (request : Request) : Prop :=
  request.offline = false ∨ ∃ registry ∈ request.registry,
    (stripPrefix "file://" registry).isSome = true

/-- The metadata that a call finds: in the registry, or in the cache. -/
def Finds (crates : Crates) (world : World) (request : Request) (cache : Cache)
    (metadata : RegistryVersionMetadata) : Prop :=
  ∃ registry ∈ request.registry,
    (request.Fetched ∧ loadRegistryVersionMetadata crates world registry request.package
      request.version request.authorizationHeader = .ok (some metadata)) ∨
    (¬ request.Fetched ∧ readCachedRegistryVersionMetadata crates world request.baseRoot
      request.package request.version registry cache.metadata = .ok (some metadata))

theorem subjectMatches_of_load {registry package version : String} {authorization : Option String}
    {metadata : RegistryVersionMetadata}
    (h : loadRegistryVersionMetadata crates world registry package version authorization
      = .ok (some metadata)) : SubjectMatches package version metadata := by
  simp only [loadRegistryVersionMetadata, bind_eq_ok, each_eq_ok, pure_eq_ok] at h
  obtain ⟨_, -, _, -, _, -, found, -, _, hvalid, rfl⟩ := h
  have hvalid := hvalid metadata (by simp)
  simp only [validateVersionMetadata, bind_eq_ok, require_eq_ok] at hvalid
  obtain ⟨_, -, _, -, _, -, _, -, _, -, hmatches⟩ := hvalid
  exact hmatches

/-- Finding the metadata changes neither the archive nor the source in the cache. -/
theorem registryMetadata_gives {request : Request} {cache cache' : Cache}
    {metadata : RegistryVersionMetadata}
    (h : (registryMetadata crates world request).Gives cache (some metadata) cache') :
    Finds crates world request cache metadata ∧ cache'.archive = cache.archive ∧
      cache'.source = cache.source := by
  unfold registryMetadata at h
  cases hregistry : request.registry with
  | none => simp [hregistry] at h
  | some registry =>
    simp only [hregistry] at h
    split_ifs at h with hfile hoffline
    · obtain ⟨hload, rfl⟩ := lift_gives.1 h
      have hfetched : request.Fetched := .inr ⟨registry, hregistry, hfile⟩
      exact ⟨⟨registry, hregistry, .inl ⟨hfetched, hload⟩⟩, rfl, rfl⟩
    · simp only [bind_gives, read_gives, lift_gives] at h
      obtain ⟨_, _, ⟨rfl, rfl⟩, hread, rfl⟩ := h
      refine ⟨⟨registry, hregistry, .inr ⟨?_, hread⟩⟩, rfl, rfl⟩
      rintro (honline | ⟨_, hr, hfile'⟩)
      · rw [hoffline] at honline
        cases honline
      · obtain rfl : registry = _ := Option.some_inj.1 (hregistry.symm.trans hr)
        exact hfile hfile'
    · simp only [bind_gives, lift_gives] at h
      obtain ⟨found, _, ⟨hload, rfl⟩, h⟩ := h
      have hfetched : request.Fetched := .inl (Bool.eq_false_iff.2 hoffline)
      cases found with
      | none => simp at h
      | some found =>
        simp only [writeCachedRegistryVersionMetadata, bind_gives, lift_gives, update_gives,
          pure_gives] at h
        obtain ⟨_, _, ⟨_, _, ⟨-, rfl⟩, rfl⟩, hfound, rfl⟩ := h
        obtain rfl : found = metadata := Option.some_inj.1 hfound
        exact ⟨⟨registry, hregistry, .inl ⟨hfetched, hload⟩⟩, rfl, rfl⟩

/-! ## What verification says -/

/-- Verification under a signed policy: the metadata has an envelope that its keys verify, and the
archive and the source in the cache stay as they are. -/
theorem verifyRegistrySupplyChain_gives {request : Request} {registry : String}
    {metadata : RegistryVersionMetadata} {cache cache' : Cache}
    {evidence : Option VerifiedReleaseEvidence} (hpolicy : request.trustPolicy ≠ .checksumOnly)
    (h : (verifyRegistrySupplyChain crates world request registry metadata).Gives cache evidence
      cache') :
    (∃ envelope, metadata.signature = some envelope ∧ crates.verifyReleaseEnvelope envelope
      envelope.subject metadata.publisherKeys = .ok ()) ∧
      cache'.archive = cache.archive ∧ cache'.source = cache.source := by
  unfold verifyRegistrySupplyChain at h
  rw [if_neg hpolicy] at h
  simp only [bind_gives, lift_gives, orElse_eq_ok, mapError_eq_ok] at h
  obtain ⟨envelope, _, ⟨henvelope, rfl⟩, _, _, ⟨hverify, rfl⟩, _, _, ⟨-, rfl⟩, _, _, ⟨-, rfl⟩, h⟩ := h
  refine ⟨⟨envelope, henvelope, hverify⟩, ?_⟩
  split_ifs at h with htransparent
  · simp only [verifyRegistryTransparency, bind_gives, lift_gives, read_gives, update_gives,
      pure_gives] at h
    -- Only the tree head and the checkpoint are written.
    obtain ⟨_, _, ⟨_, _, ⟨-, rfl⟩, _, _, ⟨-, rfl⟩, _, _, ⟨-, rfl⟩, _, _, ⟨-, rfl⟩, _, _, ⟨-, rfl⟩,
      _, _, rfl, _, _, ⟨-, rfl⟩, _, _, rfl, -, rfl⟩, -, rfl⟩ := h
    exact ⟨rfl, rfl⟩
  · obtain ⟨-, rfl⟩ := pure_gives.1 h
    exact ⟨rfl, rfl⟩

/-- A source in the cache was unpacked from the archive in the cache. -/
structure UnpackedFrom (crates : Crates) (world : World) (request : Request) (cache : Cache)
    (archive : List UInt8) (root : String) : Prop where
  cached : cache.archive = some archive
  unpacked : ∃ before, (unpackPackageArchive crates world.disk archive request.package
    request.version root).Gives before ⟨⟩ cache.source

theorem unpackSource_gives {request : Request} {archive : List UInt8} {root : String}
    {cache cache' : Cache} {u : PUnit}
    (h : (unpackSource crates world request archive root).Gives cache u cache') :
    cache'.archive = cache.archive ∧ ∃ before, (unpackPackageArchive crates world.disk archive
      request.package request.version root).Gives before ⟨⟩ cache'.source := by
  obtain ⟨tree, hunpack, rfl⟩ := within_gives.1 h
  exact ⟨rfl, cache.source, hunpack⟩

/-- What a successful call under a signed policy has checked and done. -/
structure Verified (crates : Crates) (world : World) (request : Request) (cache : Cache)
    (metadata : RegistryVersionMetadata) (root : String) (archive : List UInt8) : Prop where
  checksum : archiveChecksum crates archive = metadata.checksum
  envelope : ∃ envelope, metadata.signature = some envelope ∧ crates.verifyReleaseEnvelope envelope
    envelope.subject metadata.publisherKeys = .ok ()
  unpacked : UnpackedFrom crates world request cache archive root

theorem resolveCachedSource_gives {request : Request} {metadata : RegistryVersionMetadata}
    {sourceRoot root : String} {cache cache' : Cache} {source : VerifiedRegistrySource}
    (hpolicy : request.trustPolicy ≠ .checksumOnly) (hroot : source.root = some root)
    (h : (resolveCachedSource crates world request (some metadata) sourceRoot).Gives cache source
      cache') :
    ∃ archive, Verified crates world request cache' metadata root archive := by
  unfold resolveCachedSource at h
  cases hregistry : request.registry with
  | none => simp [hregistry] at h
  | some registry =>
    simp only [hregistry, bind_gives, read_gives, lift_gives, orElse_eq_ok, mapError_eq_ok,
      permit_eq_ok, verifyRegistryArchiveChecksum, require_eq_ok, pure_gives] at h
    obtain ⟨_, _, ⟨rfl, rfl⟩, archive, _, ⟨harchive, rfl⟩, _, _, ⟨-, rfl⟩, _, _, ⟨hchecksum, rfl⟩,
      evidence, cache₁, hsupply, _, cache₂, hunpack, _, _, ⟨-, rfl⟩, _, _, ⟨-, rfl⟩, rfl, rfl⟩ := h
    obtain rfl : sourceRoot = root := Option.some_inj.1 hroot
    obtain ⟨henvelope, hkeep, -⟩ := verifyRegistrySupplyChain_gives hpolicy hsupply
    obtain ⟨hkeep', hunpacked⟩ := unpackSource_gives hunpack
    exact ⟨archive, hchecksum, henvelope, (hkeep'.trans hkeep).trans harchive, hunpacked⟩

theorem resolveDownloadedSource_gives {request : Request} {metadata : RegistryVersionMetadata}
    {registry root : String} {cache cache' : Cache} {source : VerifiedRegistrySource}
    (hpolicy : request.trustPolicy ≠ .checksumOnly) (hroot : source.root = some root)
    (h : (resolveDownloadedSource crates world request (some metadata) registry).Gives cache source
      cache') :
    ∃ archive, Verified crates world request cache' metadata root archive := by
  simp only [resolveDownloadedSource, bind_gives, lift_gives] at h
  obtain ⟨found, _, ⟨-, rfl⟩, h⟩ := h
  cases found with
  | none =>
    obtain ⟨rfl, -⟩ := pure_gives.1 h
    cases hroot
  | some archive =>
    simp only [bind_gives, lift_gives, read_gives, update_gives, mapError_eq_ok,
      permit_eq_ok, verifyRegistryArchiveChecksum, require_eq_ok, pure_gives] at h
    obtain ⟨_, _, ⟨hchecksum, rfl⟩, evidence, cache₁, hsupply, _, _, ⟨-, rfl⟩, _, _, ⟨-, rfl⟩,
      _, _, rfl, _, cache₂, hunpack, _, _, ⟨-, rfl⟩, _, _, ⟨-, rfl⟩, rfl, rfl⟩ := h
    obtain rfl : _ = root := Option.some_inj.1 hroot
    obtain ⟨henvelope, -, -⟩ := verifyRegistrySupplyChain_gives hpolicy hsupply
    obtain ⟨hkeep, hunpacked⟩ := unpackSource_gives hunpack
    exact ⟨archive, hchecksum, henvelope, hkeep, hunpacked⟩

/-- **What a source returned under a signed policy has passed**, on every path to it. -/
theorem resolveRegistrySource_gives {request : Request} {cache cache' : Cache} {root : String}
    {source : VerifiedRegistrySource} (hpolicy : request.trustPolicy ≠ .checksumOnly)
    (hroot : source.root = some root)
    (h : (resolveRegistrySource crates world request).Gives cache source cache') :
    ∃ metadata archive, Finds crates world request cache metadata ∧
      Verified crates world request cache' metadata root archive := by
  simp only [resolveRegistrySource, bind_gives, lift_gives, require_eq_ok, read_gives] at h
  obtain ⟨found, cache₁, hfound, _, _, ⟨hsome, rfl⟩, _, _, ⟨-, rfl⟩, _, _, ⟨rfl, rfl⟩, h⟩ := h
  obtain ⟨metadata, rfl⟩ := Option.isSome_iff_exists.1 (hsome.resolve_left hpolicy)
  obtain ⟨hfinds, -, -⟩ := registryMetadata_gives hfound
  split_ifs at h with hsource hoffline
  · -- The source is in the cache.
    simp only [bind_gives, lift_gives] at h
    obtain ⟨sourceRoot, _, ⟨-, rfl⟩, h⟩ := h
    obtain ⟨archive, hverified⟩ := resolveCachedSource_gives hpolicy hroot h
    exact ⟨metadata, archive, hfinds, hverified⟩
  · obtain ⟨rfl, -⟩ := pure_gives.1 h
    cases hroot
  · cases hregistry : request.registry with
    | none =>
      simp only [hregistry, pure_gives] at h
      obtain ⟨rfl, -⟩ := h
      cases hroot
    | some registry =>
      rw [hregistry] at h
      obtain ⟨archive, hverified⟩ := resolveDownloadedSource_gives hpolicy hroot h
      exact ⟨metadata, archive, hfinds, hverified⟩

/-! ## The binding -/

/-- One of the trusted keys is the one an envelope is signed with: the last check of
`verify_release_envelope`. -/
def Authorizes (trusted : List PublisherKey) (envelope : SignedReleaseEnvelope) : Prop :=
  (trusted.any fun key => key.keyId == envelope.signature.keyId &&
    eqIgnoreAsciiCase key.publicKey envelope.signature.publicKey) = true

theorem verifyReleaseEnvelope_trusted {envelope : SignedReleaseEnvelope}
    {authorized trusted : List PublisherKey}
    (h : crates.verifyReleaseEnvelope envelope envelope.subject authorized = .ok ()) :
    crates.verifyReleaseEnvelope envelope envelope.subject trusted = .ok () ↔
      Authorizes trusted envelope := by
  simp only [Crates.verifyReleaseEnvelope, bind_eq_ok, require_eq_ok] at h ⊢
  obtain ⟨_, -, _, hsignature, -⟩ := h
  constructor
  · rintro ⟨_, -, _, -, htrusted⟩
    exact htrusted
  · intro htrusted
    exact ⟨⟨⟩, trivial, _, hsignature, htrusted⟩

/-- An archive is the one in the subject of an envelope of the metadata, signed by a trusted key. -/
def Bound (crates : Crates) (request : Request) (trusted : List PublisherKey)
    (metadata : RegistryVersionMetadata) (archive : List UInt8) : Prop :=
  ∃ envelope ∈ metadata.signature,
    crates.verifyReleaseEnvelope envelope envelope.subject trusted = .ok () ∧
    envelope.subject.archiveChecksum = archiveChecksum crates archive ∧
    envelope.subject.package = request.package ∧ envelope.subject.version = request.version

/-- **When a returned source is bound to a signed release.**  Under a signed policy, a returned
source was unpacked from an archive whose header names the package and the version asked for, and that
archive is the one in the subject of the metadata's envelope, signed by a trusted key, exactly when
the envelope's key is a trusted one and the metadata came from the registry or, being cached, has an
envelope for the release it describes.  The keys that the metadata lists authorize the envelope. -/
theorem resolveRegistrySource_bound_iff {request : Request} {cache cache' : Cache} {root : String}
    {source : VerifiedRegistrySource} (trusted : List PublisherKey)
    (hpolicy : request.trustPolicy ≠ .checksumOnly) (hroot : source.root = some root)
    (h : (resolveRegistrySource crates world request).Gives cache source cache') :
    ∃ metadata archive, Finds crates world request cache metadata ∧
      UnpackedFrom crates world request cache' archive root ∧
      HasHeader archive request.package request.version ∧
      (∀ envelope ∈ metadata.signature, Authorizes metadata.publisherKeys envelope) ∧
      (Bound crates request trusted metadata archive ↔
        (request.Fetched ∨ SubjectMatches request.package request.version metadata) ∧
          ∀ envelope ∈ metadata.signature, Authorizes trusted envelope) := by
  obtain ⟨metadata, archive, hfinds, hchecksum, ⟨envelope, henvelope, hverify⟩, hunpacked⟩ :=
    resolveRegistrySource_gives hpolicy hroot h
  obtain ⟨_, hgives⟩ := hunpacked.unpacked
  have honly (other) (hother : other ∈ metadata.signature) : other = envelope :=
    Option.some_inj.1 (hother.symm.trans henvelope)
  refine ⟨metadata, archive, hfinds, hunpacked, hasHeader_of_unpack hgives, ?_, ?_, ?_⟩
  · intro other hother
    rw [honly other hother]
    exact (verifyReleaseEnvelope_trusted hverify).1 hverify
  · rintro ⟨other, hother, htrusted, harchive, hpackage, hversion⟩
    obtain rfl := honly other hother
    constructor
    · refine .inr fun other' hother' => ?_
      rw [honly other' hother']
      exact ⟨hpackage, hversion, harchive.trans hchecksum⟩
    · intro other' hother'
      rw [honly other' hother']
      exact (verifyReleaseEnvelope_trusted hverify).1 htrusted
  · rintro ⟨hsource, htrusted⟩
    -- Metadata from the registry has passed the comparison.
    have hmatches : SubjectMatches request.package request.version metadata := by
      rcases hsource with hfetched | hmatches
      · obtain ⟨registry, -, ⟨-, hload⟩ | ⟨hcached, -⟩⟩ := hfinds
        · exact subjectMatches_of_load hload
        · exact absurd hfetched hcached
      · exact hmatches
    obtain ⟨hpackage, hversion, harchive⟩ := hmatches envelope henvelope
    exact ⟨envelope, henvelope, (verifyReleaseEnvelope_trusted hverify).2 (htrusted _ henvelope),
      harchive.trans hchecksum.symm, hpackage, hversion⟩

end

/-! ## A tampered cache -/

namespace Sample

open SupplyChain.Sample (publisherKey publisherKeyId publisherHash signed)

/-- The lines and bytes of an archive of two files: the manifest and a source file. -/
def archive (sourceLine source : String) : List UInt8 :=
  bytes ("nomo-package-v1\npackage nomo-lang/demo\nversion 1.2.0\nfiles 2\n" ++
    "file nomo.toml 10 sha256:8a3cd5a81b3f9a621aa493d90c45f42ab571d4e42b8ae5aff351cb0a02d06d82\n" ++
    "[package]\n\n" ++ sourceLine ++ "\n" ++ source ++ "\n")

/-- An archive that nobody signed. -/
def tampered : List UInt8 := archive
  "file src/main.nomo 4 sha256:b5c1fb2efc6d6b4674c2fdcc48ce01b43a3b7c03763c0c3355de0099ee0f8c73"
  "evil"

/-- What the publisher signed: the same manifest, another archive. -/
def subject : ReleaseSubject where
  schema := 1
  package := "nomo-lang/demo"
  version := "1.2.0"
  archiveChecksum := "sha256:be4d00cae28a5bd42d3d7e488099a672cee18037629a6e236b2d7daf4ed5fa49"
  manifestChecksum := "sha256:8a3cd5a81b3f9a621aa493d90c45f42ab571d4e42b8ae5aff351cb0a02d06d82"
  provenanceDigest := none

def envelope : SignedReleaseEnvelope where
  subject := subject
  signature := {
    algorithm := "ed25519"
    keyId := publisherKeyId
    publicKey := publisherKey
    signature := "a0cc32bcffd68ddc81d3c988c67a5ea0176d76cbcb477a05fee01aae3c846715" ++
      "a10499733e08d30f2201967a9b96264f4b498de152e63e0dadefcc7d1d0b9f01" }

/-- Metadata with that envelope and the checksum of the tampered archive. -/
def metadata : RegistryVersionMetadata where
  package := "nomo-lang/demo"
  version := "1.2.0"
  checksum := "sha256:7157cef5c353b1dcdbb8324c1ab4fb190fcb75e915297b353633fbde9de21ca3"
  yanked := false
  publisherKeys := [⟨publisherKeyId, publisherKey⟩]
  signature := some envelope
  provenance := none
  transparency := none

def jsonText (text : String) : String := "\"" ++ text ++ "\""

def jsonObject : List (String × String) → String
  | [] => "\x7b\x7d"
  | (name, value) :: rest => "\x7b" ++ jsonText name ++ ":" ++ value ++
      rest.foldr (fun (n, v) text => "," ++ jsonText n ++ ":" ++ v ++ text) "\x7d"

def metadataJson : List UInt8 :=
  let key := [("key_id", jsonText publisherKeyId), ("public_key", jsonText publisherKey)]
  bytes (jsonObject [("package", jsonText metadata.package), ("version", jsonText metadata.version),
    ("checksum", jsonText metadata.checksum), ("publisher_keys", "[" ++ jsonObject key ++ "]"),
    ("signature", jsonObject [
      ("subject", jsonObject [("schema", "1"), ("package", jsonText subject.package),
        ("version", jsonText subject.version),
        ("archive_checksum", jsonText subject.archiveChecksum),
        ("manifest_checksum", jsonText subject.manifestChecksum)]),
      ("signature", jsonObject (("algorithm", jsonText "ed25519") :: key ++
        [("signature", jsonText envelope.signature.signature)]))])])

/-- Crates that know the hashes and the signature. -/
def crates : Crates := .tabulated
  [(decodePairs (bytes publisherKey), publisherHash),
    (Crates.subjectMessage subject,
      .ofHex "a1c2a493cccb16fc391b5f9e1efe99d1258829be6635f7a1bddf376fc30905b2" (by decide)),
    (bytes "[package]\n",
      .ofHex "8a3cd5a81b3f9a621aa493d90c45f42ab571d4e42b8ae5aff351cb0a02d06d82" (by decide)),
    (bytes "evil",
      .ofHex "b5c1fb2efc6d6b4674c2fdcc48ce01b43a3b7c03763c0c3355de0099ee0f8c73" (by decide)),
    (tampered,
      .ofHex "7157cef5c353b1dcdbb8324c1ab4fb190fcb75e915297b353633fbde9de21ca3" (by decide)),
    (bytes "https://registry.example",
      .ofHex "c3968a18e5f78c35b99cc55de2e53a126d011dc56a6c7a40fd4f5f46d828a705" (by decide))]
  [signed publisherKey envelope.signature.signature (Crates.subjectMessage subject)] ["1.2.0"]

/-- No network, and a disk that allows everything. -/
def world : World where
  disk := {
    read := fun _ => none
    write := fun _ => none
    createDir := fun _ => none
    removeDir := fun _ => none
    rename := fun _ => none
    canonicalize := .ok
    isDirectory := "Is a directory (os error 21)"
    notDirectory := "Not a directory (os error 20)" }
  files := fun _ => none
  http := fun _ => .error "no network"
  metadataFromJson := fun content =>
    if content = metadataJson then .ok metadata else .error "expected value at line 1 column 1"
  metadataToJson := fun _ => .ok metadataJson
  treeHeadFromJson := fun _ => .error "expected value at line 1 column 1"
  treeHeadToJson := fun _ => .error "not needed"
  checkpointToJson := fun _ => .error "not needed"
  provenanceToJson := fun _ => .error "not needed"
  now := 1100

/-- An offline call. -/
def request : Request where
  baseRoot := "/home/user/app"
  aliasName := "demo"
  package := "nomo-lang/demo"
  version := "1.2.0"
  registry := some "https://registry.example"
  offline := true
  authorizationHeader := none
  trustPolicy := .signed
  transparencyPolicy := ⟨[], ⟨200, 1000, 10⟩, []⟩

/-- The cache after someone has replaced the archive and the checksum in the metadata. -/
def cache : Cache where
  metadata := some metadataJson
  archive := some tampered
  source := some []
  treeHead := none
  gossip := none

/-- The cache after the call: the tampered archive is unpacked. -/
def resolved : Cache :=
  { cache with source := some [(["src", "main.nomo"], bytes "evil"),
      (["nomo.toml"], bytes "[package]\n")] }

def source : VerifiedRegistrySource where
  root := some ("/home/user/app/.nomo/cache/registry/nomo-lang/demo/1.2.0/" ++
    "c3968a18e5f78c35b99cc55de2e53a126d011dc56a6c7a40fd4f5f46d828a705/source")
  evidence := some {
    keyId := publisherKeyId
    subjectDigest := "sha256:a1c2a493cccb16fc391b5f9e1efe99d1258829be6635f7a1bddf376fc30905b2"
    provenanceDigest := none
    transparencyRoot := none
    transparencySize := none }

/-- The call unpacks the tampered archive: the cached metadata is read, and the signed checksum is not
the archive's. -/
theorem resolveRegistrySource_tampered :
    resolveRegistrySource crates world request cache = (.ok source, resolved) ∧
    readCachedRegistryVersionMetadata crates world request.baseRoot request.package request.version
      "https://registry.example" cache.metadata = .ok (some metadata) ∧
    envelope.subject.archiveChecksum ≠ archiveChecksum crates tampered := by
  decide +kernel

theorem finds_metadata : Finds crates world request cache metadata := by
  refine ⟨"https://registry.example", rfl, .inr ⟨?_, ?_⟩⟩
  · rintro (h | ⟨registry, hregistry, hfile⟩)
    · cases h
    · obtain rfl : "https://registry.example" = registry := Option.some_inj.1 hregistry
      revert hfile
      decide
  · exact resolveRegistrySource_tampered.2.1

end Sample

/-- An offline call under the signed policy returns the source of an archive that nobody signed, with
the publisher's key as evidence. -/
theorem resolveRegistrySource_unbound :
    Sample.request.trustPolicy ≠ .checksumOnly ∧
    (resolveRegistrySource Sample.crates Sample.world Sample.request).Gives Sample.cache
      Sample.source Sample.resolved ∧
    Finds Sample.crates Sample.world Sample.request Sample.cache Sample.metadata ∧
    Sample.resolved.archive = some Sample.tampered ∧
    ¬ Bound Sample.crates Sample.request Sample.metadata.publisherKeys Sample.metadata
      Sample.tampered := by
  refine ⟨by decide, Sample.resolveRegistrySource_tampered.1, Sample.finds_metadata, rfl, ?_⟩
  rintro ⟨envelope, henvelope, -, hchecksum, -⟩
  obtain rfl : Sample.envelope = envelope := Option.some_inj.1 henvelope
  exact Sample.resolveRegistrySource_tampered.2.2 hchecksum

theorem resolveRegistrySource_bound_iff_tampered : ∃ metadata archive,
    Finds Sample.crates Sample.world Sample.request Sample.cache metadata ∧
    UnpackedFrom Sample.crates Sample.world Sample.request Sample.resolved archive
      (Sample.source.root.getD "") ∧
    HasHeader archive "nomo-lang/demo" "1.2.0" ∧
    (∀ envelope ∈ metadata.signature, Authorizes metadata.publisherKeys envelope) ∧
    (Bound Sample.crates Sample.request Sample.metadata.publisherKeys metadata archive ↔
      (Sample.request.Fetched ∨ SubjectMatches "nomo-lang/demo" "1.2.0" metadata) ∧
        ∀ envelope ∈ metadata.signature, Authorizes Sample.metadata.publisherKeys envelope) :=
  resolveRegistrySource_bound_iff Sample.metadata.publisherKeys (by decide) rfl
    Sample.resolveRegistrySource_tampered.1

end Nomo.Resolver
