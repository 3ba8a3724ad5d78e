import Nomo.SupplyChain.Encoding

/-!
# Signed releases

Release subjects, publisher signatures and release envelopes
(`nomo_supply_chain/src/lib.rs:17–260`), and the checks on package names and versions they use
(`nomo_manifest/src/lib.rs:2243–2313`, `nomo_manifest/src/version.rs:13–21`).

SHA-256, Ed25519 and semantic versions come from other crates; they are the fields of `Crates`.
-/

namespace Nomo.SupplyChain

open Nomo.Lib.Checked

/-- A hash value, `[u8; 32]`. -/
structure Hash where
  bytes : List UInt8
  size : bytes.length = 32
deriving DecidableEq

/-- What the verifier takes from other crates: `Sha256::digest`, Ed25519 verification of a
signature (public key, message, signature), and `semver::Version::parse`. -/
structure Crates where
  sha256 : List UInt8 → Hash
  ed25519 : List UInt8 → List UInt8 → List UInt8 → Bool
  semver : String → Except String Unit

/-! ## Names and versions -/

/-- `str::split_once`. -/
def splitOnce (sep : Char) : List Char → Option (List Char × List Char)
  | [] => none
  | c :: cs => if c = sep then some ([], cs) else (splitOnce sep cs).map fun (a, b) => (c :: a, b)

/-- Lower-case ASCII letters and digits. -/
def isLowerOrDigit (c : Char) : Bool := ('a' ≤ c && c ≤ 'z') || ('0' ≤ c && c ≤ '9')

/-- `validate_package_segment`. -/
def validatePackageSegment (label : String) (value : List Char) : Except String Unit :=
  require (value ≠ [] ∧ (value.all fun c => c == '-' || isLowerOrDigit c) = true ∧
      value.head?.any isLowerOrDigit = true ∧ value.getLast?.any isLowerOrDigit = true)
    s!"{label} `{String.ofList value}` must use lowercase letters, digits, or hyphens, and cannot start or end with `-`"

/-- `validate_package_namespace`. -/
def validatePackageNamespace (label : String) (value : List Char) : Except String Unit := do
  validatePackageSegment label value
  require (String.ofList value ∉ ["std", "nomo", "core"])
    s!"{label} `{String.ofList value}` is reserved; use an organization or user namespace such as `nomo-lang`"

/-- `validate_package_id`. -/
def validatePackageId (value : String) : Except String Unit := do
  let (owner, package) ← orElse (splitOnce '/' value.toList)
    s!"canonical package id `{value}` must use `owner/package`"
  require ('/' ∉ package) s!"canonical package id `{value}` must contain exactly one `/`"
  validatePackageNamespace "package namespace" owner
  validatePackageSegment "package name" package

/-- `str::trim`. -/
def trim (value : String) : String :=
  String.ofList ((value.toList.dropWhile isWhitespace).reverse.dropWhile isWhitespace).reverse

namespace Crates

variable (crates : Crates)

/-- `PackageVersion::parse`. -/
def parseVersion (input : String) : Except String Unit := do
  let input := trim input
  require (input ≠ "") "package version must not be empty"
  (crates.semver input).mapError fun err => s!"invalid semantic version `{input}`: {err}"

/-- `validate_version_like`. -/
def validateVersionLike (label value : String) : Except String Unit :=
  (crates.parseVersion value).mapError fun err => s!"{label} `{value}` is invalid: {err}"

/-- `sha256_digest`. -/
def sha256Digest (message : List UInt8) : String := "sha256:" ++ encodeHex (crates.sha256 message).bytes

/-- `publisher_key_id`. -/
def publisherKeyId (publicKey : List UInt8) : String := crates.sha256Digest publicKey

end Crates

/-! ## Subjects and envelopes -/

/-- `RELEASE_ENVELOPE_SCHEMA`. -/
def releaseEnvelopeSchema : Nat := 1

/-- What a publisher signs. -/
structure ReleaseSubject where
  schema : Nat
  package : String
  version : String
  archiveChecksum : String
  manifestChecksum : String
  provenanceDigest : Option String
deriving DecidableEq

/-- A publisher's signature. -/
structure PublisherSignature where
  algorithm : String
  keyId : String
  publicKey : String
  signature : String
deriving DecidableEq

/-- A subject with its signature. -/
structure SignedReleaseEnvelope where
  subject : ReleaseSubject
  signature : PublisherSignature
deriving DecidableEq

/-- A publisher key. -/
structure PublisherKey where
  keyId : String
  publicKey : String
deriving DecidableEq

namespace Crates

variable (crates : Crates)

/-- `ReleaseSubject::validate`. -/
def validateSubject (subject : ReleaseSubject) : Except String Unit := do
  require (subject.schema = releaseEnvelopeSchema)
    s!"unsupported release envelope schema {subject.schema}"
  validatePackageId subject.package
  crates.validateVersionLike "signed release version" subject.version
  validateSha256 "archive checksum" subject.archiveChecksum
  validateSha256 "manifest checksum" subject.manifestChecksum
  match subject.provenanceDigest with
  | some digest => validateSha256 "provenance digest" digest
  | none => return ()

/-- The message of `ReleaseSubject::canonical_bytes`. -/
def subjectMessage (subject : ReleaseSubject) : List UInt8 :=
  bytes "nomo-release-envelope-v1\n" ++ canonicalField "package" subject.package
    ++ canonicalField "version" subject.version ++ canonicalField "archive" subject.archiveChecksum
    ++ canonicalField "manifest" subject.manifestChecksum
    ++ canonicalField "provenance" (subject.provenanceDigest.getD "")

/-- `ReleaseSubject::canonical_bytes`. -/
def subjectCanonicalBytes (subject : ReleaseSubject) : Except String (List UInt8) := do
  crates.validateSubject subject
  return subjectMessage subject

/-- `ReleaseSubject::digest`. -/
def subjectDigest (subject : ReleaseSubject) : Except String String := do
  return crates.sha256Digest (← crates.subjectCanonicalBytes subject)

/-- `verify_signature_bytes` (`lib.rs:225–252`). -/
def verifySignatureBytes (envelope : SignedReleaseEnvelope) : Except String Unit := do
  crates.validateSubject envelope.subject
  require (envelope.signature.algorithm = "ed25519")
    s!"unsupported release signature algorithm `{envelope.signature.algorithm}`"
  let publicKey ← decodeHex envelope.signature.publicKey
  require (publicKey.length = 32) "ed25519 public key must contain 32 bytes"
  require (envelope.signature.keyId = crates.publisherKeyId publicKey)
    "release signature key id does not match its public key"
  let signature ← decodeHex envelope.signature.signature
  require (signature.length = 64) "ed25519 signature must contain 64 bytes"
  let message ← crates.subjectCanonicalBytes envelope.subject
  require (crates.ed25519 publicKey message signature = true)
    "release signature verification failed"

/-- `verify_release_envelope` (`lib.rs:199–223`). -/
def verifyReleaseEnvelope (envelope : SignedReleaseEnvelope) (expectedSubject : ReleaseSubject)
    (authorizedKeys : List PublisherKey) : Except String Unit := do
  require (envelope.subject = expectedSubject)
    "signed release subject does not match the requested package artifact"
  crates.verifySignatureBytes envelope
  require ((authorizedKeys.any fun key => key.keyId == envelope.signature.keyId &&
      eqIgnoreAsciiCase key.publicKey envelope.signature.publicKey) = true)
    s!"publisher key `{envelope.signature.keyId}` is not authorized for package `{envelope.subject.package}`"

end Crates

end Nomo.SupplyChain
