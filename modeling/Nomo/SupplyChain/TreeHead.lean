import Nomo.SupplyChain.Release

/-!
# Signed tree heads and log keys

Tree heads of the transparency log, rotations of its key, and the timeline that a chain of
rotations spans (`nomo_supply_chain/src/lib.rs:377–520`, `792–938`, `1071–1113`).

A head of size `n` must be signed by the key that the timeline gives for `n`.
-/

namespace Nomo.SupplyChain

open Nomo.Lib.Checked

/-- `TRANSPARENCY_HEAD_SCHEMA`. -/
def transparencyHeadSchema : Nat := 2

/-- `LOG_KEY_ROTATION_SCHEMA`. -/
def logKeyRotationSchema : Nat := 1

/-- A signed head of the log: its size and root, and the size and root of the head before it. -/
structure SignedTreeHead where
  schema : Nat
  logId : String
  treeSize : Nat
  rootHash : String
  issuedAtUnixSeconds : Nat
  previousTreeSize : Option Nat
  previousRootHash : Option String
  algorithm : String
  keyId : String
  signature : String
deriving DecidableEq

namespace SignedTreeHead

/-- `SignedTreeHead::validate`. -/
def validate (head : SignedTreeHead) : Except String Unit := do
  require (head.schema = transparencyHeadSchema)
    s!"unsupported transparency tree-head schema {head.schema}"
  require (isBlank head.logId = false) "transparency tree head must include a non-empty log id"
  require (head.treeSize ≠ 0) "transparency tree head must contain at least one event"
  validateSha256 "transparency root hash" head.rootHash
  require (head.issuedAtUnixSeconds ≠ 0) "transparency tree head must include an issuance timestamp"
  match head.previousTreeSize, head.previousRootHash with
  | none, none => return ()
  | some size, some root => do
    require (size < head.treeSize)
      "previous transparency tree size must be smaller than the current size"
    validateSha256 "previous transparency root hash" root
  | _, _ =>
    throw "previous transparency tree size and root hash must be provided together"

theorem validate_spec {head : SignedTreeHead} {u : Unit} (h : head.validate = .ok u) :
    (∀ root ∈ head.previousRootHash, root ≠ "") ∧
      ∀ size ∈ head.previousTreeSize, size < head.treeSize := by
  simp only [SignedTreeHead.validate, bind_eq_ok, require_eq_ok] at h
  obtain ⟨-, -, -, -, -, -, -, -, -, -, h⟩ := h
  cases hsize : head.previousTreeSize with
  | none =>
    cases hroot : head.previousRootHash with
    | none => simp
    | some root => simp [hsize, hroot] at h
  | some size =>
    cases hroot : head.previousRootHash with
    | none => simp [hsize, hroot] at h
    | some root =>
      simp only [hsize, hroot, bind_eq_ok, require_eq_ok] at h
      obtain ⟨-, hlt, h⟩ := h
      refine ⟨fun _ h' => ?_, fun _ h' => ?_⟩ <;> cases h'
      · exact ne_empty_of_validateSha256 h
      · exact hlt

/-- The message of `SignedTreeHead::canonical_bytes`. -/
def message (head : SignedTreeHead) : List UInt8 :=
  bytes "nomo-transparency-head-v2\n" ++ canonicalField "schema" (toString head.schema)
    ++ canonicalField "log-id" head.logId ++ canonicalField "tree-size" (toString head.treeSize)
    ++ canonicalField "root-hash" head.rootHash
    ++ canonicalField "issued-at" (toString head.issuedAtUnixSeconds)
    ++ canonicalField "previous-size" (head.previousTreeSize.elim "" toString)
    ++ canonicalField "previous-root" (head.previousRootHash.getD "")
    ++ canonicalField "algorithm" head.algorithm ++ canonicalField "key-id" head.keyId

/-- `SignedTreeHead::canonical_bytes`. -/
def canonicalBytes (head : SignedTreeHead) : Except String (List UInt8) := do
  head.validate
  return head.message

end SignedTreeHead

/-- A change of the log key, signed by the old and the new key. -/
structure LogKeyRotation where
  schema : Nat
  logId : String
  activateAtTreeSize : Nat
  oldKeyId : String
  oldPublicKey : String
  newKeyId : String
  newPublicKey : String
  oldSignature : String
  newSignature : String
deriving DecidableEq

/-- The message of `LogKeyRotation::canonical_bytes`. -/
def LogKeyRotation.message (rotation : LogKeyRotation) : List UInt8 :=
  bytes "nomo-transparency-log-key-rotation-v1\n"
    ++ canonicalField "schema" (toString rotation.schema)
    ++ canonicalField "log-id" rotation.logId
    ++ canonicalField "activate-at-tree-size" (toString rotation.activateAtTreeSize)
    ++ canonicalField "old-key-id" rotation.oldKeyId
    ++ canonicalField "old-public-key" rotation.oldPublicKey
    ++ canonicalField "new-key-id" rotation.newKeyId
    ++ canonicalField "new-public-key" rotation.newPublicKey

/-- Which keys sign heads of which sizes. -/
structure LogKeyTimeline where
  logId : String
  initialPublicKey : String
  rotations : List LogKeyRotation

/-- The key that is active at a size: that of the last rotation activated by then. -/
def keyAt (initial : String) (size : Nat) : List LogKeyRotation → String
  | [] => initial
  | rotation :: rest =>
    if size < rotation.activateAtTreeSize then initial else keyAt rotation.newPublicKey size rest

/-- `LogKeyTimeline::public_key_at`. -/
def LogKeyTimeline.publicKeyAt (timeline : LogKeyTimeline) (treeSize : Nat) : String :=
  keyAt timeline.initialPublicKey treeSize timeline.rotations

namespace Crates

variable (crates : Crates)

/-- `validate_log_key_identity`. -/
def validateLogKeyIdentity (label keyId publicKey : String) : Except String Unit := do
  let key ← decodeHex publicKey
  require (key.length = 32 ∧ crates.publisherKeyId key = keyId)
    s!"{label} transparency log key identity is invalid"

/-- `LogKeyRotation::validate_identity`. -/
def validateRotationIdentity (rotation : LogKeyRotation) : Except String Unit := do
  require (rotation.schema = logKeyRotationSchema)
    s!"unsupported transparency log-key rotation schema {rotation.schema}"
  require (isBlank rotation.logId = false) "transparency log-key rotation must include a log id"
  require (rotation.activateAtTreeSize ≠ 0)
    "transparency log-key rotation activation size must be positive"
  crates.validateLogKeyIdentity "old" rotation.oldKeyId rotation.oldPublicKey
  crates.validateLogKeyIdentity "new" rotation.newKeyId rotation.newPublicKey
  require (rotation.oldKeyId ≠ rotation.newKeyId)
    "transparency log-key rotation must change the key"

/-- `LogKeyRotation::canonical_bytes`. -/
def rotationCanonicalBytes (rotation : LogKeyRotation) : Except String (List UInt8) := do
  crates.validateRotationIdentity rotation
  return rotation.message

/-- `verify_ed25519_signature`. -/
def verifyEd25519Signature (label publicKey signature : String) (message : List UInt8) :
    Except String Unit := do
  let publicKey ← decodeHex publicKey
  require (publicKey.length = 32) s!"{label} public key must contain 32 bytes"
  let signature ← decodeHex signature
  require (signature.length = 64) s!"{label} signature must contain 64 bytes"
  require (crates.ed25519 publicKey message signature = true)
    s!"{label} signature verification failed"

/-- `verify_log_key_rotation`. -/
def verifyLogKeyRotation (rotation : LogKeyRotation) : Except String Unit := do
  let canonical ← crates.rotationCanonicalBytes rotation
  crates.verifyEd25519Signature "old transparency log key" rotation.oldPublicKey
    rotation.oldSignature canonical
  crates.verifyEd25519Signature "new transparency log key" rotation.newPublicKey
    rotation.newSignature canonical

/-- `verify_tree_head` (`lib.rs:1071–1091`). -/
def verifyTreeHead (head : SignedTreeHead) (publicKey : String) : Except String Unit := do
  head.validate
  require (head.algorithm = "ed25519")
    s!"unsupported transparency signature algorithm `{head.algorithm}`"
  let publicKey ← decodeHex publicKey
  require (publicKey.length = 32 ∧ crates.publisherKeyId publicKey = head.keyId)
    "transparency tree-head key identity is invalid"
  let signature ← decodeHex head.signature
  require (signature.length = 64) "transparency tree-head signature must contain 64 bytes"
  let message ← head.canonicalBytes
  require (crates.ed25519 publicKey message signature = true)
    "transparency tree-head signature verification failed"

/-- `verify_tree_head_with_timeline`. -/
def verifyTreeHeadWithTimeline (timeline : LogKeyTimeline) (head : SignedTreeHead) :
    Except String Unit := do
  require (head.logId = timeline.logId) "transparency tree head targets a different log id"
  crates.verifyTreeHead head (timeline.publicKeyAt head.treeSize)

end Crates

end Nomo.SupplyChain
