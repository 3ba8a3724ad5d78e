import Nomo.Lib.Merkle
import Nomo.SupplyChain.TreeHead

/-!
# The transparency log

Events, the log of events, and inclusion proofs (`nomo_supply_chain/src/lib.rs:262–375`, `592–661`,
`1093–1135`, `1179–1213`).  A log is a Merkle tree with promoted nodes over the canonical bytes of
its events; leaves and inner nodes are hashed with different first bytes.

The verifier folds the siblings of a proof as they come and never compares their number or their
sides with the index.  What makes that safe is that the index is part of the event: an event that is
one of the leaves is the event of its own sequence number.
-/

namespace Nomo.SupplyChain

open Nomo.Lib Nomo.Lib.Checked

/-- What happened. -/
inductive TransparencyEventKind where
  | keyRegistered (package keyId publicKey : String)
  | keyRevoked (package keyId : String)
  | release (package version subjectDigest keyId : String)
deriving DecidableEq

/-- An entry of the log. -/
structure TransparencyEvent where
  sequence : Nat
  kind : TransparencyEventKind
deriving DecidableEq

/-- The fields of a kind in its canonical bytes. -/
def TransparencyEventKind.fields : TransparencyEventKind → List UInt8
  | .keyRegistered package keyId publicKey =>
    canonicalField "type" "key-registered" ++ (canonicalField "package" package
      ++ (canonicalField "key-id" keyId ++ canonicalField "public-key" publicKey))
  | .keyRevoked package keyId =>
    canonicalField "type" "key-revoked" ++ (canonicalField "package" package
      ++ canonicalField "key-id" keyId)
  | .release package version subjectDigest keyId =>
    canonicalField "type" "release" ++ (canonicalField "package" package
      ++ (canonicalField "version" version ++ (canonicalField "subject" subjectDigest
        ++ canonicalField "key-id" keyId)))

/-- The message of `TransparencyEvent::canonical_bytes`. -/
def TransparencyEvent.message (event : TransparencyEvent) : List UInt8 :=
  bytes "nomo-transparency-event-v1\n"
    ++ (canonicalField "sequence" (toString event.sequence) ++ event.kind.fields)

/-- A step of an inclusion proof: the hash of a sibling, and its side. -/
structure ProofStep where
  side : Merkle.Side
  hash : String
deriving DecidableEq

/-- The path from a leaf to the root. -/
structure InclusionProof where
  leafIndex : Nat
  treeSize : Nat
  siblings : List ProofStep
deriving DecidableEq

/-- An event with the proof that a log has it. -/
structure LogInclusion where
  event : TransparencyEvent
  proof : InclusionProof
deriving DecidableEq

namespace Crates

variable (crates : Crates)

/-- `TransparencyEvent::validate`. -/
def validateEvent (event : TransparencyEvent) : Except String Unit :=
  match event.kind with
  | .keyRegistered package keyId publicKey => do
    validatePackageId package
    let publicKey ← decodeHex publicKey
    require (publicKey.length = 32 ∧ crates.publisherKeyId publicKey = keyId)
      "transparency key registration has an invalid key identity"
  | .keyRevoked package keyId => do
    validatePackageId package
    validateSha256 "revoked publisher key id" keyId
  | .release package version subjectDigest keyId => do
    validatePackageId package
    crates.validateVersionLike "transparency release version" version
    validateSha256 "release subject digest" subjectDigest
    validateSha256 "release publisher key id" keyId

/-- `TransparencyEvent::canonical_bytes`. -/
def eventCanonicalBytes (event : TransparencyEvent) : Except String (List UInt8) := do
  crates.validateEvent event
  return event.message

/-! ## Hashes -/

/-- What `leaf_hash` hashes. -/
def leafInput (message : List UInt8) : List UInt8 := 0 :: message

/-- What `node_hash` hashes. -/
def nodeInput (left right : Hash) : List UInt8 := 1 :: (left.bytes ++ right.bytes)

/-- `leaf_hash`. -/
def leafHash (message : List UInt8) : Hash := crates.sha256 (leafInput message)

/-- `node_hash`. -/
def nodeHash (left right : Hash) : Hash := crates.sha256 (nodeInput left right)

/-- `merkle_root`; `none` where it indexes an empty level. -/
def merkleRoot (leaves : List Hash) : Option Hash := Merkle.root crates.nodeHash leaves

/-- `decode_hash`. -/
def decodeHash (value : String) : Except String Hash := do
  let bytes ← decodeHex value
  if h : bytes.length = 32 then return ⟨bytes, h⟩
  else throw "transparency proof hash must contain 32 bytes"

/-! ## Logs -/

/-- The checks of `TransparencyLog::new`, from index `index` on. -/
def checkEvents : Nat → List TransparencyEvent → Except String Unit
  | _, [] => .ok ()
  | index, event :: events => do
    require (event.sequence = index)
      s!"transparency event sequence {event.sequence} does not match index {index}"
    crates.validateEvent event
    checkEvents (index + 1) events

/-- A log: at least one event, each valid and numbered by its position. -/
structure TransparencyLog where
  events : List TransparencyEvent
  nonempty : events ≠ []
  sequence : ∀ (i : Nat) (event : TransparencyEvent), events[i]? = some event → event.sequence = i
  valid : ∀ event ∈ events, crates.validateEvent event = .ok ()

theorem checkEvents_spec {index : Nat} {events : List TransparencyEvent}
    (h : crates.checkEvents index events = .ok ()) :
    (∀ (i : Nat) (event : TransparencyEvent), events[i]? = some event → event.sequence = index + i) ∧
      ∀ event ∈ events, crates.validateEvent event = .ok () := by
  induction events generalizing index with
  | nil => simp
  | cons event events ih =>
    simp only [checkEvents, bind_eq_ok, require_eq_ok] at h
    obtain ⟨_, hseq, _, hvalid, hrest⟩ := h
    obtain ⟨hseqs, hvalids⟩ := ih hrest
    refine ⟨fun i e he => ?_, fun e he => ?_⟩
    · cases i with
      | zero =>
        cases he
        exact hseq
      | succ i =>
        rw [hseqs i e he]
        omega
    · rcases List.mem_cons.1 he with rfl | he
      · exact hvalid
      · exact hvalids e he

/-- `TransparencyLog::new`. -/
def newLog (events : List TransparencyEvent) : Except String crates.TransparencyLog :=
  if hempty : events = [] then .error "transparency log must contain at least one event"
  else
    match h : crates.checkEvents 0 events with
    | .ok () =>
      .ok
        { events := events
          nonempty := hempty
          sequence := fun i event he => by
            have := (crates.checkEvents_spec h).1 i event he
            omega
          valid := (crates.checkEvents_spec h).2 }
    | .error message => .error message

namespace TransparencyLog

variable {crates} (log : crates.TransparencyLog)

/-- `TransparencyLog::leaf_hashes`. -/
def leafHashes : Except String (List Hash) :=
  collect (fun event => crates.leafHash <$> crates.eventCanonicalBytes event) log.events

/-- `TransparencyLog::root_hash`. -/
def rootHash : Except String String := do
  let root ← orElse (crates.merkleRoot (← log.leafHashes)) "index out of bounds"
  return "sha256:" ++ encodeHex root.bytes

/-- `TransparencyLog::inclusion`. -/
def inclusion (index : Nat) : Except String LogInclusion := do
  let event ← orElse log.events[index]? s!"transparency event index {index} is out of range"
  let level ← log.leafHashes
  return {
    event := event
    proof := {
      leafIndex := index
      treeSize := log.events.length
      siblings := (Merkle.path crates.nodeHash level.length level index).map fun (side, hash) =>
        ⟨side, encodeHex hash.bytes⟩ } }

end TransparencyLog

/-- The fold of `verify_log_inclusion` over the siblings. -/
def foldSiblings : Hash → List ProofStep → Except String Hash
  | hash, [] => .ok hash
  | hash, step :: steps => do
    let sibling ← decodeHash step.hash
    foldSiblings (Merkle.combine crates.nodeHash hash (step.side, sibling)) steps

/-- `verify_log_inclusion` (`lib.rs:1093–1115`). -/
def verifyLogInclusion (inclusion : LogInclusion) (head : SignedTreeHead) : Except String Unit := do
  require (inclusion.proof.treeSize = head.treeSize ∧
      inclusion.proof.leafIndex < inclusion.proof.treeSize ∧
      inclusion.proof.leafIndex = inclusion.event.sequence)
    "transparency inclusion proof indices are inconsistent"
  let message ← crates.eventCanonicalBytes inclusion.event
  let hash ← crates.foldSiblings (crates.leafHash message) inclusion.proof.siblings
  require ("sha256:" ++ encodeHex hash.bytes = head.rootHash)
    "transparency inclusion proof does not match the signed tree head"

/-! ## What a log hashes -/

/-- What the fold over the siblings of a proof hashes. -/
def siblingInputs : Hash → List ProofStep → List (List UInt8)
  | _, [] => []
  | hash, step :: steps =>
    match decodeHash step.hash with
    | .ok sibling =>
      let (left, right) := Merkle.operands hash (step.side, sibling)
      nodeInput left right
        :: siblingInputs (Merkle.combine crates.nodeHash hash (step.side, sibling)) steps
    | .error _ => []

/-- What the verification of an inclusion hashes. -/
def inclusionInputs (inclusion : LogInclusion) : List (List UInt8) :=
  leafInput inclusion.event.message
    :: crates.siblingInputs (crates.leafHash inclusion.event.message) inclusion.proof.siblings

namespace TransparencyLog

variable {crates} (log : crates.TransparencyLog)

/-- The leaves of a log. -/
def leaves : List Hash := log.events.map fun event => crates.leafHash event.message

/-- What the computation of a log's root hashes. -/
def inputs : List (List UInt8) :=
  (log.events.map fun event => leafInput event.message)
    ++ (Merkle.nodeInputs crates.nodeHash log.events.length log.leaves).map fun p =>
      nodeInput p.1 p.2

/-- The head has the size and the root of the log. -/
structure Heads (head : SignedTreeHead) : Prop where
  treeSize : head.treeSize = log.events.length
  rootHash : log.rootHash = .ok head.rootHash

end TransparencyLog

/-- No two of the given inputs have the same hash. -/
def CollisionFree (inputs : List (List UInt8)) : Prop :=
  ∀ x ∈ inputs, ∀ y ∈ inputs, crates.sha256 x = crates.sha256 y → x = y

instance (inputs : List (List UInt8)) : Decidable (crates.CollisionFree inputs) := by
  unfold CollisionFree
  infer_instance

end Crates

/-! ## Messages determine events -/

theorem kindFields_inj {k l : TransparencyEventKind} (h : k.fields = l.fields) : k = l := by
  cases k <;> cases l <;>
    simp only [TransparencyEventKind.fields, canonicalField_append_inj, canonicalField_inj, true_and] at h
  case keyRegistered.keyRegistered | keyRevoked.keyRevoked | release.release => simpa using h
  all_goals exact absurd h.1 (by decide)

theorem eventMessage_inj {e f : TransparencyEvent} (h : e.message = f.message) : e = f := by
  obtain ⟨hseq, hkind⟩ := canonicalField_append_inj.1 (List.append_cancel_left h)
  have hseq : e.sequence = f.sequence := Nat.repr_inj.1 hseq
  obtain ⟨sequence, kind⟩ := e
  obtain ⟨sequence', kind'⟩ := f
  obtain rfl : sequence = sequence' := hseq
  obtain rfl : kind = kind' := kindFields_inj hkind
  rfl

namespace Crates

variable {crates : Crates}

theorem leafInput_ne_nodeInput (message : List UInt8) (left right : Hash) :
    leafInput message ≠ nodeInput left right := by
  intro h
  exact absurd (List.cons.inj h).1 (by decide)

theorem nodeInput_inj {a b c d : Hash} (h : nodeInput a b = nodeInput c d) : a = c ∧ b = d := by
  obtain ⟨h₁, h₂⟩ := List.append_inj (List.cons.inj h).2 (a.size.trans c.size.symm)
  obtain ⟨a, _⟩ := a
  obtain ⟨b, _⟩ := b
  obtain rfl : a = c.bytes := h₁
  obtain rfl : b = d.bytes := h₂
  exact ⟨rfl, rfl⟩

@[simp] theorem decodeHash_encodeHex (hash : Hash) : decodeHash (encodeHex hash.bytes) = .ok hash := by
  obtain ⟨bs, hbs⟩ := hash
  simp only [decodeHash, decodeHex_encodeHex]
  show (if h : bs.length = 32 then _ else _) = _
  rw [dif_pos hbs]
  rfl

theorem foldSiblings_encoded (hash : Hash) (steps : List (Merkle.Side × Hash)) :
    crates.foldSiblings hash (steps.map fun (side, hash) => ⟨side, encodeHex hash.bytes⟩)
      = .ok (Merkle.walk crates.nodeHash hash steps) := by
  induction steps generalizing hash with
  | nil => rfl
  | cons step steps ih =>
    show (decodeHash (encodeHex step.2.bytes) >>= _) = _
    rw [decodeHash_encodeHex]
    exact ih _

theorem foldSiblings_spec {hash result : Hash} {steps : List ProofStep}
    (h : crates.foldSiblings hash steps = .ok result) : ∃ path,
      result = Merkle.walk crates.nodeHash hash path ∧
      crates.siblingInputs hash steps
        = (Merkle.walkInputs crates.nodeHash hash path).map fun p => nodeInput p.1 p.2 := by
  induction steps generalizing hash with
  | nil =>
    cases h
    exact ⟨[], rfl, rfl⟩
  | cons step steps ih =>
    simp only [foldSiblings, bind_eq_ok] at h
    obtain ⟨sibling, hsibling, h⟩ := h
    obtain ⟨path, hresult, hinputs⟩ := ih h
    refine ⟨(step.side, sibling) :: path, hresult, ?_⟩
    simp only [siblingInputs, hsibling, hinputs]
    rfl

namespace TransparencyLog

variable (log : crates.TransparencyLog)

theorem leafHashes_eq : log.leafHashes = .ok log.leaves := by
  refine collect_eq_ok fun event hevent => ?_
  simp [eventCanonicalBytes, log.valid event hevent]

theorem length_leaves : log.leaves.length = log.events.length := List.length_map ..

theorem Heads.root {log : crates.TransparencyLog} {head : SignedTreeHead} (h : log.Heads head) :
    ∃ root, Merkle.root crates.nodeHash log.leaves = some root ∧
      head.rootHash = "sha256:" ++ encodeHex root.bytes := by
  have hroot := h.rootHash
  simp only [TransparencyLog.rootHash, leafHashes_eq, bind_eq_ok, orElse_eq_ok, pure_eq_ok] at hroot
  obtain ⟨leaves, hleaves, root, hroot, heq⟩ := hroot
  cases hleaves
  exact ⟨root, hroot, heq.symm⟩

theorem inclusion_eq (index : Nat) (event : TransparencyEvent)
    (h : log.events[index]? = some event) : log.inclusion index = .ok
      { event := event
        proof := {
          leafIndex := index
          treeSize := log.events.length
          siblings := (Merkle.path crates.nodeHash log.leaves.length log.leaves index).map
            fun (side, hash) => ⟨side, encodeHex hash.bytes⟩ } } := by
  simp [inclusion, leafHashes_eq, h]

end TransparencyLog

theorem verifyLogInclusion_complete (log : crates.TransparencyLog) (index : Nat)
    (hindex : index < log.events.length) : ∃ inclusion, log.inclusion index = .ok inclusion ∧
      inclusion.proof.leafIndex = index ∧
      ∀ head, log.Heads head → crates.verifyLogInclusion inclusion head = .ok () := by
  have hevent : log.events[index]? = some log.events[index] := List.getElem?_eq_getElem hindex
  refine ⟨_, log.inclusion_eq index _ hevent, rfl, fun head hhead => ?_⟩
  obtain ⟨root, hroot, heq⟩ := hhead.root
  have hleaf : log.leaves[index]? = some (crates.leafHash log.events[index].message) := by
    simp [TransparencyLog.leaves, hevent]
  have hpath := Merkle.walk_path crates.nodeHash log.leaves index _ hleaf
  rw [hroot, Option.some_inj] at hpath
  simp only [verifyLogInclusion, eventCanonicalBytes, bind_eq_ok, require_eq_ok, pure_eq_ok]
  refine ⟨(), ⟨hhead.treeSize.symm, hindex, (log.sequence index _ hevent).symm⟩, _,
    ⟨(), log.valid _ (List.getElem_mem hindex), rfl⟩, root, ?_, heq.symm⟩
  rw [foldSiblings_encoded, ← hpath]

theorem verifyLogInclusion_sound (log : crates.TransparencyLog) (inclusion : LogInclusion)
    (head : SignedTreeHead) (hhead : log.Heads head)
    (hfree : crates.CollisionFree (log.inputs ++ crates.inclusionInputs inclusion))
    (h : crates.verifyLogInclusion inclusion head = .ok ()) :
    log.events[inclusion.proof.leafIndex]? = some inclusion.event := by
  simp only [verifyLogInclusion, eventCanonicalBytes, bind_eq_ok, require_eq_ok, pure_eq_ok] at h
  obtain ⟨_, ⟨-, -, hindex⟩, message, ⟨_, -, rfl⟩, result, hfold, hresult⟩ := h
  obtain ⟨path, rfl, hinputs⟩ := foldSiblings_spec hfold
  obtain ⟨root, hroot, heq⟩ := hhead.root
  obtain rfl : root = Merkle.walk crates.nodeHash (crates.leafHash inclusion.event.message) path := by
    obtain ⟨bs, _⟩ := root
    have := encodeHex_inj.1 (String.append_right_inj _ |>.1 (hresult.trans heq))
    simp only at this
    subst this
    rfl
  -- The inputs of the tree and of the walk, and where they are listed.
  have htree : ∀ p ∈ Merkle.nodeInputs crates.nodeHash log.leaves.length log.leaves,
      nodeInput p.1 p.2 ∈ log.inputs ++ crates.inclusionInputs inclusion := by
    intro p hp
    rw [log.length_leaves] at hp
    exact List.mem_append_left _ (List.mem_append_right _ (List.mem_map.2 ⟨p, hp, rfl⟩))
  have hwalk : ∀ q ∈ Merkle.walkInputs crates.nodeHash (crates.leafHash inclusion.event.message) path,
      nodeInput q.1 q.2 ∈ log.inputs ++ crates.inclusionInputs inclusion := by
    intro q hq
    refine List.mem_append_right _ (List.mem_cons_of_mem _ ?_)
    rw [hinputs]
    exact List.mem_map.2 ⟨q, hq, rfl⟩
  have hleaf : ∀ event ∈ log.events,
      leafInput event.message ∈ log.inputs ++ crates.inclusionInputs inclusion := fun event he =>
    List.mem_append_left _ (List.mem_append_left _ (List.mem_map.2 ⟨event, he, rfl⟩))
  have hown : leafInput inclusion.event.message ∈ log.inputs ++ crates.inclusionInputs inclusion :=
    List.mem_append_right _ (List.mem_cons_self ..)
  have hmem := Merkle.mem_of_walk_eq_root crates.nodeHash log.leaves
    (fun p hp q hq heq => Prod.ext_iff.2 (nodeInput_inj (hfree _ (htree p hp) _ (hwalk q hq) heq)))
    (fun p hp heq => leafInput_ne_nodeInput _ _ _ (hfree _ hown _ (htree p hp) heq))
    (fun q hq hmem => by
      obtain ⟨event, he, heq⟩ := List.mem_map.1 hmem
      exact leafInput_ne_nodeInput _ _ _ (hfree _ (hleaf event he) _ (hwalk q hq) heq))
    hroot
  -- The event is one of the log's, and stands where it says.
  obtain ⟨event, he, heq⟩ := List.mem_map.1 hmem
  obtain rfl : event = inclusion.event :=
    eventMessage_inj (List.cons.inj (hfree _ (hleaf event he) _ hown heq)).2
  obtain ⟨i, hi, hget⟩ := List.getElem_of_mem he
  have hsome : log.events[i]? = some inclusion.event := by rw [List.getElem?_eq_getElem hi, hget]
  rw [hindex, log.sequence i _ hsome]
  exact hsome

end Crates

/-! ## A log of three events -/

/-- The hash written in hexadecimal. -/
def Hash.ofHex (hex : String) (size : (decodePairs (SupplyChain.bytes hex)).length = 32) : Hash :=
  ⟨decodePairs (SupplyChain.bytes hex), size⟩

/-- Crates that know the given hashes, signatures and versions, and nothing else. -/
def Crates.tabulated (hashes : List (List UInt8 × Hash))
    (signatures : List (List UInt8 × List UInt8 × List UInt8)) (versions : List String) : Crates where
  sha256 message := (hashes.lookup message).getD ⟨List.replicate 32 0, rfl⟩
  ed25519 publicKey message signature := signatures.contains (publicKey, message, signature)
  semver version :=
    if version ∈ versions then .ok () else .error "unexpected end of input while parsing version"

namespace Sample

def publisherKey : String := "8a88e3dd7409f195fd52db2d3cba5d72ca6709bf1d94121bf3748801b40f6f5c"

def publisherKeyId : String :=
  "sha256:34750f98bd59fcfc946da45aaabe933be154a4b5094e1c4abf42866505f3c97e"

def subjectDigest : String :=
  "sha256:0fb7c938734297ff0d60755f9fbb1bc60d5914008242b161d68e6af9b04eb800"

/-- A key is registered. -/
def registered : TransparencyEvent := ⟨0, .keyRegistered "nomo-lang/demo" publisherKeyId publisherKey⟩

/-- The key is revoked. -/
def revoked : TransparencyEvent := ⟨1, .keyRevoked "nomo-lang/demo" publisherKeyId⟩

/-- A release signed with the revoked key is logged. -/
def released : TransparencyEvent :=
  ⟨2, .release "nomo-lang/demo" "1.2.0" subjectDigest publisherKeyId⟩

/-- The leaves over the three events. -/
def leaf : Fin 3 → Hash
  | 0 => .ofHex "8524c7d66d4b2fa45bb34566ab79e1e9f3a5fca78196876a1018795f395d3177" (by decide)
  | 1 => .ofHex "acd1986057295c3b55da913a9775c7500e7a758125ea083bfc25f411b36d3c84" (by decide)
  | 2 => .ofHex "da53819baa6b6350a4d6340adbc48430e3eab35bf42572d755e7d1615c9d8db5" (by decide)

/-- The leaf of the registration. -/
def firstLeaf : Hash := leaf 0

/-- The node over the first two leaves. -/
def inner : Hash :=
  .ofHex "5ded2b30099925d84c9221060f162f1896d4856a08b84be14ddefb292bb4c8ea" (by decide)

/-- The root over all three. -/
def root : Hash :=
  .ofHex "f2766044bdf98a9c50dc4eee111bfa800816b19282d8cca6706d3d14be4aca15" (by decide)

/-- The hash of the publisher's key. -/
def publisherHash : Hash :=
  .ofHex "34750f98bd59fcfc946da45aaabe933be154a4b5094e1c4abf42866505f3c97e" (by decide)

/-- The SHA-256 values that occur in the log. -/
def hashes : List (List UInt8 × Hash) := [
  (decodePairs (bytes publisherKey), publisherHash),
  (Crates.leafInput registered.message, leaf 0), (Crates.leafInput revoked.message, leaf 1),
  (Crates.leafInput released.message, leaf 2), (Crates.nodeInput (leaf 0) (leaf 1), inner),
  (Crates.nodeInput inner (leaf 2), root)]

/-- Crates that know them. -/
def logCrates : Crates := .tabulated hashes [] ["1.2.0"]

theorem checkEvents_events :
    logCrates.checkEvents 0 [registered, revoked, released] = .ok () := by rfl

def log : logCrates.TransparencyLog where
  events := [registered, revoked, released]
  nonempty := by simp
  sequence i event h := by
    have := (logCrates.checkEvents_spec checkEvents_events).1 i event h
    omega
  valid := (logCrates.checkEvents_spec checkEvents_events).2

/-- A head with its size and root. -/
def head : SignedTreeHead where
  schema := 2
  logId := "https://registry.example/transparency"
  treeSize := 3
  rootHash := "sha256:f2766044bdf98a9c50dc4eee111bfa800816b19282d8cca6706d3d14be4aca15"
  issuedAtUnixSeconds := 1000
  previousTreeSize := none
  previousRootHash := none
  algorithm := "ed25519"
  keyId := "sha256:6a3803d5f059902a1c6dafbc9ba4729212f7caac08634cc3ae76b27529f03827"
  signature := "3603ca061fcf935d324985164e1d548fcdc9e321eb61c858a9e3352abdb43ed3" ++
    "945b000d02bd8d2dacf7d6d0467f5b297d1cdc6195b2ede21270cc48f17d1003"

/-- The inclusion of the release: its leaf was promoted, so there is a single sibling. -/
def release : LogInclusion where
  event := released
  proof := {
    leafIndex := 2
    treeSize := 3
    siblings := [⟨.left, "5ded2b30099925d84c9221060f162f1896d4856a08b84be14ddefb292bb4c8ea"⟩] }

theorem verify_release :
    log.rootHash = .ok head.rootHash ∧
    logCrates.CollisionFree (log.inputs ++ logCrates.inclusionInputs release) ∧
    logCrates.verifyLogInclusion release head = .ok () := by
  decide +kernel

theorem log_heads : log.Heads head where
  treeSize := rfl
  rootHash := verify_release.1

end Sample

end Nomo.SupplyChain
