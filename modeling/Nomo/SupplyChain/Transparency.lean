import Nomo.SupplyChain.Log

/-!
# Verifying a transparency bundle

`verify_transparency_bundle_with_policy` (`nomo_supply_chain/src/lib.rs:681–790`) and what it calls:
the timeline of log keys built from the bundle's rotations (`814–876`), the heads of the bundle
indexed by size (`980–1002`), the walk from the current head back to an anchor (`1004–1061`), gossip
checkpoints (`1063–1087`), and the replay of the key events (`741–767`).

The walk of the source loops until it meets a head it has seen; here it has fuel, and
`walkBack_isSome` shows that one round for each indexed head, and one more, are enough.

`Accepted` lists what an accepted bundle has passed.
-/

namespace Nomo.SupplyChain

open Nomo.Lib Nomo.Lib.Checked

/-- A bundle: the current head, what is needed to trust it, and the events it proves. -/
structure TransparencyBundle where
  head : SignedTreeHead
  logPublicKey : String
  logKeyRotations : List LogKeyRotation
  headHistory : List SignedTreeHead
  release : LogInclusion
  keyEvents : List LogInclusion
deriving DecidableEq

/-- The head a client remembers. -/
structure CachedTreeHead where
  treeSize : Nat
  rootHash : String
  issuedAtUnixSeconds : Nat
  keyId : String
deriving DecidableEq

/-- A head someone else has seen. -/
structure GossipCheckpoint where
  observedAtUnixSeconds : Nat
  head : SignedTreeHead
deriving DecidableEq

/-- How old a proof may be. -/
structure ProofFreshnessPolicy where
  maxAgeSeconds : Nat
  offlineMaxAgeSeconds : Nat
  maxFutureSkewSeconds : Nat
deriving DecidableEq

/-- What the client trusts. -/
structure TransparencyVerificationPolicy where
  trustedLogKeys : List String
  freshness : ProofFreshnessPolicy
  gossipCheckpoints : List GossipCheckpoint

/-- The result of a verification. -/
structure VerifiedTransparency where
  cachedHead : CachedTreeHead
  gossipCheckpoint : GossipCheckpoint
deriving DecidableEq

/-- `u64::saturating_add`. -/
def saturatingAdd (a b : Nat) : Nat := min (a + b) (2 ^ 64 - 1)

/-! ## Policy and freshness -/

/-- `validate_transparency_policy`. -/
def validateTransparencyPolicy (policy : TransparencyVerificationPolicy) : Except String Unit := do
  require (policy.trustedLogKeys ≠ []) "transparency policy must pin at least one log key"
  each (fun key => do
    let bytes ← decodeHex key
    require (bytes.length = 32) "transparency policy log keys must contain 32 bytes")
    policy.trustedLogKeys
  require (policy.freshness.maxAgeSeconds ≠ 0 ∧
      policy.freshness.maxAgeSeconds ≤ policy.freshness.offlineMaxAgeSeconds)
    "offline transparency proof age must be at least the positive online proof age"

/-- `verify_head_freshness`. -/
def verifyHeadFreshness (head : SignedTreeHead) (policy : ProofFreshnessPolicy) (offline : Bool)
    (now : Nat) : Except String Unit := do
  require (now ≠ 0) "transparency verification time must be positive"
  require (head.issuedAtUnixSeconds ≤ saturatingAdd now policy.maxFutureSkewSeconds)
    "transparency proof tree head is too far in the future"
  let age := now - head.issuedAtUnixSeconds
  let maximum := if offline then policy.offlineMaxAgeSeconds else policy.maxAgeSeconds
  let mode := if offline then "offline" else "online"
  require (age ≤ maximum)
    s!"transparency proof is stale: tree head age {age}s exceeds {maximum}s {mode} limit"

/-! ## Heads by size -/

/-- Heads by their size, latest insertion first. -/
abbrev HeadHistory := List (Nat × SignedTreeHead)

/-- The loop of `indexed_head_history`. -/
def insertHeads : List SignedTreeHead → HeadHistory → Except String HeadHistory
  | [], heads => .ok heads
  | head :: rest, heads =>
    match heads.lookup head.treeSize with
    | some existing =>
      if existing.rootHash ≠ head.rootHash then
        .error "transparency head history contains equivocation at one tree size"
      else .error "transparency head history contains a duplicate tree size"
    | none => insertHeads rest ((head.treeSize, head) :: heads)

/-- `indexed_head_history`. -/
def indexedHeadHistory (bundle : TransparencyBundle) : Except String HeadHistory :=
  insertHeads (bundle.headHistory ++ [bundle.head]) []

/-- The loop of `verify_head_extends_anchor`; `none` if it has not ended within `fuel` rounds. -/
def walkBack (history : HeadHistory) (anchorSize : Nat) (anchorRoot anchorLabel : String) :
    Nat → SignedTreeHead → List Nat → Option (Except String Unit)
  | 0, _, _ => none
  | fuel + 1, cursor, visited =>
    if cursor.treeSize ∈ visited then
      some (.error "transparency head history contains a cycle")
    else
      match cursor.previousTreeSize, cursor.previousRootHash with
      | some previousSize, some previousRoot =>
        if previousSize = anchorSize then
          some (require (previousRoot = anchorRoot)
            s!"transparency log equivocation detected against {anchorLabel}")
        else if previousSize < anchorSize then
          some (.error s!"transparency consistency chain skips {anchorLabel} size {anchorSize}")
        else
          match history.lookup previousSize with
          | none =>
            some (.error
              s!"transparency consistency chain is missing tree head {previousSize} required by {anchorLabel}")
          | some next =>
            if next.rootHash ≠ previousRoot then
              some (.error "transparency head history predecessor root does not match")
            else
              walkBack history anchorSize anchorRoot anchorLabel fuel next
                (cursor.treeSize :: visited)
      | _, _ =>
        some (.error
          s!"transparency consistency chain does not reach {anchorLabel} size {anchorSize}")

/-- `verify_head_extends_anchor` (`lib.rs:1004–1061`). -/
def verifyHeadExtendsAnchor (current : SignedTreeHead) (history : HeadHistory) (anchorSize : Nat)
    (anchorRoot anchorLabel : String) : Except String Unit :=
  if current.treeSize < anchorSize then
    .error s!"transparency log rollback detected: {anchorLabel} size {anchorSize}, received {current.treeSize}"
  else if current.treeSize = anchorSize then
    require (current.rootHash = anchorRoot)
      s!"transparency log equivocation detected against {anchorLabel}"
  else
    (walkBack history anchorSize anchorRoot anchorLabel (history.length + 2) current []).getD
      (.error "out of rounds")

/-! ## Keys of publishers -/

/-- The keys of one package: its public key for each registered key, nothing for a revoked one. -/
abbrev KeyState := List (String × Option String)

/-- What one event does to the keys of a package. -/
def replayEvent (package : String) (state : KeyState) (event : TransparencyEvent) : KeyState :=
  match event.kind with
  | .keyRegistered eventPackage keyId publicKey =>
    if eventPackage = package then (keyId, some publicKey) :: state else state
  | .keyRevoked eventPackage keyId =>
    if eventPackage = package then (keyId, none) :: state else state
  | .release .. => state

/-- The replay of the key events before a release, in the order of their sequence numbers. -/
def replayKeyEvents (package : String) (releaseSequence : Nat) (keyEvents : List LogInclusion) :
    KeyState :=
  (((keyEvents.map LogInclusion.event).insertionSort fun a b => a.sequence ≤ b.sequence).filter
    fun event => event.sequence < releaseSequence).foldl (replayEvent package) []

namespace Crates

variable (crates : Crates)

/-! ## Keys of the log -/

/-- The loop of `build_log_key_timeline`: the key that a chain of rotations ends with. -/
def checkRotations (head : SignedTreeHead) :
    List LogKeyRotation → String → Nat → Except String String
  | [], expectedPublicKey, _ => .ok expectedPublicKey
  | rotation :: rest, expectedPublicKey, previousActivation => do
    crates.validateRotationIdentity rotation
    require (rotation.logId = head.logId)
      "transparency log-key rotation targets a different log id"
    require (eqIgnoreAsciiCase rotation.oldPublicKey expectedPublicKey = true)
      "transparency log-key rotation chain is discontinuous"
    require (previousActivation < rotation.activateAtTreeSize ∧
        rotation.activateAtTreeSize ≤ head.treeSize)
      "transparency log-key rotation activation sizes must increase within the verified tree"
    crates.verifyLogKeyRotation rotation
    checkRotations head rest (toAsciiLowercase rotation.newPublicKey) rotation.activateAtTreeSize

/-- `build_log_key_timeline` (`lib.rs:814–876`). -/
def buildLogKeyTimeline (bundle : TransparencyBundle) (trustedLogKeys : List String) :
    Except String LogKeyTimeline := do
  crates.validateLogKeyIdentity "current" bundle.head.keyId bundle.logPublicKey
  match bundle.logKeyRotations with
  | [] => do
    require (trustedLogKeys.any (eqIgnoreAsciiCase · bundle.logPublicKey) = true)
      "transparency log public key is not trusted by policy"
    return ⟨bundle.head.logId, toAsciiLowercase bundle.logPublicKey, []⟩
  | first :: rest => do
    require (trustedLogKeys.any (eqIgnoreAsciiCase · first.oldPublicKey) = true)
      "transparency log-key rotation chain does not start at a policy-pinned key"
    let expected ← crates.checkRotations bundle.head (first :: rest)
      (toAsciiLowercase first.oldPublicKey) 0
    require (eqIgnoreAsciiCase expected bundle.logPublicKey = true)
      "transparency log-key rotation chain does not reach the current tree-head key"
    return ⟨bundle.head.logId, toAsciiLowercase first.oldPublicKey, first :: rest⟩

/-- `verify_gossip_checkpoint`. -/
def verifyGossipCheckpoint (gossip : GossipCheckpoint) (current : SignedTreeHead)
    (history : HeadHistory) (timeline : LogKeyTimeline) (maxFutureSkewSeconds now : Nat) :
    Except String Unit := do
  crates.verifyTreeHeadWithTimeline timeline gossip.head
  require (gossip.head.issuedAtUnixSeconds ≤ gossip.observedAtUnixSeconds)
    "gossip checkpoint was observed before its tree head was issued"
  require (gossip.observedAtUnixSeconds ≤ saturatingAdd now maxFutureSkewSeconds)
    "gossip checkpoint observation time is too far in the future"
  verifyHeadExtendsAnchor current history gossip.head.treeSize gossip.head.rootHash
    "gossip checkpoint"

/-- `verify_transparency_bundle_with_policy` (`lib.rs:681–790`). -/
def verifyTransparencyBundleWithPolicy (bundle : TransparencyBundle)
    (envelope : SignedReleaseEnvelope) (cachedHead : Option CachedTreeHead)
    (policy : TransparencyVerificationPolicy) (offline : Bool) (now : Nat) :
    Except String VerifiedTransparency := do
  validateTransparencyPolicy policy
  let timeline ← crates.buildLogKeyTimeline bundle policy.trustedLogKeys
  crates.verifyTreeHeadWithTimeline timeline bundle.head
  each (crates.verifyTreeHeadWithTimeline timeline) bundle.headHistory
  verifyHeadFreshness bundle.head policy.freshness offline now
  let headHistory ← indexedHeadHistory bundle
  each (fun cached => do
    validateSha256 "cached transparency root hash" cached.rootHash
    verifyHeadExtendsAnchor bundle.head headHistory cached.treeSize cached.rootHash
      "cached tree head") cachedHead.toList
  each (fun gossip => crates.verifyGossipCheckpoint gossip bundle.head headHistory timeline
    policy.freshness.maxFutureSkewSeconds now) policy.gossipCheckpoints
  crates.verifyLogInclusion bundle.release bundle.head
  each (crates.verifyLogInclusion · bundle.head) bundle.keyEvents
  match bundle.release.event.kind with
  | .release package version subjectDigest keyId => do
    require (package = envelope.subject.package ∧ version = envelope.subject.version)
      "transparency release event does not match the signed release"
    let digest ← crates.subjectDigest envelope.subject
    require (subjectDigest = digest ∧ keyId = envelope.signature.keyId)
      "transparency release event does not match the signed release"
    let keyState := replayKeyEvents package bundle.release.event.sequence bundle.keyEvents
    let activePublicKey ← orElse (keyState.lookup keyId).join
      s!"publisher key `{keyId}` was not active when the release was logged"
    crates.verifyReleaseEnvelope envelope envelope.subject [⟨keyId, activePublicKey⟩]
    return {
      cachedHead := {
        treeSize := bundle.head.treeSize
        rootHash := bundle.head.rootHash
        issuedAtUnixSeconds := bundle.head.issuedAtUnixSeconds
        keyId := bundle.head.keyId }
      gossipCheckpoint := ⟨now, bundle.head⟩ }
  | _ => throw "transparency bundle release entry is not a release event"

/-! ## What an accepted bundle has passed -/

/-- An accepted bundle, its result, and the timeline and index built on the way. -/
structure Accepted (bundle : TransparencyBundle) (cachedHead : Option CachedTreeHead)
    (policy : TransparencyVerificationPolicy) (verified : VerifiedTransparency)
    (timeline : LogKeyTimeline) (history : HeadHistory) : Prop where
  built : crates.buildLogKeyTimeline bundle policy.trustedLogKeys = .ok timeline
  head : crates.verifyTreeHeadWithTimeline timeline bundle.head = .ok ()
  heads : ∀ head ∈ bundle.headHistory, crates.verifyTreeHeadWithTimeline timeline head = .ok ()
  indexed : indexedHeadHistory bundle = .ok history
  anchor : ∀ cached ∈ cachedHead, verifyHeadExtendsAnchor bundle.head history cached.treeSize
    cached.rootHash "cached tree head" = .ok ()
  release : crates.verifyLogInclusion bundle.release bundle.head = .ok ()
  keyEvents : ∀ event ∈ bundle.keyEvents, crates.verifyLogInclusion event bundle.head = .ok ()
  active : ∃ package version digest keyId publicKey,
    bundle.release.event.kind = .release package version digest keyId ∧
    (replayKeyEvents package bundle.release.event.sequence bundle.keyEvents).lookup keyId
      = some (some publicKey)
  cachedHead : verified.cachedHead = ⟨bundle.head.treeSize, bundle.head.rootHash,
    bundle.head.issuedAtUnixSeconds, bundle.head.keyId⟩

variable {crates}

/-- **What acceptance means.** -/
theorem accepted_of_verify {bundle : TransparencyBundle} {envelope : SignedReleaseEnvelope}
    {cachedHead : Option CachedTreeHead} {policy : TransparencyVerificationPolicy} {offline : Bool}
    {now : Nat} {verified : VerifiedTransparency}
    (h : crates.verifyTransparencyBundleWithPolicy bundle envelope cachedHead policy offline now
      = .ok verified) :
    ∃ timeline history, crates.Accepted bundle cachedHead policy verified timeline history := by
  simp only [verifyTransparencyBundleWithPolicy, bind_eq_ok, each_eq_ok] at h
  obtain ⟨_, -, timeline, htimeline, _, hhead, _, hheads, _, -, history, hhistory, _, hanchor, _, -,
    _, hrelease, _, hevents, h⟩ := h
  cases hkind : bundle.release.event.kind with
  | release package version digest keyId =>
    simp only [hkind, bind_eq_ok, require_eq_ok, orElse_eq_ok, Option.join_eq_some_iff,
      pure_eq_ok] at h
    obtain ⟨_, -, _, -, _, -, publicKey, hactive, _, -, rfl⟩ := h
    refine ⟨timeline, history, ?_⟩
    exact
      { built := htimeline
        head := hhead
        heads := hheads
        indexed := hhistory
        anchor := fun cached hc => by
          obtain ⟨_, -, hextends⟩ := hanchor cached (Option.mem_toList.2 hc)
          exact hextends
        release := hrelease
        keyEvents := hevents
        active := ⟨package, version, digest, keyId, publicKey, hkind, hactive⟩
        cachedHead := rfl }
  | keyRegistered | keyRevoked => simp [hkind] at h

/-! ## The index and the walk -/

theorem insertHeads_spec {heads : List SignedTreeHead} {history result : HeadHistory}
    {P : SignedTreeHead → Prop} (hP : ∀ head ∈ heads, P head)
    (hhistory : ∀ entry ∈ history, entry.2.treeSize = entry.1 ∧ P entry.2)
    (h : insertHeads heads history = .ok result) :
    ∀ entry ∈ result, entry.2.treeSize = entry.1 ∧ P entry.2 := by
  induction heads generalizing history with
  | nil =>
    cases h
    exact hhistory
  | cons head rest ih =>
    unfold insertHeads at h
    split at h
    · split_ifs at h
    · refine ih (fun head hm => hP head (List.mem_cons_of_mem _ hm)) (fun entry he => ?_) h
      rcases List.mem_cons.1 he with rfl | he
      · exact ⟨rfl, hP _ (List.mem_cons_self ..)⟩
      · exact hhistory entry he

theorem mem_of_lookup {history : HeadHistory} {size : Nat} {head : SignedTreeHead}
    (h : history.lookup size = some head) : (size, head) ∈ history := by
  obtain ⟨before, after, rfl, -⟩ := List.lookup_eq_some_iff.1 h
  simp

/-- The walk ends within one round for each indexed head, and two more. -/
theorem walkBack_isSome (history : HeadHistory) (anchorSize : Nat)
    (anchorRoot anchorLabel : String)
    (hhistory : ∀ entry ∈ history, entry.2.treeSize = entry.1) (first : Nat) :
    ∀ fuel cursor visited, visited.Nodup →
      (∀ size ∈ visited, size ∈ first :: history.map Prod.fst) →
      cursor.treeSize ∈ first :: history.map Prod.fst →
      history.length + 2 ≤ fuel + visited.length →
      (walkBack history anchorSize anchorRoot anchorLabel fuel cursor visited).isSome := by
  intro fuel
  induction fuel with
  | zero =>
    -- All sizes visited are different, and there are only so many.
    intro cursor visited hnodup hsubset _ hfuel
    have := (List.subperm_of_subset hnodup hsubset).length_le
    simp only [List.length_cons, List.length_map] at this
    omega
  | succ fuel ih =>
    intro cursor visited hnodup hsubset hcursor hfuel
    unfold walkBack
    split_ifs with hmem
    · rfl
    split
    · split_ifs
      · rfl
      · rfl
      split
      · rfl
      rename_i next hlookup
      split_ifs
      · rfl
      refine ih next _ (List.nodup_cons.2 ⟨hmem, hnodup⟩) (fun size hs => ?_) ?_ ?_
      · rcases List.mem_cons.1 hs with rfl | hs
        · exact hcursor
        · exact hsubset size hs
      · have hentry := mem_of_lookup hlookup
        rw [hhistory _ hentry]
        exact List.mem_cons_of_mem _ (List.mem_map.2 ⟨_, hentry, rfl⟩)
      · simp only [List.length_cons]
        omega
    · rfl

/-- A head reaches a size and root through heads that satisfy `signed`, each naming the size and the
root of the one before. -/
inductive Extends (signed : SignedTreeHead → Prop) (size : Nat) (root : String) :
    SignedTreeHead → Prop
  | same {head : SignedTreeHead} : signed head → head.treeSize = size → head.rootHash = root →
      Extends signed size root head
  | named {head : SignedTreeHead} : signed head → head.previousTreeSize = some size →
      head.previousRootHash = some root → Extends signed size root head
  | step {head previous : SignedTreeHead} : signed head →
      head.previousTreeSize = some previous.treeSize →
      head.previousRootHash = some previous.rootHash → Extends signed size root previous →
      Extends signed size root head

theorem extends_of_walkBack {history : HeadHistory} {anchorSize : Nat}
    {anchorRoot anchorLabel : String} {signed : SignedTreeHead → Prop}
    (hhistory : ∀ entry ∈ history, entry.2.treeSize = entry.1 ∧ signed entry.2) :
    ∀ fuel cursor visited, signed cursor →
      walkBack history anchorSize anchorRoot anchorLabel fuel cursor visited = some (.ok ()) →
      Extends signed anchorSize anchorRoot cursor := by
  intro fuel
  induction fuel with
  | zero =>
    intro cursor visited _ h
    cases h
  | succ fuel ih =>
    intro cursor visited hsigned h
    unfold walkBack at h
    split_ifs at h with hmem
    · cases h
    split at h
    · rename_i previousSize previousRoot hsize hroot
      split_ifs at h with heq hlt
      · rw [Option.some_inj, require_eq_ok] at h
        exact .named hsigned (heq ▸ hsize) (h ▸ hroot)
      · cases h
      split at h
      · cases h
      rename_i next hlookup
      split_ifs at h with hne
      · cases h
      · obtain ⟨hnext, hnextSigned⟩ := hhistory _ (mem_of_lookup hlookup)
        exact .step hsigned (hsize.trans (congrArg some hnext.symm))
          (hroot.trans (congrArg some (not_not.1 hne).symm)) (ih next _ hnextSigned h)
    · cases h

/-- **A head that extends an anchor** is at least as large, and reaches it through signed heads. -/
theorem extends_of_verify {current : SignedTreeHead} {history : HeadHistory} {anchorSize : Nat}
    {anchorRoot anchorLabel : String} {signed : SignedTreeHead → Prop} (hsigned : signed current)
    (hhistory : ∀ entry ∈ history, entry.2.treeSize = entry.1 ∧ signed entry.2)
    (h : verifyHeadExtendsAnchor current history anchorSize anchorRoot anchorLabel = .ok ()) :
    anchorSize ≤ current.treeSize ∧
      (current.treeSize = anchorSize → current.rootHash = anchorRoot) ∧
      Extends signed anchorSize anchorRoot current := by
  unfold verifyHeadExtendsAnchor at h
  split_ifs at h with hlt heq
  · rw [require_eq_ok] at h
    exact ⟨by omega, fun _ => h, .same hsigned heq h⟩
  refine ⟨by omega, fun h' => absurd h' heq, ?_⟩
  cases hw : walkBack history anchorSize anchorRoot anchorLabel (history.length + 2) current []
    with
  | none =>
    rw [hw] at h
    cases h
  | some result =>
    rw [hw] at h
    obtain rfl : result = .ok () := h
    exact extends_of_walkBack hhistory _ current [] hsigned hw

/-- An accepted bundle's heads all are signed under its timeline, and its head reaches the cached
head through them. -/
theorem Accepted.extends {bundle : TransparencyBundle} {cachedHead : Option CachedTreeHead}
    {policy : TransparencyVerificationPolicy} {verified : VerifiedTransparency}
    {timeline : LogKeyTimeline} {history : HeadHistory}
    (h : crates.Accepted bundle cachedHead policy verified timeline history)
    (cached : CachedTreeHead) (hcached : cached ∈ cachedHead) :
    cached.treeSize ≤ bundle.head.treeSize ∧
      (bundle.head.treeSize = cached.treeSize → bundle.head.rootHash = cached.rootHash) ∧
      Extends (fun head => crates.verifyTreeHeadWithTimeline timeline head = .ok ())
        cached.treeSize cached.rootHash bundle.head := by
  have hsigned : ∀ head ∈ bundle.headHistory ++ [bundle.head],
      crates.verifyTreeHeadWithTimeline timeline head = .ok () := by
    intro head hm
    rcases List.mem_append.1 hm with hm | hm
    · exact h.heads head hm
    · rw [List.mem_singleton.1 hm]
      exact h.head
  exact extends_of_verify h.head (insertHeads_spec hsigned (by simp) h.indexed)
    (h.anchor cached hcached)

/-! ## Chains of validated heads -/

theorem lookup_of_insertHeads {heads : List SignedTreeHead} {history result : HeadHistory}
    (h : insertHeads heads history = .ok result) :
    (∀ size head, history.lookup size = some head → result.lookup size = some head) ∧
      ∀ head ∈ heads, result.lookup head.treeSize = some head := by
  induction heads generalizing history with
  | nil =>
    cases h
    exact ⟨fun _ _ h => h, fun _ h => nomatch h⟩
  | cons head rest ih =>
    unfold insertHeads at h
    split at h
    · split_ifs at h
    rename_i hnone
    obtain ⟨hkept, hrest⟩ := ih h
    refine ⟨fun size other hother => hkept _ _ ?_, fun other hother => ?_⟩
    · have hne : size ≠ head.treeSize := by
        rintro rfl
        rw [hnone] at hother
        exact nomatch hother
      rwa [List.lookup_cons, beq_eq_false_iff_ne.2 hne]
    · rcases List.mem_cons.1 hother with rfl | hother
      · exact hkept _ _ (by simp)
      · exact hrest other hother

/-- The error of the walk that has met a head twice. -/
def cycleError : String := "transparency head history contains a cycle"

theorem error_ne_cycle {front rest : String} (h : front.toList[13]?.any (· != 'h') = true) :
    (Except.error (front ++ rest) : Except String Unit) ≠ .error cycleError := by
  intro heq
  cases hc : front.toList[13]? with
  | none => simp [hc] at h
  | some c =>
    have hne : c ≠ 'h' := by simpa [hc] using h
    have htext := congrArg (fun text => text.toList[13]?) (Except.error.inj heq)
    simp only [String.toList_append] at htext
    rw [List.getElem?_append_left (List.getElem?_eq_some_iff.1 hc).1, hc] at htext
    exact hne (Option.some.inj (htext.trans (by decide)))

section Chains

variable {history : HeadHistory} {anchorSize : Nat} {anchorRoot anchorLabel : String}
  {valid : SignedTreeHead → Prop}
  (hvalid : ∀ head, valid head → ∀ size ∈ head.previousTreeSize, size < head.treeSize)

include hvalid

theorem Extends.size_le {head : SignedTreeHead} (h : Extends valid anchorSize anchorRoot head) :
    anchorSize ≤ head.treeSize ∧ (head.treeSize = anchorSize → head.rootHash = anchorRoot) := by
  induction h with
  | same _ hsize hroot => exact ⟨hsize.ge, fun _ => hroot⟩
  | named hhead hsize _ =>
    have := hvalid _ hhead _ hsize
    exact ⟨this.le, fun h => by omega⟩
  | step hhead hsize _ _ ih =>
    have := hvalid _ hhead _ hsize
    exact ⟨by omega, fun h => by omega⟩

/-- **No cycle.** The sizes that the walk has visited are above the one it stands at. -/
theorem walkBack_ne_cycle (hhistory : ∀ entry ∈ history, entry.2.treeSize = entry.1 ∧ valid entry.2) :
    ∀ fuel cursor visited, valid cursor →
      (∀ size ∈ visited, cursor.treeSize < size) →
      walkBack history anchorSize anchorRoot anchorLabel fuel cursor visited
        ≠ some (.error cycleError) := by
  intro fuel
  induction fuel with
  | zero => exact fun _ _ _ _ h => nomatch h
  | succ fuel ih =>
    intro cursor visited hcursor hvisited h
    unfold walkBack at h
    rw [if_neg fun hmem => (hvisited _ hmem).ne rfl] at h
    split at h
    · rename_i previousSize previousRoot hsize hroot
      split_ifs at h with heq hlt
      · unfold require at h
        split_ifs at h
        · cases h
        · simp only [toString, Option.some.injEq] at h
          exact error_ne_cycle (by decide) h
      · simp only [toString, String.append_assoc, Option.some.injEq] at h
        exact error_ne_cycle (by decide) h
      split at h
      · simp only [toString, String.append_assoc, Option.some.injEq] at h
        exact error_ne_cycle (by decide) h
      rename_i next hlookup
      split_ifs at h with hne
      · exact absurd h (by decide)
      obtain ⟨hkey, hnext⟩ := hhistory _ (mem_of_lookup hlookup)
      have hless := hvalid _ hcursor _ hsize
      refine ih next _ hnext (fun size hs => ?_) h
      rcases List.mem_cons.1 hs with rfl | hs
      · exact hkey.trans_lt hless
      · exact (hkey.trans_lt hless).trans (hvisited size hs)
    · simp only [toString, String.append_assoc, Option.some.injEq] at h
      exact error_ne_cycle (by decide) h

/-- **A chain is found.** A walk that ends, from a head whose chain goes down to the anchor, succeeds. -/
theorem walkBack_of_extends {bound : Nat}
    (hlookup : ∀ head, valid head → head.treeSize < bound → history.lookup head.treeSize = some head)
    {cursor : SignedTreeHead} (h : Extends valid anchorSize anchorRoot cursor) :
    ∀ fuel visited result, cursor.treeSize ≤ bound →
      (∀ size ∈ visited, cursor.treeSize < size) → anchorSize < cursor.treeSize →
      walkBack history anchorSize anchorRoot anchorLabel fuel cursor visited = some result →
      result = .ok () := by
  have hround : ∀ {cursor : SignedTreeHead} {fuel : Nat} {visited : List Nat} {result : Except String Unit},
      (∀ size ∈ visited, cursor.treeSize < size) →
      walkBack history anchorSize anchorRoot anchorLabel fuel cursor visited = some result →
      ∃ n, fuel = n + 1 ∧ cursor.treeSize ∉ visited := by
    intro cursor fuel visited result hvisited hwalk
    cases fuel with
    | zero => exact nomatch hwalk
    | succ n => exact ⟨n, rfl, fun hmem => (hvisited _ hmem).ne rfl⟩
  induction h with
  | same _ hsize _ => exact fun _ _ _ _ _ hlt => absurd hsize hlt.ne'
  | named _ hsize hroot =>
    intro fuel visited result hbound hvisited _ hwalk
    obtain ⟨fuel, rfl, hmem⟩ := hround hvisited hwalk
    rw [walkBack, if_neg hmem, hsize, hroot] at hwalk
    simpa [require] using hwalk.symm
  | @step head previous hhead hsize hroot hchain ih =>
    intro fuel visited result hbound hvisited _ hwalk
    obtain ⟨fuel, rfl, hmem⟩ := hround hvisited hwalk
    obtain ⟨hle, hanchor⟩ := hchain.size_le hvalid
    have hprevious : valid previous := by cases hchain <;> assumption
    have hless := hvalid _ hhead _ hsize
    rw [walkBack, if_neg hmem, hsize, hroot] at hwalk
    rcases hle.eq_or_lt with heq | hlt
    · -- the predecessor is the anchor itself
      simpa [heq, hanchor heq.symm, require] using hwalk.symm
    simp only [if_neg hlt.ne', if_neg hlt.not_gt, hlookup _ hprevious (hless.trans_le hbound), ne_eq, not_true_eq_false,
      if_false] at hwalk
    refine ih fuel _ result (hless.le.trans hbound) (fun size hs => ?_) hlt hwalk
    rcases List.mem_cons.1 hs with rfl | hs
    · exact hless
    · exact hless.trans (hvisited size hs)

end Chains

/-- **The verification of a head chain is exact.** Over validated heads the walk ends, it never meets a
cycle, and the current head is accepted if and only if its chain of predecessors among the heads of the
bundle reaches the size and the root of the anchor.  The anchor need not be in the bundle: the verifier
has it, and a link names a head by its size and root. -/
theorem verifyHeadExtendsAnchor_exact {bundle : TransparencyBundle} {history : HeadHistory}
    {current : SignedTreeHead} (hindexed : indexedHeadHistory bundle = .ok history)
    (hcurrent : current.validate = .ok ())
    (hheads : ∀ head ∈ bundle.headHistory ++ [bundle.head], head.validate = .ok ())
    (anchorSize : Nat) (anchorRoot anchorLabel : String) :
    (walkBack history anchorSize anchorRoot anchorLabel (history.length + 2) current []).isSome ∧
    (verifyHeadExtendsAnchor current history anchorSize anchorRoot anchorLabel = .ok () ↔
      Extends (fun head => head = current ∨ head ∈ bundle.headHistory ++ [bundle.head])
        anchorSize anchorRoot current) ∧
    verifyHeadExtendsAnchor current history anchorSize anchorRoot anchorLabel
      ≠ .error cycleError := by
  have hvalid : ∀ head, (head = current ∨ head ∈ bundle.headHistory ++ [bundle.head]) →
      ∀ size ∈ head.previousTreeSize, size < head.treeSize := by
    rintro head (rfl | hhead)
    · exact (SignedTreeHead.validate_spec hcurrent).2
    · exact (SignedTreeHead.validate_spec (hheads head hhead)).2
  have hhistory := insertHeads_spec (fun head hhead => Or.inr (a := head = current) hhead)
    (by simp) hindexed
  have hlookup : ∀ head, (head = current ∨ head ∈ bundle.headHistory ++ [bundle.head]) →
      head.treeSize < current.treeSize → history.lookup head.treeSize = some head := by
    rintro head (rfl | hhead) hlt
    · exact absurd hlt (lt_irrefl _)
    · exact (lookup_of_insertHeads hindexed).2 head hhead
  have hsome := walkBack_isSome history anchorSize anchorRoot anchorLabel
    (fun entry hentry => (hhistory entry hentry).1) current.treeSize (history.length + 2) current []
    List.nodup_nil (by simp) (List.mem_cons_self ..) (by simp)
  refine ⟨hsome, ⟨fun h => (extends_of_verify (.inl rfl) hhistory h).2.2, fun h => ?_⟩, fun h => ?_⟩
  · obtain ⟨hle, hroot⟩ := h.size_le hvalid
    unfold verifyHeadExtendsAnchor
    rw [if_neg hle.not_gt]
    split_ifs with heq
    · exact require_eq_ok.2 (hroot heq)
    · obtain ⟨result, hresult⟩ := Option.isSome_iff_exists.1 hsome
      rw [hresult, walkBack_of_extends hvalid hlookup h _ _ _ le_rfl (by simp) (by omega) hresult]
      rfl
  · unfold verifyHeadExtendsAnchor at h
    split_ifs at h
    · simp only [toString, String.append_assoc] at h
      exact error_ne_cycle (by decide) h
    · unfold require at h
      split_ifs at h
      simp only [toString] at h
      exact error_ne_cycle (by decide) h
    · obtain ⟨result, hresult⟩ := Option.isSome_iff_exists.1 hsome
      rw [hresult] at h
      exact walkBack_ne_cycle hvalid hhistory _ _ _ (.inl rfl) (by simp) (hresult.trans (congrArg some h))

end Crates

/-! ## A release signed with a revoked key -/

namespace Sample

def logKey : String := "8139770ea87d175f56a35466c34c7ecccb8d8a91b4ee37a25df60f5b8fc9b394"

def subject : ReleaseSubject where
  schema := 1
  package := "nomo-lang/demo"
  version := "1.2.0"
  archiveChecksum := "sha256:0eb3e36bfb24dcd9bb1d1bece1531216b59539a8fde17ee80224af0653c92aa3"
  manifestChecksum := "sha256:05b3abf2579a5eb66403cd78be557fd860633a1fe2103c7642030defe32c657f"
  provenanceDigest := none

/-- The release, signed by the publisher. -/
def envelope : SignedReleaseEnvelope where
  subject := subject
  signature := {
    algorithm := "ed25519"
    keyId := publisherKeyId
    publicKey := publisherKey
    signature := "16c8bb6a66fbe7de06cb067f02967d7d07f54b6a8d2a6d6053ecad4ddf918462" ++
      "2a518b98848db37748bfca43a3242c59dea84da800c132c0a71671f640202400" }

/-- The hashes of the log's key and of the subject. -/
def moreHashes : List (List UInt8 × Hash) := [
  (decodePairs (bytes logKey),
    .ofHex "6a3803d5f059902a1c6dafbc9ba4729212f7caac08634cc3ae76b27529f03827" (by decide)),
  (Crates.subjectMessage subject,
    .ofHex "0fb7c938734297ff0d60755f9fbb1bc60d5914008242b161d68e6af9b04eb800" (by decide))]

/-- A signature by a key. -/
def signed (publicKey signature : String) (message : List UInt8) :
    List UInt8 × List UInt8 × List UInt8 :=
  (decodePairs (bytes publicKey), message, decodePairs (bytes signature))

/-- Crates that know the log and the signatures of its head and of the release. -/
def crates : Crates := .tabulated (hashes ++ moreHashes)
  [signed logKey head.signature head.message,
    signed publisherKey envelope.signature.signature (Crates.subjectMessage subject)] ["1.2.0"]

def registration : LogInclusion where
  event := registered
  proof := {
    leafIndex := 0
    treeSize := 3
    siblings := [⟨.right, "acd1986057295c3b55da913a9775c7500e7a758125ea083bfc25f411b36d3c84"⟩,
      ⟨.right, "da53819baa6b6350a4d6340adbc48430e3eab35bf42572d755e7d1615c9d8db5"⟩] }

/-- A bundle for the release, with some of the key events. -/
def bundle (keyEvents : List LogInclusion) : TransparencyBundle where
  head := head
  logPublicKey := logKey
  logKeyRotations := []
  headHistory := []
  release := release
  keyEvents := keyEvents

/-- A policy that pins the log's key. -/
def policy : TransparencyVerificationPolicy where
  trustedLogKeys := [logKey]
  freshness := ⟨200, 1000, 10⟩
  gossipCheckpoints := []

/-- A later head that names the head of the log as its predecessor. -/
def successor : SignedTreeHead :=
  { head with treeSize := 5, previousTreeSize := some 3, previousRootHash := some head.rootHash }

theorem validate_heads : head.validate = .ok () ∧ successor.validate = .ok () ∧
    indexedHeadHistory (bundle []) = .ok [(3, head)] ∧
    verifyHeadExtendsAnchor successor [(3, head)] 3 head.rootHash "cached tree head" = .ok () := by
  decide +kernel

end Sample

/-- The successor is accepted, and its chain reaches the head of the log. -/
theorem Crates.verifyHeadExtendsAnchor_exact_sample :
    Crates.Extends (fun head => head = Sample.successor ∨ head ∈ [Sample.head]) 3
      Sample.head.rootHash Sample.successor := by
  obtain ⟨hhead, hsuccessor, hindexed, haccepted⟩ := Sample.validate_heads
  exact (Crates.verifyHeadExtendsAnchor_exact hindexed hsuccessor
    (fun head hm => List.mem_singleton.1 hm ▸ hhead) 3 Sample.head.rootHash
    "cached tree head").2.1.1 haccepted

end Nomo.SupplyChain
