import Nomo.SupplyChain.Transparency

/-!
# Runs of a client

A client verifies one bundle after another and remembers the head of the last one it accepted
(`nomo_resolver/src/lib.rs:487–504`).  `clientRun` is such a run, over the bundles it accepted.

- The remembered head never moves back (`clientRun_heads`): sizes never decrease, equal sizes have
  equal roots, and each accepted head reaches the one before through signed heads.
- The remembered head says nothing about which key signed it.  A timeline is built from the bundle
  alone, so a retired key signs on unless every later bundle repeats the rotation away from it
  (`clientRun_retired`, `clientRun_retired_sample`).
-/

namespace Nomo.SupplyChain

open Nomo.Lib.Checked

/-- What a client is given at one step. -/
structure Request where
  bundle : TransparencyBundle
  envelope : SignedReleaseEnvelope
  policy : TransparencyVerificationPolicy
  offline : Bool
  now : Nat

/-- What a client remembers of a head. -/
def SignedTreeHead.cached (head : SignedTreeHead) : CachedTreeHead :=
  ⟨head.treeSize, head.rootHash, head.issuedAtUnixSeconds, head.keyId⟩

namespace Crates

variable (crates : Crates)

/-- A run in which every bundle is accepted; it ends with the head that is remembered then. -/
def clientRun : Option CachedTreeHead → List Request → Except String (Option CachedTreeHead)
  | cached, [] => .ok cached
  | cached, request :: rest => do
    let verified ← crates.verifyTransparencyBundleWithPolicy request.bundle request.envelope cached
      request.policy request.offline request.now
    clientRun (some verified.cachedHead) rest

/-- The timeline of a request's bundle verifies a head. -/
def Signs (request : Request) (head : SignedTreeHead) : Prop :=
  ∃ timeline, crates.buildLogKeyTimeline request.bundle request.policy.trustedLogKeys = .ok timeline ∧
    crates.verifyTreeHeadWithTimeline timeline head = .ok ()

/-- The second head is no rollback of the first. -/
def NoRollback (a b : CachedTreeHead) : Prop :=
  a.treeSize ≤ b.treeSize ∧ (a.treeSize = b.treeSize → a.rootHash = b.rootHash)

/-- Each head reaches the one remembered before it through signed heads, each naming the size and
the root of its predecessor. -/
def Linked : Option CachedTreeHead → List Request → Prop
  | _, [] => True
  | cached, request :: rest =>
    (∀ c ∈ cached, Extends (crates.Signs request) c.treeSize c.rootHash request.bundle.head) ∧
      Linked (some request.bundle.head.cached) rest

variable {crates}

theorem Extends.mono {signed signed' : SignedTreeHead → Prop} {size : Nat} {root : String}
    {head : SignedTreeHead} (hsub : ∀ head, signed head → signed' head)
    (h : Extends signed size root head) : Extends signed' size root head := by
  induction h with
  | same hs hsize hroot => exact .same (hsub _ hs) hsize hroot
  | named hs hsize hroot => exact .named (hsub _ hs) hsize hroot
  | step hs hsize hroot _ ih => exact .step (hsub _ hs) hsize hroot ih

theorem NoRollback.trans {a b c : CachedTreeHead} (hab : NoRollback a b) (hbc : NoRollback b c) :
    NoRollback a c := by
  refine ⟨hab.1.trans hbc.1, fun h => ?_⟩
  have h₁ := hab.1
  have h₂ := hbc.1
  exact (hab.2 (by omega)).trans (hbc.2 (by omega))

theorem clientRun_cons {cached final : Option CachedTreeHead} {request : Request}
    {rest : List Request} (h : crates.clientRun cached (request :: rest) = .ok final) :
    (∃ timeline history verified,
      crates.Accepted request.bundle cached request.policy verified timeline history) ∧
      crates.clientRun (some request.bundle.head.cached) rest = .ok final := by
  simp only [clientRun, bind_eq_ok] at h
  obtain ⟨verified, hverify, hrest⟩ := h
  obtain ⟨timeline, history, haccepted⟩ := accepted_of_verify hverify
  rw [haccepted.cachedHead] at hrest
  exact ⟨⟨timeline, history, verified, haccepted⟩, hrest⟩

/-- **The remembered head never moves back.** Along every run of accepted bundles, whatever they
are: the size never decreases, two heads of one size have one root, and each accepted head reaches
the one remembered before it through validly signed heads that name their predecessors. -/
theorem clientRun_heads (cached final : Option CachedTreeHead) (requests : List Request)
    (hrun : crates.clientRun cached requests = .ok final) :
    (cached.toList ++ requests.map fun request => request.bundle.head.cached).Pairwise NoRollback ∧
      crates.Linked cached requests := by
  induction requests generalizing cached with
  | nil => cases cached <;> simp [Linked]
  | cons request rest ih =>
    obtain ⟨⟨timeline, history, verified, haccepted⟩, hrest⟩ := clientRun_cons hrun
    obtain ⟨hpairs, hlinked⟩ := ih _ hrest
    rw [Option.toList_some, List.singleton_append] at hpairs
    refine ⟨?_, fun c hc => ?_, hlinked⟩
    · cases cached with
      | none => simpa using hpairs
      | some c =>
        obtain ⟨hsize, hroot, -⟩ := haccepted.extends c rfl
        have hfirst : NoRollback c request.bundle.head.cached :=
          ⟨hsize, fun h => (hroot h.symm).symm⟩
        refine List.pairwise_cons.2 ⟨fun d hd => ?_, hpairs⟩
        rcases List.mem_cons.1 hd with rfl | hd
        · exact hfirst
        · exact hfirst.trans ((List.pairwise_cons.1 hpairs).1 d hd)
    · exact (haccepted.extends c hc).2.2.mono fun head hs => ⟨timeline, haccepted.built, hs⟩

/-! ## Retired keys -/

/-- The keys that a bundle's rotations lead away from. -/
def retiredKeyIds (bundle : TransparencyBundle) : List String :=
  bundle.logKeyRotations.map LogKeyRotation.oldKeyId

/-- No rotation leads back to a key that an earlier one has led away from. -/
def NoReturn (rotations : List LogKeyRotation) : Prop :=
  rotations.Pairwise fun a b => b.newKeyId ≠ a.oldKeyId

/-- A chain that passes: each rotation is valid and active at the head's size, and the chain ends
with the last one's new key. -/
theorem checkRotations_spec {head : SignedTreeHead} {rotations : List LogKeyRotation}
    {expected result : String} {previous : Nat}
    (h : crates.checkRotations head rotations expected previous = .ok result) :
    ∀ rotation ∈ rotations, crates.validateRotationIdentity rotation = .ok () ∧
      rotation.activateAtTreeSize ≤ head.treeSize := by
  induction rotations generalizing expected previous with
  | nil => simp
  | cons rotation rest ih =>
    simp only [checkRotations, bind_eq_ok, require_eq_ok] at h
    obtain ⟨_, hvalid, _, -, _, -, _, ⟨-, hactive⟩, _, -, hrest⟩ := h
    intro r hr
    rcases List.mem_cons.1 hr with rfl | hr
    · exact ⟨hvalid, hactive⟩
    · exact ih hrest r hr

theorem keyAt_last {size : Nat} (before : List LogKeyRotation) (last : LogKeyRotation)
    (initial : String) (h : ∀ rotation ∈ before ++ [last], rotation.activateAtTreeSize ≤ size) :
    keyAt initial size (before ++ [last]) = last.newPublicKey := by
  induction before generalizing initial with
  | nil =>
    have hlast := h last (by simp)
    show (if size < last.activateAtTreeSize then initial else last.newPublicKey) = _
    rw [if_neg (by omega)]
  | cons rotation before ih =>
    have hfirst := h rotation (by simp)
    show (if size < rotation.activateAtTreeSize then initial
      else keyAt rotation.newPublicKey size (before ++ [last])) = _
    rw [if_neg (by omega)]
    exact ih _ fun r hr => h r (List.mem_cons_of_mem _ hr)

/-- The current head of an accepted bundle is signed by the key its rotations end with. -/
theorem Accepted.keyId {bundle : TransparencyBundle} {cached : Option CachedTreeHead}
    {policy : TransparencyVerificationPolicy} {verified : VerifiedTransparency}
    {timeline : LogKeyTimeline} {history : HeadHistory} {before : List LogKeyRotation}
    {last : LogKeyRotation}
    (h : crates.Accepted bundle cached policy verified timeline history)
    (hlast : bundle.logKeyRotations = before ++ [last]) :
    bundle.head.keyId = last.newKeyId ∧
      ∀ rotation ∈ bundle.logKeyRotations, rotation.oldKeyId ≠ rotation.newKeyId := by
  obtain ⟨first, rest, hcons⟩ : ∃ first rest, bundle.logKeyRotations = first :: rest :=
    List.exists_cons_of_ne_nil (by simp [hlast])
  have hbuilt := h.built
  simp only [buildLogKeyTimeline, hcons, bind_eq_ok, require_eq_ok, pure_eq_ok] at hbuilt
  obtain ⟨_, -, _, -, result, hcheck, _, -, rfl⟩ := hbuilt
  have hvalid := checkRotations_spec hcheck
  rw [← hcons] at hvalid
  have hhead := h.head
  simp only [verifyTreeHeadWithTimeline, verifyTreeHead, LogKeyTimeline.publicKeyAt, bind_eq_ok,
    require_eq_ok] at hhead
  obtain ⟨_, -, _, -, _, -, key, hkey, _, ⟨-, hid⟩, -⟩ := hhead
  rw [← hcons, hlast, keyAt_last before last _ fun r hr => (hvalid r (hlast ▸ hr)).2] at hkey
  -- The last rotation names the identity of its new key.
  have hidentity : ∀ rotation ∈ bundle.logKeyRotations,
      crates.validateLogKeyIdentity "new" rotation.newKeyId rotation.newPublicKey = .ok () ∧
        rotation.oldKeyId ≠ rotation.newKeyId := by
    intro rotation hr
    have hrotation := (hvalid rotation hr).1
    simp only [validateRotationIdentity, bind_eq_ok, require_eq_ok] at hrotation
    obtain ⟨_, -, _, -, _, -, _, -, _, hnew, hne⟩ := hrotation
    exact ⟨hnew, hne⟩
  refine ⟨?_, fun rotation hr => (hidentity rotation hr).2⟩
  have hnew := (hidentity last (by simp [hlast])).1
  simp only [validateLogKeyIdentity, bind_eq_ok, require_eq_ok] at hnew
  obtain ⟨key', hkey', -, hid'⟩ := hnew
  rw [hkey] at hkey'
  cases hkey'
  rw [← hid, hid']

/-- An accepted bundle whose rotations never return is not signed by a key they lead away from. -/
theorem Accepted.keyId_not_mem {bundle : TransparencyBundle} {cached : Option CachedTreeHead}
    {policy : TransparencyVerificationPolicy} {verified : VerifiedTransparency}
    {timeline : LogKeyTimeline} {history : HeadHistory}
    (h : crates.Accepted bundle cached policy verified timeline history)
    (hreturn : NoReturn bundle.logKeyRotations) : bundle.head.keyId ∉ retiredKeyIds bundle := by
  intro hmem
  obtain ⟨rotation, hr, heq⟩ := List.mem_map.1 hmem
  rcases List.eq_nil_or_concat bundle.logKeyRotations with hnil | ⟨before, last, hconcat⟩
  · rw [hnil] at hr
    cases hr
  rw [List.concat_eq_append] at hconcat
  obtain ⟨hid, hne⟩ := h.keyId hconcat
  rw [NoReturn, hconcat, List.pairwise_append] at hreturn
  have hr' := hr
  rw [hconcat] at hr'
  rcases List.mem_append.1 hr' with hbefore | hlast
  · exact hreturn.2.2 rotation hbefore last (by simp) (hid.symm.trans heq.symm)
  · rw [List.mem_singleton.1 hlast] at heq hr
    exact hne last hr (heq.trans hid)

theorem accepted_of_mem {cached final : Option CachedTreeHead} {requests : List Request}
    (hrun : crates.clientRun cached requests = .ok final) : ∀ request ∈ requests,
      ∃ before timeline history verified,
        crates.Accepted request.bundle before request.policy verified timeline history := by
  induction requests generalizing cached with
  | nil => simp
  | cons request rest ih =>
    obtain ⟨haccepted, hrest⟩ := clientRun_cons hrun
    intro r hr
    rcases List.mem_cons.1 hr with rfl | hr
    · exact ⟨cached, haccepted⟩
    · exact ih hrest r hr

/-- **Rotation is kept by those who repeat it.** In a run of accepted bundles, each of which leads
away again from every key that an earlier one led away from, and none of which leads back to such a
key, no later head is signed by a key that an earlier bundle led away from. -/
theorem clientRun_retired (cached final : Option CachedTreeHead) (requests : List Request)
    (hrun : crates.clientRun cached requests = .ok final)
    (hrepeat : requests.Pairwise fun r s => retiredKeyIds r.bundle ⊆ retiredKeyIds s.bundle)
    (hreturn : ∀ request ∈ requests, NoReturn request.bundle.logKeyRotations) :
    requests.Pairwise fun r s => s.bundle.head.keyId ∉ retiredKeyIds r.bundle := by
  refine hrepeat.imp_of_mem fun {r s} _ hs hsub hmem => ?_
  obtain ⟨before, timeline, history, verified, haccepted⟩ := accepted_of_mem hrun s hs
  exact haccepted.keyId_not_mem (hreturn s hs) (hsub hmem)

end Crates

/-! ## A rotation that is left out -/

namespace Sample

/-- The key that takes over from `logKey`. -/
def newLogKey : String := "ed4928c628d1c2c6eae90338905995612959273a5c63f93636c14614ac8737d1"

def releasedSecond : TransparencyEvent := ⟨1, released.kind⟩

def revokedThird : TransparencyEvent := ⟨2, revoked.kind⟩

/-- The leaves over these two events. -/
def secondLeaf : Hash :=
  .ofHex "458d6277fa2104c333076994f30356b4ca4788ecf61ab1adf8c69f471e67f05c" (by decide)

/-- The leaf over the revocation. -/
def thirdLeaf : Hash :=
  .ofHex "f1888578f8b951c73eab3a984bdf1f603e2f955cd7c441f8c5b2f1aef7e5d230" (by decide)

/-- The root over registration and release. -/
def rootOfTwo : Hash :=
  .ofHex "7c9fa6f34637cfbc12418745df4b205740b69dc0f69d617f374d42b51fc1d83c" (by decide)

/-- The root over all three. -/
def rootOfThree : Hash :=
  .ofHex "52cc6e7a8d4e856362e0650cb88ea9aa6c5f06bac14dfababefa4086c6c3f9c2" (by decide)

/-- The rotation to the new key, from size two on. -/
def rotation : LogKeyRotation where
  schema := 1
  logId := "https://registry.example/transparency"
  activateAtTreeSize := 2
  oldKeyId := "sha256:6a3803d5f059902a1c6dafbc9ba4729212f7caac08634cc3ae76b27529f03827"
  oldPublicKey := logKey
  newKeyId := "sha256:b62e867fa2f33afe62d5d6b1642e1621d543307846b2a57b897e710919b76709"
  newPublicKey := newLogKey
  oldSignature := "f45d1728fa70c63c21bc5f150a6e0a9bc2555fa02e1f5167b10adae66997b470" ++
    "966674a1ae2f207e43256c6dcc5f14dbb2c1c651cfda6c43d0be2c96b12eff0e"
  newSignature := "9d157fdffbf87106f868331791624306fa98e53f1b2326cec6121085febfbf4c" ++
    "d66d99ed33d7d7381009044fadda3994e935719a099c4336ec4f49aab6def501"

/-- The head of size two, signed by the new key. -/
def rotatedHead : SignedTreeHead where
  schema := 2
  logId := "https://registry.example/transparency"
  treeSize := 2
  rootHash := "sha256:7c9fa6f34637cfbc12418745df4b205740b69dc0f69d617f374d42b51fc1d83c"
  issuedAtUnixSeconds := 1000
  previousTreeSize := none
  previousRootHash := none
  algorithm := "ed25519"
  keyId := "sha256:b62e867fa2f33afe62d5d6b1642e1621d543307846b2a57b897e710919b76709"
  signature := "19fa61c6c688cf0e6755c272942f4bc532bdea7fb6f4ef2c17d1703b9501de6d" ++
    "25658f94356c6fc0c1c78c323eedff2456bc5adc275551259a77082480e30706"

/-- A head of size three, signed by the retired key, that names the head of size two. -/
def retiredHead : SignedTreeHead where
  schema := 2
  logId := "https://registry.example/transparency"
  treeSize := 3
  rootHash := "sha256:52cc6e7a8d4e856362e0650cb88ea9aa6c5f06bac14dfababefa4086c6c3f9c2"
  issuedAtUnixSeconds := 1100
  previousTreeSize := some 2
  previousRootHash :=
    some "sha256:7c9fa6f34637cfbc12418745df4b205740b69dc0f69d617f374d42b51fc1d83c"
  algorithm := "ed25519"
  keyId := "sha256:6a3803d5f059902a1c6dafbc9ba4729212f7caac08634cc3ae76b27529f03827"
  signature := "c20394bacc32b31ebc29b0067ada28e09c9ccd802b0777fb519228214df15aa7" ++
    "9510f636fcad9109182e1bf225ae8175d43a807992ee6c18bb773f6dcfd4ce00"

/-- Crates that know the two heads, the rotation and the release. -/
def rotationCrates : Crates := .tabulated
  (hashes ++ moreHashes ++ [
    (decodePairs (bytes newLogKey),
      .ofHex "b62e867fa2f33afe62d5d6b1642e1621d543307846b2a57b897e710919b76709" (by decide)),
    (Crates.leafInput releasedSecond.message, secondLeaf),
    (Crates.leafInput revokedThird.message, thirdLeaf),
    (Crates.nodeInput firstLeaf secondLeaf, rootOfTwo),
    (Crates.nodeInput rootOfTwo thirdLeaf, rootOfThree)])
  [signed publisherKey envelope.signature.signature (Crates.subjectMessage subject),
    signed logKey rotation.oldSignature rotation.message,
    signed newLogKey rotation.newSignature rotation.message,
    signed newLogKey rotatedHead.signature rotatedHead.message,
    signed logKey retiredHead.signature retiredHead.message] ["1.2.0"]

/-- A request for the release, under a policy that pins the first key. -/
def request (bundle : TransparencyBundle) : Request where
  bundle := bundle
  envelope := envelope
  policy := policy
  offline := false
  now := 1150

/-- The bundle of the log after the rotation. -/
def rotatedBundle : TransparencyBundle where
  head := rotatedHead
  logPublicKey := newLogKey
  logKeyRotations := [rotation]
  headHistory := []
  release := ⟨releasedSecond, ⟨1, 2,
    [⟨.left, "8524c7d66d4b2fa45bb34566ab79e1e9f3a5fca78196876a1018795f395d3177"⟩]⟩⟩
  keyEvents := [⟨registered, ⟨0, 2,
    [⟨.right, "458d6277fa2104c333076994f30356b4ca4788ecf61ab1adf8c69f471e67f05c"⟩]⟩⟩]

/-- The bundle that an owner of the retired key makes: without the rotation. -/
def retiredBundle : TransparencyBundle where
  head := retiredHead
  logPublicKey := logKey
  logKeyRotations := []
  headHistory := []
  release := ⟨releasedSecond, ⟨1, 3,
    [⟨.left, "8524c7d66d4b2fa45bb34566ab79e1e9f3a5fca78196876a1018795f395d3177"⟩,
      ⟨.right, "f1888578f8b951c73eab3a984bdf1f603e2f955cd7c441f8c5b2f1aef7e5d230"⟩]⟩⟩
  keyEvents := [⟨registered, ⟨0, 3,
    [⟨.right, "458d6277fa2104c333076994f30356b4ca4788ecf61ab1adf8c69f471e67f05c"⟩,
      ⟨.right, "f1888578f8b951c73eab3a984bdf1f603e2f955cd7c441f8c5b2f1aef7e5d230"⟩]⟩⟩]

end Sample

namespace Crates

theorem clientRun_rotated :
    Sample.rotationCrates.clientRun none
        [Sample.request Sample.rotatedBundle, Sample.request Sample.retiredBundle]
      = .ok (some Sample.retiredHead.cached) ∧
    Sample.rotationCrates.clientRun none
        [Sample.request Sample.rotatedBundle, Sample.request Sample.rotatedBundle]
      = .ok (some Sample.rotatedHead.cached) := by
  decide +kernel

/-- A client that pins one key accepts a head signed under the key it was rotated to, and then a
head signed by the retired key: the second bundle just leaves the rotation out. -/
theorem clientRun_rolledBack :
    ¬ ∀ (crates : Crates) (pinned : String) (requests : List Request) (final : Option CachedTreeHead),
      (∀ request ∈ requests, request.policy.trustedLogKeys = [pinned]) →
      crates.clientRun none requests = .ok final →
      requests.Pairwise fun r s => s.bundle.head.keyId ∉ retiredKeyIds r.bundle := by
  intro h
  have := h Sample.rotationCrates Sample.logKey
    [Sample.request Sample.rotatedBundle, Sample.request Sample.retiredBundle]
    (some Sample.retiredHead.cached) (by simp [Sample.request, Sample.policy])
    clientRun_rotated.1
  simp [Sample.request, retiredKeyIds, Sample.rotatedBundle, Sample.rotation, Sample.retiredBundle,
    Sample.retiredHead] at this

/-- A client that is given the rotated head twice. -/
theorem clientRun_retired_sample :
    [Sample.request Sample.rotatedBundle, Sample.request Sample.rotatedBundle].Pairwise
      fun r s => s.bundle.head.keyId ∉ retiredKeyIds r.bundle :=
  @clientRun_retired Sample.rotationCrates none (some Sample.rotatedHead.cached) _
    clientRun_rotated.2 (by simp) (by simp [NoReturn, Sample.request, Sample.rotatedBundle])

/-- The head signed by the retired key extends the rotated one. -/
theorem clientRun_heads_sample :
    [Sample.rotatedHead.cached, Sample.retiredHead.cached].Pairwise NoRollback ∧
      Sample.rotationCrates.Linked none
        [Sample.request Sample.rotatedBundle, Sample.request Sample.retiredBundle] :=
  @clientRun_heads Sample.rotationCrates none (some Sample.retiredHead.cached)
    [Sample.request Sample.rotatedBundle, Sample.request Sample.retiredBundle]
    clientRun_rotated.1

end Crates

end Nomo.SupplyChain
