import Nomo.SupplyChain.Transparency

/-!
# What a bundle says about revocation

Every event in an accepted bundle is an event of the log, but the log has events that are not in the
bundle.  A revocation that the bundle leaves out is never missed: nothing in a bundle stands for the
*absence* of an event.  So an accepted release was signed with a key that was registered and not
revoked exactly if the bundle has the revocations that matter (`active_iff`).
-/

namespace Nomo.SupplyChain

open Nomo.Lib.Checked

/-- An event that registers a key of a package. -/
def Registers (package keyId : String) (event : TransparencyEvent) : Prop :=
  ∃ publicKey, event.kind = .keyRegistered package keyId publicKey

/-- An event that revokes a key of a package. -/
def Revokes (package keyId : String) (event : TransparencyEvent) : Prop :=
  event.kind = .keyRevoked package keyId

theorem not_revokes_of_registers {package keyId : String} {event : TransparencyEvent}
    (h : Registers package keyId event) : ¬ Revokes package keyId event := by
  obtain ⟨publicKey, h⟩ := h
  intro h'
  rw [Revokes, h] at h'
  cases h'

/-- Before position `sequence` of a list of events, a key was registered and not revoked since. -/
def ActiveBefore (events : List TransparencyEvent) (package keyId : String) (sequence : Nat) : Prop :=
  ∃ i, i < sequence ∧ (∃ event, events[i]? = some event ∧ Registers package keyId event) ∧
    ∀ j, i < j → j < sequence → ∀ event, events[j]? = some event → ¬ Revokes package keyId event

/-- A revocation before position `sequence` after which the key was not registered again. -/
def FinallyRevoked (events : List TransparencyEvent) (package keyId : String) (sequence j : Nat) :
    Prop :=
  j < sequence ∧ (∃ event, events[j]? = some event ∧ Revokes package keyId event) ∧
    ∀ k, j < k → k < sequence → ∀ event, events[k]? = some event → ¬ Registers package keyId event

/-! ## The replay -/

/-- A key that a replay ends with was registered by an event after which no event revokes it. -/
theorem foldl_replayEvent {package keyId publicKey : String} {events : List TransparencyEvent}
    {state : KeyState}
    (h : (events.foldl (replayEvent package) state).lookup keyId = some (some publicKey)) :
    state.lookup keyId = some (some publicKey) ∧
        (∀ event ∈ events, ¬ Revokes package keyId event) ∨
      ∃ before event after, events = before ++ event :: after ∧ Registers package keyId event ∧
        ∀ event ∈ after, ¬ Revokes package keyId event := by
  induction events generalizing state with
  | nil => exact Or.inl ⟨h, by simp⟩
  | cons event events ih =>
    rcases ih h with ⟨hstate, hnone⟩ | ⟨before, e, after, rfl, hreg, hnone⟩
    · -- The last word on the key is this event's, or an earlier one's.
      by_cases hreg : Registers package keyId event
      · exact Or.inr ⟨[], event, events, rfl, hreg, hnone⟩
      left
      by_cases hrev : Revokes package keyId event
      · rw [replayEvent, hrev] at hstate
        simp at hstate
      refine ⟨?_, fun e he => ?_⟩
      · unfold replayEvent at hstate
        cases hkind : event.kind with
        | keyRegistered p k publicKey' =>
          simp only [hkind] at hstate
          split_ifs at hstate with hp
          · rw [List.lookup_cons] at hstate
            have hne : (keyId == k) = false := by
              rw [beq_eq_false_iff_ne]
              rintro rfl
              exact hreg ⟨publicKey', by rw [hkind, hp]⟩
            simpa [hne] using hstate
          · exact hstate
        | keyRevoked p k =>
          simp only [hkind] at hstate
          split_ifs at hstate with hp
          · rw [List.lookup_cons] at hstate
            have hne : (keyId == k) = false := by
              rw [beq_eq_false_iff_ne]
              rintro rfl
              exact hrev (by rw [Revokes, hkind, hp])
            simpa [hne] using hstate
          · exact hstate
        | release => simpa only [hkind] using hstate
      · rcases List.mem_cons.1 he with rfl | he
        · exact hrev
        · exact hnone e he
    · exact Or.inr ⟨event :: before, e, after, rfl, hreg, hnone⟩

/-- **The replay of a bundle**: a key that it ends with was registered by one of the bundle's
events, and no later event of the bundle revokes it. -/
theorem replayKeyEvents_spec {package keyId publicKey : String} {sequence : Nat}
    {keyEvents : List LogInclusion}
    (h : (replayKeyEvents package sequence keyEvents).lookup keyId = some (some publicKey)) :
    ∃ inclusion ∈ keyEvents, inclusion.event.sequence < sequence ∧
      Registers package keyId inclusion.event ∧
      ∀ other ∈ keyEvents, inclusion.event.sequence < other.event.sequence →
        other.event.sequence < sequence → ¬ Revokes package keyId other.event := by
  rcases foldl_replayEvent h with ⟨hnil, -⟩ | ⟨before, event, after, heq, hreg, hnone⟩
  · cases hnil
  have hmem (e) : e ∈ before ++ event :: after ↔
      (∃ inclusion ∈ keyEvents, inclusion.event = e) ∧ e.sequence < sequence := by
    rw [← heq, List.mem_filter, List.mem_insertionSort, List.mem_map, decide_eq_true_eq]
  obtain ⟨⟨inclusion, hin, rfl⟩, hlt⟩ := (hmem event).1 (by simp)
  refine ⟨inclusion, hin, hlt, hreg, fun other ho hafter hbefore => ?_⟩
  have hsorted : (before ++ inclusion.event :: after).Pairwise
      fun a b => a.sequence ≤ b.sequence := by
    rw [← heq]
    exact List.Pairwise.filter _ (List.pairwise_insertionSort _ _)
  rcases List.mem_append.1 ((hmem other.event).2 ⟨⟨other, ho, rfl⟩, hbefore⟩) with hb | ha
  · have := (List.pairwise_append.1 hsorted).2.2 _ hb inclusion.event (by simp)
    omega
  · rcases List.mem_cons.1 ha with heq' | ha
    · rw [heq'] at hafter
      omega
    · exact hnone _ ha

/-! ## Accepted bundles -/

namespace Crates

variable {crates : Crates}

/-- **When an accepted release's key was active.** In the complete log before the release, its key
was registered and not revoked if and only if the bundle has every revocation of the key that was
final by then. -/
theorem active_iff (log : crates.TransparencyLog) (bundle : TransparencyBundle)
    (envelope : SignedReleaseEnvelope) (cachedHead : Option CachedTreeHead)
    (policy : TransparencyVerificationPolicy) (offline : Bool) (now : Nat)
    (verified : VerifiedTransparency) (hhead : log.Heads bundle.head)
    (hfree : crates.CollisionFree
      (log.inputs ++ (bundle.release :: bundle.keyEvents).flatMap crates.inclusionInputs))
    (hverify : crates.verifyTransparencyBundleWithPolicy bundle envelope cachedHead policy offline
      now = .ok verified) :
    ∃ package version digest keyId,
      bundle.release.event.kind = .release package version digest keyId ∧
      (ActiveBefore log.events package keyId bundle.release.event.sequence ↔
        ∀ j, FinallyRevoked log.events package keyId bundle.release.event.sequence j →
          ∃ inclusion ∈ bundle.keyEvents, inclusion.event.sequence = j) := by
  obtain ⟨timeline, history, haccepted⟩ := accepted_of_verify hverify
  obtain ⟨package, version, digest, keyId, publicKey, hkind, hlookup⟩ := haccepted.active
  refine ⟨package, version, digest, keyId, hkind, ?_⟩
  -- The bundle's events are the log's.
  have hlog : ∀ inclusion ∈ bundle.keyEvents,
      log.events[inclusion.event.sequence]? = some inclusion.event := by
    intro inclusion hin
    have hverified := haccepted.keyEvents inclusion hin
    have hsound := verifyLogInclusion_sound log inclusion bundle.head hhead
      (fun x hx y hy => hfree x (by
        rcases List.mem_append.1 hx with hx | hx
        · exact List.mem_append_left _ hx
        · exact List.mem_append_right _
            (List.mem_flatMap.2 ⟨inclusion, List.mem_cons_of_mem _ hin, hx⟩)) y (by
        rcases List.mem_append.1 hy with hy | hy
        · exact List.mem_append_left _ hy
        · exact List.mem_append_right _
            (List.mem_flatMap.2 ⟨inclusion, List.mem_cons_of_mem _ hin, hy⟩))) hverified
    simp only [verifyLogInclusion, bind_eq_ok, require_eq_ok] at hverified
    obtain ⟨_, ⟨-, -, hindex⟩, -⟩ := hverified
    rw [← hindex]
    exact hsound
  obtain ⟨inclusion, hin, hlt, hreg, hlast⟩ := replayKeyEvents_spec hlookup
  constructor
  · -- A final revocation and a registration that is not revoked exclude each other.
    rintro ⟨i, hi, ⟨event, hevent, hregisters⟩, hnone⟩ j ⟨hj, ⟨event', hevent', hrevokes⟩, hfinal⟩
    rcases Nat.lt_trichotomy i j with hij | rfl | hij
    · exact absurd hrevokes (hnone j hij hj event' hevent')
    · rw [hevent] at hevent'
      cases hevent'
      exact absurd hrevokes (not_revokes_of_registers hregisters)
    · exact absurd hregisters (hfinal i hij hi event hevent)
  -- Otherwise a revocation after the last registration is final, and the bundle lacks it.
  intro hcomplete
  let P : Nat → Prop := fun i => i < bundle.release.event.sequence ∧
    ∃ event, log.events[i]? = some event ∧ Registers package keyId event
  have hbound (i) (hi : P i) : i ≤ bundle.release.event.sequence := Nat.le_of_lt hi.1
  classical
  have hsome : P inclusion.event.sequence := ⟨hlt, inclusion.event, hlog _ hin, hreg⟩
  have hspec : P (Nat.findGreatest P bundle.release.event.sequence) :=
    Nat.findGreatest_spec (hbound _ hsome) hsome
  have hmax (i) (hi : P i) : i ≤ Nat.findGreatest P bundle.release.event.sequence := Nat.le_findGreatest (hbound i hi) hi
  refine ⟨_, hspec.1, hspec.2, fun j hij hj event hevent hrevokes => ?_⟩
  -- The last revocation is final.
  let Q : Nat → Prop := fun i => i < bundle.release.event.sequence ∧
    ∃ event, log.events[i]? = some event ∧ Revokes package keyId event
  have hj' : Q j := ⟨hj, event, hevent, hrevokes⟩
  obtain ⟨other, ho, hsequence⟩ := hcomplete j ⟨hj, ⟨event, hevent, hrevokes⟩,
    fun k hjk hk e he hre => by
      have := hmax k ⟨hk, e, he, hre⟩
      omega⟩
  have hother : other.event = event := by
    have := hlog other ho
    rw [hsequence, hevent] at this
    exact (Option.some_inj.1 this).symm
  have hle := hmax _ hsome
  exact hlast other ho (by omega) (by omega) (hother ▸ hrevokes)

end Crates

/-! ## A revocation that is left out -/

namespace Sample

theorem checkEvents_signedLog : crates.checkEvents 0 [registered, revoked, released] = .ok () := by
  decide +kernel

/-- The log of three events, with its head signed. -/
def signedLog : crates.TransparencyLog where
  events := [registered, revoked, released]
  nonempty := log.nonempty
  sequence := log.sequence
  valid := (crates.checkEvents_spec checkEvents_signedLog).2

/-- The head has the root of the log, no hash collides, and the bundle with the registration only is
accepted. -/
theorem verify_omitted :
    signedLog.rootHash = .ok head.rootHash ∧
    crates.CollisionFree
      (signedLog.inputs ++ [release, registration].flatMap crates.inclusionInputs) ∧
    crates.verifyTransparencyBundleWithPolicy (bundle [registration]) envelope none policy false 1100
      = .ok ⟨⟨3, head.rootHash, 1000, head.keyId⟩, ⟨1100, head⟩⟩ := by
  decide +kernel

theorem signedLog_heads : signedLog.Heads head where
  treeSize := rfl
  rootHash := verify_omitted.1

end Sample

namespace Crates

/-- A bundle that leaves the revocation of the release's key out is accepted, although the log it
is over revokes the key before the release. -/
theorem active_of_omitted :
    ¬ ∀ (crates : Crates) (log : crates.TransparencyLog) (bundle : TransparencyBundle)
      (envelope : SignedReleaseEnvelope) (policy : TransparencyVerificationPolicy) (now : Nat)
      (verified : VerifiedTransparency), log.Heads bundle.head →
      crates.CollisionFree
        (log.inputs ++ (bundle.release :: bundle.keyEvents).flatMap crates.inclusionInputs) →
      crates.verifyTransparencyBundleWithPolicy bundle envelope none policy false now
        = .ok verified →
      ActiveBefore log.events envelope.subject.package envelope.signature.keyId
        bundle.release.event.sequence := by
  intro h
  obtain ⟨i, hi, ⟨event, hevent, publicKey, hkind⟩, hnone⟩ :=
    h Sample.crates Sample.signedLog (Sample.bundle [Sample.registration]) Sample.envelope
      Sample.policy 1100 _ Sample.signedLog_heads Sample.verify_omitted.2.1
        Sample.verify_omitted.2.2
  have hi : i < 2 := hi
  obtain rfl | rfl : i = 0 ∨ i = 1 := by omega
  · exact hnone 1 (by omega) (by decide) Sample.revoked rfl rfl
  · obtain rfl : Sample.revoked = event := Option.some_inj.1 hevent
    cases hkind

/-- What the theorem says of that bundle: it lacks the revocation. -/
theorem active_iff_omitted : ∃ package version digest keyId,
    Sample.released.kind = .release package version digest keyId ∧
    (ActiveBefore Sample.signedLog.events package keyId 2 ↔
      ∀ j, FinallyRevoked Sample.signedLog.events package keyId 2 j →
        ∃ inclusion ∈ [Sample.registration], inclusion.event.sequence = j) :=
  active_iff Sample.signedLog (Sample.bundle [Sample.registration]) Sample.envelope none
    Sample.policy false 1100 _ Sample.signedLog_heads Sample.verify_omitted.2.1
    Sample.verify_omitted.2.2

end Crates

end Nomo.SupplyChain
