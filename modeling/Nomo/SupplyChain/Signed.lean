import Nomo.SupplyChain.Log

/-!
# What a signature says

Four kinds of values are turned into canonical bytes: subjects of releases, events of the log, tree
heads and rotations of the log key.  Their bytes start with different domains, and go on in framed
fields; so the bytes determine the kind of the value and every field of it, the signatures that a head
and a rotation carry excepted.
-/

namespace Nomo.SupplyChain

open Nomo.Lib.Checked

/-- A value with canonical bytes. -/
inductive Signable where
  | release (subject : ReleaseSubject)
  | event (entry : TransparencyEvent)
  | treeHead (head : SignedTreeHead)
  | rotation (change : LogKeyRotation)
deriving DecidableEq

namespace Signable

/-- The message of `canonical_bytes`. -/
def message : Signable → List UInt8
  | .release subject => Crates.subjectMessage subject
  | .event entry => entry.message
  | .treeHead head => head.message
  | .rotation change => change.message

/-- The value without the signatures that it carries. -/
def unsigned : Signable → Signable
  | .release subject => .release subject
  | .event entry => .event entry
  | .treeHead head => .treeHead { head with signature := "" }
  | .rotation change => .rotation { change with oldSignature := "", newSignature := "" }

/-- The byte by which the domains differ: the nineteenth. -/
def tag : Signable → UInt8
  | .release _ => 111
  | .event _ => 101
  | .treeHead _ => 104
  | .rotation _ => 108

end Signable

/-- `canonical_bytes` of the four kinds. -/
def Crates.canonicalBytes (crates : Crates) : Signable → Except String (List UInt8)
  | .release subject => crates.subjectCanonicalBytes subject
  | .event entry => crates.eventCanonicalBytes entry
  | .treeHead head => head.canonicalBytes
  | .rotation change => crates.rotationCanonicalBytes change

/-! ## Domains -/

theorem domain_bytes :
    (bytes "nomo-release-envelope-v1\n")[18]? = some 111 ∧
    (bytes "nomo-transparency-event-v1\n")[18]? = some 101 ∧
    (bytes "nomo-transparency-head-v2\n")[18]? = some 104 ∧
    (bytes "nomo-transparency-log-key-rotation-v1\n")[18]? = some 108 := by
  decide +kernel

/-- **The four kinds have domains of their own.** -/
theorem message_tag (value : Signable) : value.message[18]? = some value.tag := by
  have hfront : ∀ {front rest : List UInt8} {b : UInt8}, front[18]? = some b →
      (front ++ rest)[18]? = some b := fun h =>
    (List.getElem?_append_left (List.getElem?_eq_some_iff.1 h).1).trans h
  obtain ⟨hrelease, hevent, hhead, hrotation⟩ := domain_bytes
  cases value with
  | release subject =>
    simp only [Signable.message, Crates.subjectMessage, List.append_assoc]
    exact hfront hrelease
  | event entry => exact hfront hevent
  | treeHead head =>
    simp only [Signable.message, SignedTreeHead.message, List.append_assoc]
    exact hfront hhead
  | rotation change =>
    simp only [Signable.message, LogKeyRotation.message, List.append_assoc]
    exact hfront hrotation

/-! ## Fields -/

theorem getD_inj {x y : Option String} (hx : ∀ s ∈ x, s ≠ "") (hy : ∀ s ∈ y, s ≠ "")
    (h : x.getD "" = y.getD "") : x = y := by
  cases x with
  | none =>
    cases y with
    | none => rfl
    | some t => exact absurd h.symm (hy t rfl)
  | some s =>
    cases y with
    | none => exact absurd h (hx s rfl)
    | some t => exact congrArg some h

theorem toString_inj {m n : Nat} (h : toString m = toString n) : m = n := Nat.repr_inj.1 h

theorem elim_toString_inj {x y : Option Nat} (h : x.elim "" toString = y.elim "" toString) : x = y := by
  have hne : ∀ n : Nat, toString n ≠ "" := fun n hn =>
    absurd (congrArg String.length hn) (by simp)
  cases x with
  | none =>
    cases y with
    | none => rfl
    | some n => exact absurd h.symm (hne n)
  | some m =>
    cases y with
    | none => exact absurd h (hne m)
    | some n => exact congrArg some (toString_inj h)

theorem subject_checked {crates : Crates} {subject : ReleaseSubject} {u : Unit}
    (h : crates.validateSubject subject = .ok u) :
    subject.schema = releaseEnvelopeSchema ∧ ∀ digest ∈ subject.provenanceDigest, digest ≠ "" := by
  simp only [Crates.validateSubject, bind_eq_ok, require_eq_ok] at h
  obtain ⟨-, hschema, -, -, -, -, -, -, -, -, h⟩ := h
  refine ⟨hschema, fun digest hdigest => ?_⟩
  rw [show subject.provenanceDigest = some digest from hdigest] at h
  exact ne_empty_of_validateSha256 h

/-! ## Values -/

theorem subjectMessage_inj {s t : ReleaseSubject}
    (hs : s.schema = releaseEnvelopeSchema ∧ ∀ digest ∈ s.provenanceDigest, digest ≠ "")
    (ht : t.schema = releaseEnvelopeSchema ∧ ∀ digest ∈ t.provenanceDigest, digest ≠ "")
    (h : Crates.subjectMessage s = Crates.subjectMessage t) : s = t := by
  simp only [Crates.subjectMessage, List.append_assoc, List.append_cancel_left_eq,
    canonicalField_append_inj, canonicalField_inj] at h
  obtain ⟨hpackage, hversion, harchive, hmanifest, h⟩ := h
  have hprovenance := getD_inj hs.2 ht.2 h
  have hschema := hs.1.trans ht.1.symm
  cases s
  cases t
  simp_all only

theorem headMessage_inj {a b : SignedTreeHead} (ha : ∀ root ∈ a.previousRootHash, root ≠ "")
    (hb : ∀ root ∈ b.previousRootHash, root ≠ "") (h : a.message = b.message) :
    { a with signature := "" } = { b with signature := "" } := by
  simp only [SignedTreeHead.message, List.append_assoc, List.append_cancel_left_eq,
    canonicalField_append_inj, canonicalField_inj] at h
  obtain ⟨hschema, hid, hsize, hroot, hissued, hpreviousSize, hpreviousRoot, halgorithm, hkey⟩ := h
  rw [SignedTreeHead.mk.injEq]
  exact ⟨toString_inj hschema, hid, toString_inj hsize, hroot, toString_inj hissued,
    elim_toString_inj hpreviousSize, getD_inj ha hb hpreviousRoot, halgorithm, hkey, rfl⟩

theorem rotationMessage_inj {a b : LogKeyRotation} (h : a.message = b.message) :
    { a with oldSignature := "", newSignature := "" }
      = { b with oldSignature := "", newSignature := "" } := by
  simp only [LogKeyRotation.message, List.append_assoc, List.append_cancel_left_eq,
    canonicalField_append_inj, canonicalField_inj] at h
  obtain ⟨hschema, hid, hsize, holdId, holdKey, hnewId, hnewKey⟩ := h
  rw [LogKeyRotation.mk.injEq]
  exact ⟨toString_inj hschema, hid, toString_inj hsize, holdId, holdKey, hnewId, hnewKey, rfl, rfl⟩

/-- **Canonical bytes are unambiguous.** Two values with the same canonical bytes are of one kind and
agree in every field, up to the signatures that they carry. -/
theorem canonicalBytes_unambiguous {crates : Crates} {x y : Signable} {message : List UInt8}
    (hx : crates.canonicalBytes x = .ok message) (hy : crates.canonicalBytes y = .ok message) :
    x.unsigned = y.unsigned := by
  have hmessage : ∀ {value}, crates.canonicalBytes value = .ok message → value.message = message := by
    intro value h
    cases value <;>
    · obtain ⟨_, -, h⟩ := bind_eq_ok.1 h
      exact pure_eq_ok.1 h
  have heq : x.message = y.message := (hmessage hx).trans (hmessage hy).symm
  have htag : x.tag = y.tag :=
    Option.some.inj ((message_tag x).symm.trans ((congrArg (·[18]?) heq).trans (message_tag y)))
  -- values of different kinds have different tags
  cases x <;> cases y <;> first | (simp [Signable.tag] at htag; done) | skip
  case release.release s t =>
    obtain ⟨_, hs, -⟩ := bind_eq_ok.1 hx
    obtain ⟨_, ht, -⟩ := bind_eq_ok.1 hy
    exact congrArg Signable.release
      (subjectMessage_inj (subject_checked hs) (subject_checked ht) heq)
  case event.event e f => exact congrArg Signable.event (eventMessage_inj heq)
  case treeHead.treeHead a b =>
    obtain ⟨_, ha, -⟩ := bind_eq_ok.1 hx
    obtain ⟨_, hb, -⟩ := bind_eq_ok.1 hy
    exact congrArg Signable.treeHead
      (headMessage_inj (SignedTreeHead.validate_spec ha).1 (SignedTreeHead.validate_spec hb).1 heq)
  case rotation.rotation a b => exact congrArg Signable.rotation (rotationMessage_inj heq)

namespace Sample

/-- The head of the log with a signature that nobody made. -/
def forged : SignedTreeHead := { head with signature := "00" }

theorem canonicalBytes_head :
    logCrates.canonicalBytes (.treeHead head) = .ok head.message ∧
    logCrates.canonicalBytes (.treeHead forged) = .ok head.message := by
  decide +kernel

end Sample

/-- The bytes of a head do not change with its signature, and nothing else of it can change. -/
theorem canonicalBytes_unambiguous_head :
    (Signable.treeHead Sample.head).unsigned = (Signable.treeHead Sample.forged).unsigned :=
  canonicalBytes_unambiguous Sample.canonicalBytes_head.1 Sample.canonicalBytes_head.2

/-- The signature itself is not among the bytes it signs. -/
theorem not_canonicalBytes_injective :
    ¬ ∀ (crates : Crates) (x y : Signable) (message : List UInt8),
      crates.canonicalBytes x = .ok message → crates.canonicalBytes y = .ok message → x = y := by
  intro h
  have heq := h Sample.logCrates _ _ _ Sample.canonicalBytes_head.1 Sample.canonicalBytes_head.2
  exact absurd heq (by decide)

end Nomo.SupplyChain
