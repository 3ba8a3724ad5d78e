import Nomo.Ir.Ownership

/-!
# Making a variable exclusive

A variable becomes exclusive when it takes over the only reference to a buffer: by its declaration,
by an assignment, or by an element store, which detaches the buffer if it is shared.  A store marked
`checkedUnique` skips the detachment; where the count is one the two stores are the same action
(`setElement_marked_spec`).
-/

namespace Nomo.Ir

open Nomo.Lib Nomo.Lib.RefCount

variable {Γ : List String} {X : String → Bool} {S : Nat → Prop} {L : Nat → Nat}

/-- The variables of `X` and one more. -/
def withName (X : String → Bool) (x : String) : String → Bool := fun y => X y || (y == x)

/-- The variables of `X` but one. -/
def without (X : String → Bool) (x : String) : String → Bool := fun y => X y && !(y == x)

@[simp] theorem without_self (X : String → Bool) (x : String) : without X x x = false := by
  simp [without]

theorem without_le (X : String → Bool) (x y : String) (h : without X x y = true) : X y = true := by
  simp only [without, Bool.and_eq_true] at h
  exact h.1

/-- A value that is the only reference to its buffer. -/
def Sole (v : Value) (m : Machine) : Prop := ∃ h, v = .array h ∧ m.heap.refs h = 1

theorem declare_sole_spec (x : String) (v : Value) (hx : X x = false)
    (hc : (x :: Γ).count x ≤ 1) :
    Agrees Bad (fun m => At Γ X S (tally v.handles + L) m ∧ Sole v m) (declare x v) (declare x v)
      fun _ => At (x :: Γ) (withName X x) S L := by
  refine Agrees.self fun m hm => ?_
  obtain ⟨hat, h, rfl, hr⟩ := hm
  have hd := hat.declare x fun h => by simp [hx] at h
  exact hd.gain x h (by simp [Frame.value?]) hr hc

theorem assignVariable_sole_spec (x : String) (v : Value) (hx : X x = false)
    (hc : Γ.count x ≤ 1) :
    Agrees Bad (fun m => At Γ X S (tally v.handles + L) m ∧ Sole v m) (assignVariable x v)
      (assignVariable x v) fun _ m => At Γ (withName X x) S L m ∧ x ∈ Γ := by
  refine Agrees.self fun m hm => ?_
  obtain ⟨hat, h, rfl, hr⟩ := hm
  unfold assignVariable
  cases hf : m.frame.value? x with
  | none => simp
  | some old =>
    have hmem : x ∈ Γ := hat.names ▸ Frame.mem_names_of_value? m.frame x old hf
    -- The new value is exclusive before the old one is given up.
    have hassigned : At Γ X S (tally old.handles + L)
        { m with frame := m.frame.assign x (.array h) } := by
      refine hat.assign x (.array h) old hx hf fun g => ?_
      simp only [Pi.add_apply, tally]
      omega
    have hgain := hassigned.gain x h (Frame.value?_assign m.frame x _ old hf) hr hc
    exact ⟨hgain.release old.handles, hmem⟩

/-- Changing an array variable in place by an action that leaves it with the only reference. -/
theorem updateArray_sole_spec {α : Type} {f₁ f₂ : Nat → Exec (Nat × α)} {B : α → Nat → Nat}
    (x : String) (hc : Γ.count x ≤ 1)
    (hf : ∀ h, Agrees Bad
      (fun m => (X x = true → m.heap.refs h = 1) ∧ At Γ (without X x) S (tally [h] + L) m)
      (f₁ h) (f₂ h) fun r => Exclusive Γ (without X x) S (B r.2) r.1) :
    Agrees Bad (At Γ X S L) (updateArray x f₁) (updateArray x f₂)
      fun a m => At Γ (withName X x) S (B a) m ∧ x ∈ Γ := by
  refine updateArray_rule x (I := fun h m => x ∈ Γ ∧ ((X x = true → m.heap.refs h = 1) ∧
      At Γ (without X x) S (tally [h] + L) m))
    (Q := fun r m => Exclusive Γ (without X x) S (B r.2) r.1 m ∧ x ∈ Γ)
    (fun m h hm hv => ⟨?_, ?_, ?_⟩)
    (fun h => Agrees.fact fun hx => (hf h).imp fun _ _ hm => ⟨hm, hx⟩) fun m r hm => ?_
  · exact hm.names ▸ Frame.mem_names_of_value? m.frame x _ hv
  · intro hx
    obtain ⟨b, hb, hr⟩ := hm.exclusive (x, .array h) (Frame.mem_of_value? m.frame x _ hv) hx
    cases hb
    exact hr
  · refine (hm.anti (without_le X x)).assign x .unit (.array h) (without_self X x) hv fun g => ?_
    simp [Value.handles, Value.unit, tally]
  obtain ⟨⟨hat, hr⟩, hx⟩ := hm
  obtain ⟨old, hold⟩ := Frame.value?_of_mem_names m.frame x (hat.names ▸ hx)
  have hassigned : At Γ (without X x) S (B r.2)
      { m with frame := m.frame.assign x (.array r.1) } := by
    refine hat.assign x (.array r.1) old (without_self X x) hold fun g => ?_
    simp only [Value.handles, Pi.add_apply, tally]
    omega
  refine ⟨(hassigned.gain x r.1 (Frame.value?_assign m.frame x _ old hold) hr hc).anti
    fun y hy => ?_, hx⟩
  by_cases hyx : y = x
  · simp [hyx]
  · simpa [withName, without, hyx] using hy

/-! ## Marked stores -/

/-- **A marked store of an exclusive buffer is a checked store.** -/
theorem setElement_marked_spec (monitor : Bool) (mode : ArrayMutationMode) (h i : Nat) (v : Value) :
    Agrees Bad (fun m => (mode = .checkedUnique → m.heap.refs h = 1) ∧
        At Γ X S (tally [h] + (tally v.handles + L)) m)
      (setElement monitor mode h i v) (setElement false .checkedCow h i v)
      (Exclusive Γ X S L) := by
  have hcow := setElement_cow_spec (Γ := Γ) (X := X) (S := S) (L := L) monitor h i v
  cases mode with
  | checkedCow => exact hcow.strengthen fun m hm => hm.2
  | checkedUnique =>
    refine ⟨fun m hm => ?_, fun m e m' hm => hcow.safe m e m' hm.2,
      fun m a m' hm => hcow.post m a m' hm.2⟩
    have hr := hm.1 rfl
    have hdetach : m.heap.detach Value.handles h = (h, m.heap) := by simp [Heap.detach, hr]
    simp [setElement, hr, hdetach]

theorem storePath_marked_spec (monitor : Bool) (mode : ArrayMutationMode) (is : List Nat) (h : Nat)
    (v : Value) (hmode : mode = .checkedUnique → is.length = 1) :
    Agrees Bad (fun m => (mode = .checkedUnique → m.heap.refs h = 1) ∧
        At Γ X S (tally [h] + (tally v.handles + L)) m)
      (storePath monitor mode is h v) (storePath false .checkedCow is h v)
      (Exclusive Γ X S L) := by
  cases mode with
  | checkedCow => exact (storePath_cow_spec monitor is h v).strengthen fun m hm => hm.2
  | checkedUnique =>
    obtain ⟨i, rfl⟩ := List.length_eq_one_iff.1 (hmode rfl)
    exact setElement_marked_spec monitor .checkedUnique h i v

end Nomo.Ir
