import Nomo.Ir.Interpreter
import Nomo.Lib.Agrees

/-!
# Ownership in a run

`At Γ X S L m` is the assertion every step of a run keeps: the variables in scope are `Γ`; the
reference counts cover what the variables, the constants, the values kept outside and `L` (the
values being computed, and everything the callers hold) refer to; the buffers of `S` are set apart
by callers; and each variable in `X` is an array whose buffer has no other reference.

One lemma for each action of the machine says how it moves references.  An action that touches only
variables outside `X` keeps the variables in `X` exclusive (`At.step`).
-/

namespace Nomo.Ir

open Nomo.Lib Nomo.Lib.RefCount

variable {Γ : List String} {X : String → Bool} {S : Nat → Prop} {L : Nat → Nat} {m : Machine}

namespace Frame

/-- The variables in `X`. -/
def part (X : String → Bool) (frame : Frame) : Frame := frame.filter fun e => X e.1

/-- The variables outside `X`. -/
def rest (X : String → Bool) (frame : Frame) : Frame := frame.filter fun e => !X e.1

section

-- The equations of these definitions are generated once, before the proofs that need them.
attribute [local simp] Value.handles handlesAll Value.take Value.put instantiate instantiateAll
  Frame.assign splitVariant payloadField Value.asBool Value.asIndex Value.asArray

end

theorem tally_split (X : String → Bool) (frame : Frame) :
    tally frame.handles = tally (frame.rest X).handles + tally (frame.part X).handles := by
  induction frame with
  | nil => rfl
  | cons e frame ih =>
    have hcons (e : String × Value) (f : Frame) :
        tally (Frame.handles (e :: f)) = tally e.2.handles + tally (Frame.handles f) := by
      simp [Frame.handles]
    rw [hcons, ih]
    funext g
    cases hx : X e.1 <;>
      simp [part, rest, hx, hcons] <;> omega

theorem tally_cons (name : String) (v : Value) (frame : Frame) :
    tally (Frame.handles ((name, v) :: frame)) = tally v.handles + tally frame.handles := by
  simp [Frame.handles]

theorem tally_append (f k : Frame) :
    tally (Frame.handles (f ++ k)) = tally (Frame.handles f) + tally (Frame.handles k) := by
  simp [Frame.handles]

@[simp] theorem names_assign (frame : Frame) (name : String) (v : Value) :
    (frame.assign name v).names = frame.names := by
  induction frame with
  | nil => rfl
  | cons e frame ih =>
    obtain ⟨n, w⟩ := e
    unfold assign
    split
    · rfl
    · simpa [names] using ih

theorem assign_of_none (frame : Frame) (x : String) (v : Value)
    (h : frame.value? x = none) : frame.assign x v = frame := by
  induction frame with
  | nil => rfl
  | cons e frame ih =>
    obtain ⟨hne, hrest⟩ := List.forall_mem_cons.1 (List.lookup_eq_none_iff.1 h)
    rw [assign, if_neg (by simpa using hne), ih (List.lookup_eq_none_iff.2 hrest)]

/-- A name finds the first variable that has it, and assigning overwrites that one. -/
theorem split_of_value? {frame : Frame} {name : String} {v : Value}
    (h : frame.value? name = some v) :
    ∃ before after, frame = before ++ (name, v) :: after ∧
      (∀ e ∈ before, name ≠ e.1) ∧ ∀ w, frame.assign name w = before ++ (name, w) :: after := by
  obtain ⟨before, after, rfl, hbefore⟩ := List.lookup_eq_some_iff.1 h
  simp only [bne_iff_ne] at hbefore
  refine ⟨before, after, rfl, hbefore, fun w => ?_⟩
  clear h
  induction before with
  | nil => simp [assign]
  | cons e before ih =>
    obtain ⟨hne, hbefore⟩ := List.forall_mem_cons.1 hbefore
    rw [List.cons_append, assign, if_neg hne, ih hbefore, List.cons_append]

/-- Assigning trades the references of the old value for those of the new. -/
theorem tally_assign (frame : Frame) (name : String) (v old : Value)
    (h : frame.value? name = some old) :
    tally (frame.assign name v).handles + tally old.handles
      = tally frame.handles + tally v.handles := by
  obtain ⟨before, after, rfl, -, hassign⟩ := split_of_value? h
  rw [hassign, tally_append, tally_append, tally_cons, tally_cons]
  abel

theorem part_assign (frame : Frame) (name : String) (v : Value) (hx : X name = false) :
    (frame.assign name v).part X = frame.part X := by
  cases h : frame.value? name with
  | none => rw [assign_of_none _ _ _ h]
  | some old =>
    obtain ⟨before, after, rfl, -, hassign⟩ := split_of_value? h
    simp [hassign, part, hx]

theorem rest_assign (frame : Frame) (name : String) (v old : Value) (hx : X name = false)
    (h : frame.value? name = some old) :
    tally ((frame.assign name v).rest X).handles + tally old.handles
      = tally (frame.rest X).handles + tally v.handles := by
  have h1 := tally_assign frame name v old h
  rw [tally_split X frame, tally_split X (frame.assign name v), part_assign frame name v hx] at h1
  funext g
  have := congrFun h1 g
  simp only [Pi.add_apply] at this ⊢
  omega

theorem value?_assign (frame : Frame) (name : String) (v old : Value)
    (h : frame.value? name = some old) : (frame.assign name v).value? name = some v := by
  obtain ⟨before, after, -, hbefore, hassign⟩ := split_of_value? h
  exact List.lookup_eq_some_iff.2 ⟨before, after, hassign v, by simpa using hbefore⟩

theorem mem_of_value? (frame : Frame) (name : String) (v : Value)
    (h : frame.value? name = some v) : (name, v) ∈ frame := by
  obtain ⟨before, after, rfl, -⟩ := split_of_value? h
  simp

theorem mem_names_of_value? (frame : Frame) (name : String) (v : Value)
    (h : frame.value? name = some v) : name ∈ frame.names :=
  List.mem_map_of_mem (mem_of_value? frame name v h)

theorem value?_of_mem_names (frame : Frame) (name : String) (h : name ∈ frame.names) :
    ∃ v, frame.value? name = some v := by
  obtain ⟨e, he, rfl⟩ := List.mem_map.1 h
  exact Option.isSome_iff_exists.1 (List.lookup_isSome_iff.2 ⟨e, he, beq_self_eq_true _⟩)

theorem tally_le_of_value? (frame : Frame) (name : String) (v : Value) (hx : X name = false)
    (h : frame.value? name = some v) (g : Nat) :
    tally v.handles g ≤ tally (frame.rest X).handles g := by
  have := congrFun (rest_assign frame name .unit v hx h) g
  simp only [Pi.add_apply, Value.handles_unit, tally_nil, Pi.zero_apply] at this
  omega

end Frame

/-- The references of constants and of values kept outside the program. -/
def Machine.roots (m : Machine) : Nat → Nat :=
  tally (Frame.handles m.globals) + tally (handlesAll m.kept)

/-- The assertion kept by a run. -/
structure At (Γ : List String) (X : String → Bool) (S : Nat → Prop) (L : Nat → Nat)
    (m : Machine) : Prop where
  names : m.frame.names = Γ
  owned : Owned Value.handles m.heap S (tally m.frame.handles + m.roots + L)
  exclusive : ∀ e ∈ m.frame, X e.1 = true → ∃ h, e.2 = .array h ∧ m.heap.refs h = 1

variable (x : String) (v : Value)

namespace At

theorem weaken {K : Nat → Nat} (h : At Γ X S L m) (hle : ∀ g, K g ≤ L g) : At Γ X S K m where
  names := h.names
  owned := h.owned.weaken fun g => by
    have := hle g
    simp only [Pi.add_apply]
    omega
  exclusive := h.exclusive

theorem anti {Y : String → Bool} (h : At Γ X S L m) (hle : ∀ x, Y x = true → X x = true) :
    At Γ Y S L m where
  names := h.names
  owned := h.owned
  exclusive e he hy := h.exclusive e he (hle _ hy)

theorem gain (h : At Γ X S L m) (x : String) (b : Nat) (hv : m.frame.value? x = some (.array b))
    (hb : m.heap.refs b = 1) (hc : Γ.count x ≤ 1) :
    At Γ (fun y => X y || (y == x)) S L m where
  names := h.names
  owned := h.owned
  exclusive e he hy := by
    by_cases hx : X e.1 = true
    · exact h.exclusive e he hx
    have hex : e.1 = x := by simpa [hx] using hy
    obtain ⟨n, w⟩ := e
    subst hex
    refine ⟨b, ?_, hb⟩
    -- The name occurs once, so this entry is the one that is looked up.
    exact eq_of_count_le_one m.frame n w _ (show m.frame.names.count n ≤ 1 from h.names ▸ hc) he
      (Frame.mem_of_value? _ _ _ hv)

theorem setApart (h : At Γ X S L m) :
    Owned Value.handles m.heap (fun g => S g ∨ 0 < tally (m.frame.part X).handles g)
      (tally (m.frame.rest X).handles + m.roots + L) ∧
    ∀ g, tally (m.frame.part X).handles g ≤ 1 ∧
      (S g → tally (m.frame.part X).handles g = 0) := by
  have ho : Owned Value.handles m.heap S
      ((tally (m.frame.rest X).handles + m.roots + L) + tally (m.frame.part X).handles) := by
    refine h.owned.weaken fun g => ?_
    rw [Frame.tally_split X m.frame]
    simp only [Pi.add_apply]
    omega
  have hone (g) : 0 < tally (m.frame.part X).handles g → m.heap.refs g = 1 := by
    intro hg
    have hmem : g ∈ (m.frame.part X).handles := tally_pos.1 hg
    simp only [Frame.handles, Frame.part, List.mem_flatMap, List.mem_filter] at hmem
    obtain ⟨e, ⟨he, hx⟩, hge⟩ := hmem
    obtain ⟨b, hb, hr⟩ := h.exclusive e he hx
    rw [hb] at hge
    simp only [Value.handles, List.mem_singleton] at hge
    rw [hge]
    exact hr
  exact ⟨ho.setApart hone, ho.setApart_le hone⟩

theorem rejoin {Γ' : List String} {L' : Nat → Nat} {m' : Machine} (h : At Γ X S L m)
    (hnames : m'.frame.names = Γ') (hpart : m'.frame.part X = m.frame.part X)
    (ho : Owned Value.handles m'.heap (fun g => S g ∨ 0 < tally (m.frame.part X).handles g)
      (tally (m'.frame.rest X).handles + m'.roots + L')) : At Γ' X S L' m' := by
  obtain ⟨-, hle⟩ := h.setApart
  refine { names := hnames, owned := ?_, exclusive := ?_ }
  · refine (ho.restore hle).weaken fun g => ?_
    rw [Frame.tally_split X m'.frame, hpart]
    simp only [Pi.add_apply]
    omega
  intro e he hx
  have hmem : e ∈ m.frame.part X := by
    rw [← hpart]
    exact List.mem_filter.2 ⟨he, hx⟩
  obtain ⟨b, hb, -⟩ := h.exclusive e (List.mem_filter.1 hmem).1 hx
  refine ⟨b, hb, (ho.apart b (Or.inr ?_)).1⟩
  apply tally_pos.2
  exact List.mem_flatMap.2 ⟨e, hmem, by simp [hb, Value.handles]⟩

/-- **The frame rule.** An action that leaves the variables in `X` alone and is correct for the
references outside them, whatever buffers are set apart, keeps the variables in `X` exclusive. -/
theorem step {Γ' : List String} {L' : Nat → Nat} {m' : Machine} (h : At Γ X S L m)
    (hnames : m'.frame.names = Γ') (hpart : m'.frame.part X = m.frame.part X)
    (hstep : ∀ S', Owned Value.handles m.heap S' (tally (m.frame.rest X).handles + m.roots + L) →
      Owned Value.handles m'.heap S' (tally (m'.frame.rest X).handles + m'.roots + L')) :
    At Γ' X S L' m' :=
  h.rejoin hnames hpart (hstep _ h.setApart.1)

theorem heapStep {L' : Nat → Nat} {H : RefCount.Heap Value} (h : At Γ X S L m)
    (hstep : ∀ S' K, Owned Value.handles m.heap S' (L + K) → Owned Value.handles H S' (L' + K)) :
    At Γ X S L' { m with heap := H } := by
  refine h.step h.names rfl fun S' ho => ?_
  have := hstep S' (tally (m.frame.rest X).handles + m.roots) (ho.weaken fun g => by
    simp only [Pi.add_apply]
    omega)
  exact this.weaken fun g => by
    show tally (m.frame.rest X).handles g + m.roots g + L' g ≤ _
    simp only [Pi.add_apply]
    omega

theorem release (hs : List Nat) (h : At Γ X S (tally hs + L) m) : At Γ X S L (m.release hs) :=
  h.heapStep fun S' K ho => (ho.weaken fun g => by
    simp only [Pi.add_apply]
    omega : Owned _ _ S' (tally hs + (L + K))).release hs

theorem retain (h : At Γ X S L m)
    (hin : ∀ g ∈ v.handles, 0 < tally (m.frame.rest X).handles g ∨ 0 < m.roots g ∨ 0 < L g ∨
      0 < Heap.held Value.handles m.heap g) :
    At Γ X S (tally v.handles + L) (m.retain v) := by
  refine h.step h.names rfl fun S' ho => ?_
  have := ho.retain v.handles fun g hg => by
    have := hin g hg
    simp only [Pi.add_apply]
    omega
  exact this.weaken fun g => by
    show tally (m.frame.rest X).handles g + m.roots g + _ ≤ _
    simp only [Pi.add_apply]
    omega

end At

/-- The exception a correct run never raises. -/
abbrev Bad (e : Stop) : Prop := e = .sharedStore

/-- Agreement of two actions under `At`, for references outside the variables in `X`. -/
abbrev Keeps {α : Type} (Γ : List String) (X : String → Bool) (S : Nat → Prop) (L : Nat → Nat)
    (a₁ a₂ : Exec α) (out : α → Nat → Nat) : Prop :=
  Agrees Bad (At Γ X S L) a₁ a₂ fun a => At Γ X S (out a)

theorem unsupported_spec {α : Type} {pre : Machine → Prop} {post : α → Machine → Prop} :
    Agrees Bad pre (unsupported : Exec α) unsupported post :=
  Agrees.throw _ (by simp)

theorem pure_spec {α : Type} (a : α) {out : α → Nat → Nat} (h : ∀ g, out a g ≤ L g) :
    Keeps Γ X S L (pure a) (pure a) out :=
  Agrees.pure a fun _ hm => hm.weaken h

/-! ## Variables -/

theorem copyVariable_spec (hx : X x = false) :
    Keeps Γ X S L (copyVariable x) (copyVariable x) fun v => tally v.handles + L := by
  refine Agrees.self fun m hm => ?_
  unfold copyVariable Machine.value?
  cases hf : m.frame.value? x with
  | some v =>
    refine hm.retain v fun g hg => ?_
    have := Frame.tally_le_of_value? m.frame x v hx hf g
    have := tally_pos.2 hg
    omega
  | none =>
    cases hg : Frame.value? m.globals x with
    | none => simp
    | some v =>
      refine hm.retain v fun g hgv => ?_
      right; left
      have := Frame.tally_le_of_value? (X := fun _ => false) m.globals x v rfl hg g
      have hr : m.roots g = tally (Frame.handles m.globals) g + tally (handlesAll m.kept) g := rfl
      have hrest : (Frame.rest (fun _ => false) m.globals) = m.globals := by simp [Frame.rest]
      rw [hrest] at this
      have := tally_pos.2 hgv
      omega

theorem discard_spec :
    Keeps Γ X S (tally v.handles + L) (discard v) (discard v) fun _ => L :=
  Agrees.self fun _ hm => hm.release v.handles

theorem discardAll_spec (vs : List Value) :
    Keeps Γ X S (tally (handlesAll vs) + L) (discardAll vs) (discardAll vs) fun _ => L :=
  Agrees.self fun _ hm => hm.release (handlesAll vs)

theorem scopeDepth_spec :
    Agrees Bad (At Γ X S L) scopeDepth scopeDepth fun d m => d = Γ.length ∧ At Γ X S L m := by
  refine Agrees.self fun m hm => ?_
  refine ⟨?_, hm⟩
  rw [← hm.names]
  simp [Frame.names]

theorem At.declare {v : Value} (h : At Γ X S (tally v.handles + L) m)
    (hx : X x = true → ∃ b, v = .array b ∧ m.heap.refs b = 1) :
    At (x :: Γ) X S L { m with frame := (x, v) :: m.frame } where
  names := by
    show x :: m.frame.names = _
    rw [h.names]
  owned := h.owned.weaken fun g => by
    rw [Frame.tally_cons]
    show tally v.handles g + _ + m.roots g + L g ≤ _
    simp only [Pi.add_apply]
    omega
  exclusive e he hx' := by
    rcases List.mem_cons.1 he with rfl | he
    · exact hx hx'
    · exact h.exclusive e he hx'

theorem declare_spec (hx : X x = false) :
    Agrees Bad (At Γ X S (tally v.handles + L)) (declare x v) (declare x v)
      fun _ => At (x :: Γ) X S L :=
  Agrees.self fun _ hm => hm.declare x fun h => by simp [hx] at h

theorem assignVariable_spec (hx : X x = false) :
    Agrees Bad (At Γ X S (tally v.handles + L)) (assignVariable x v) (assignVariable x v)
      fun _ m => At Γ X S L m ∧ m.frame.value? x = some v := by
  refine Agrees.self fun m hm => ?_
  unfold assignVariable
  cases hf : m.frame.value? x with
  | none => simp
  | some old =>
    refine ⟨At.release old.handles ?_, Frame.value?_assign m.frame x v old hf⟩
    refine hm.step (by simpa using hm.names) (Frame.part_assign m.frame x v hx) fun S' ho => ?_
    refine ho.weaken fun g => ?_
    have := congrFun (Frame.rest_assign m.frame x v old hx hf) g
    show _ + m.roots g + _ ≤ _
    simp only [Pi.add_apply] at this ⊢
    omega

theorem leaveScope_spec {Δ : List String} (d : Nat) (hd : d = Γ.length) :
    Agrees Bad (At (Δ ++ Γ) X S L) (leaveScope d) (leaveScope d) fun _ => At Γ X S L := by
  refine Agrees.self fun m hm => ?_
  unfold leaveScope
  have hlen : m.frame.length - d = Δ.length := by
    have := congrArg List.length hm.names
    simp only [Frame.names, List.length_map, List.length_append] at this
    omega
  rw [hlen]
  refine At.release _ ?_
  refine { names := ?_, owned := ?_, exclusive := ?_ }
  · show Frame.names (m.frame.drop Δ.length) = Γ
    have := congrArg (List.drop Δ.length) hm.names
    rw [List.drop_left] at this
    rw [← this]
    simp [Frame.names]
  · refine hm.owned.weaken fun g => ?_
    have hsplit := Frame.tally_append (m.frame.take Δ.length) (m.frame.drop Δ.length)
    rw [List.take_append_drop] at hsplit
    have := congrFun hsplit g
    show tally (Frame.handles (m.frame.drop Δ.length)) g + m.roots g + _ ≤ _
    simp only [Pi.add_apply] at this ⊢
    omega
  · intro e he
    exact hm.exclusive e (List.mem_of_mem_drop he)

theorem borrowArray_spec :
    Keeps Γ X S L (borrowArray x) (borrowArray x) fun _ => L := by
  refine Agrees.self fun m hm => ?_
  unfold borrowArray
  split
  · rename_i heq
    split at heq
    · cases heq
      exact hm
    · cases heq
  · rename_i heq
    split at heq
    · cases heq
    · cases heq
      simp

/-! ## Field paths -/

theorem tally_set (vs : List Value) (i : Nat) (v old : Value) (h : vs[i]? = some old) :
    tally (handlesAll (vs.set i v)) + tally old.handles
      = tally (handlesAll vs) + tally v.handles := by
  induction vs generalizing i with
  | nil => simp at h
  | cons w vs ih =>
    cases i with
    | zero =>
      have hw : w = old := by simpa using h
      subst hw
      funext g
      simp only [List.set_cons_zero, handlesAll, RefCount.tally_append, Pi.add_apply]
      omega
    | succ i =>
      have := ih i (by simpa using h)
      funext g
      have := congrFun this g
      simp only [List.set_cons_succ, handlesAll, RefCount.tally_append, Pi.add_apply] at this ⊢
      omega

theorem Value.tally_take (path : List String) (v inner rest : Value)
    (h : v.take path = Option.some (inner, rest)) :
    tally inner.handles + tally rest.handles = tally v.handles := by
  induction path generalizing v inner rest with
  | nil =>
    have h' : (v, Value.unit) = (inner, rest) := by simpa [Value.take] using h
    cases h'
    simp
  | cons field path ih =>
    cases v with
    | struct typeName fieldNames values =>
      rw [Value.take] at h
      split at h
      · rename_i i _
        split at h
        · rename_i v hv
          split at h
          · rename_i inner' rest' ht
            cases h
            have := tally_set values i rest' v hv
            have hi := ih v _ _ ht
            funext g
            have := congrFun this g
            have := congrFun hi g
            simp only [Value.handles, Pi.add_apply] at *
            omega
          · cases h
        · cases h
      · cases h
    | _ => simp [Value.take] at h

theorem Value.tally_put (new : Value) (path : List String) (v old rest : Value)
    (h : Value.put new path v = Option.some (old, rest)) :
    tally old.handles + tally rest.handles = tally v.handles + tally new.handles := by
  induction path generalizing v old rest with
  | nil =>
    have h' : (v, new) = (old, rest) := by simpa [Value.put] using h
    cases h'
    rfl
  | cons field path ih =>
    cases v with
    | struct typeName fieldNames values =>
      rw [Value.put] at h
      split at h
      · rename_i i _
        split at h
        · rename_i v hv
          split at h
          · rename_i old' rest' ht
            cases h
            have := tally_set values i rest' v hv
            have hi := ih v _ _ ht
            funext g
            have := congrFun this g
            have := congrFun hi g
            simp only [Value.handles, Pi.add_apply] at *
            omega
          · cases h
        · cases h
      · cases h
    | _ => simp [Value.put] at h

theorem At.assign {K : Nat → Nat} (old : Value) (hx : X x = false)
    (hf : m.frame.value? x = some old) (h : At Γ X S L m)
    (hle : ∀ g, v.handles.count g + K g ≤ old.handles.count g + L g) :
    At Γ X S K { m with frame := m.frame.assign x v } := by
  refine h.step (by simpa using h.names) (Frame.part_assign m.frame x v hx) fun S' ho => ?_
  refine ho.weaken fun g => ?_
  have h1 := congrFun (Frame.rest_assign m.frame x v old hx hf) g
  have h2 := hle g
  show _ + m.roots g + _ ≤ _
  simp only [Pi.add_apply, tally] at h1 h2 ⊢
  omega

theorem copyPath_spec (path : List String) (hx : ∀ root ∈ path.head?, X root = false) :
    Keeps Γ X S L (copyPath path) (copyPath path) fun v => tally v.handles + L := by
  cases path with
  | nil => exact unsupported_spec
  | cons root path =>
    have hr : X root = false := hx root (by simp)
    refine Agrees.self fun m hm => ?_
    simp only [copyPath, Machine.value?]
    have hsub (v inner rest : Value) : v.take path = some (inner, rest) →
        ∀ g ∈ inner.handles, 0 < tally v.handles g := by
      intro ht g hg
      have := congrFun (Value.tally_take path v inner rest ht) g
      have := tally_pos.2 hg
      simp only [Pi.add_apply] at *
      omega
    cases hf : m.frame.value? root with
    | some v =>
      simp only [Option.some_or]
      cases ht : v.take path with
      | none => simp
      | some p =>
        obtain ⟨inner, rest⟩ := p
        refine hm.retain inner fun g hg => ?_
        have := Frame.tally_le_of_value? m.frame root v hr hf g
        have := hsub v inner rest ht g hg
        omega
    | none =>
      simp only [Option.none_or]
      cases hgl : Frame.value? m.globals root with
      | none => simp
      | some v =>
        cases ht : v.take path with
        | none => simp [ht]
        | some p =>
          obtain ⟨inner, rest⟩ := p
          simp only [ht]
          refine hm.retain inner fun g hg => ?_
          right; left
          have := Frame.tally_le_of_value? (X := fun _ => false) m.globals root v rfl hgl g
          have hr : m.roots g = tally (Frame.handles m.globals) g + tally (handlesAll m.kept) g := rfl
          have hrest : (Frame.rest (fun _ => false) m.globals) = m.globals := by simp [Frame.rest]
          rw [hrest] at this
          have := hsub v inner rest ht g hg
          omega

theorem lendPath_spec (path : List String) (hx : ∀ root ∈ path.head?, X root = false) :
    Keeps Γ X S L (lendPath path) (lendPath path) fun v => tally v.handles + L := by
  cases path with
  | nil => exact unsupported_spec
  | cons root path =>
    have hr : X root = false := hx root (by simp)
    refine Agrees.self fun m hm => ?_
    simp only [lendPath]
    cases hf : m.frame.value? root with
    | none => simp
    | some v =>
      cases ht : v.take path with
      | none => simp [ht]
      | some p =>
        obtain ⟨inner, rest⟩ := p
        simp only [ht]
        refine hm.assign root rest v hr hf fun g => ?_
        have := congrFun (Value.tally_take path v inner rest ht) g
        simp only [Pi.add_apply, tally] at this ⊢
        omega

theorem storeField_spec (path : List String) (v : Value) (hx : ∀ root ∈ path.head?, X root = false) :
    Keeps Γ X S (tally v.handles + L) (storeField path v) (storeField path v) fun _ => L := by
  cases path with
  | nil => exact unsupported_spec
  | cons root path =>
    have hr : X root = false := hx root (by simp)
    refine Agrees.self fun m hm => ?_
    simp only [storeField]
    cases hf : m.frame.value? root with
    | none => simp
    | some w =>
      cases ht : Value.put v path w with
      | none => simp [ht]
      | some p =>
        obtain ⟨old, rest⟩ := p
        simp only [ht]
        refine At.release old.handles ?_
        refine hm.assign root rest w hr hf fun g => ?_
        have := congrFun (Value.tally_put v path w old rest ht) g
        simp only [Pi.add_apply, tally] at this ⊢
        omega

/-! ## Arrays -/

theorem newArray_spec (vs : List Value) :
    Agrees Bad (At Γ X S (tally (handlesAll vs) + L)) (newArray vs) (newArray vs)
      fun h m => At Γ X S (tally [h] + L) m ∧ m.heap.refs h = 1 := by
  refine Agrees.self fun m hm => ?_
  unfold newArray
  refine ⟨hm.heapStep fun S' K ho => ?_, ?_⟩
  · have := (ho.weaken (K := tally (vs.flatMap Value.handles) + (L + K)) fun g => by
      rw [handlesAll_eq]
      simp only [Pi.add_apply]
      omega).alloc vs
    exact this.1.weaken fun g => by
      show tally [m.heap.length] g + L g + K g ≤ tally [m.heap.length] g + (L g + K g)
      omega
  · show Heap.refs (m.heap ++ [_]) m.heap.length = 1
    simp [refs_append]

theorem arrayLength_spec (h : Nat) :
    Keeps Γ X S L (arrayLength h) (arrayLength h) fun _ => L :=
  Agrees.self fun _ hm => hm

theorem held_of_element (H : RefCount.Heap Value) (h i : Nat) (v : Value)
    (hv : (H.elements h)[i]? = some v) (g : Nat) (hg : g ∈ v.handles) :
    0 < Heap.held Value.handles H g := by
  have hlt : h < H.length := by
    by_contra hge
    rw [Heap.elements, List.getElem?_eq_none (Nat.le_of_not_lt hge)] at hv
    simp at hv
  have := congrFun (held_set Value.handles H h ⟨0, []⟩ hlt) g
  have hmem : g ∈ (H.elements h).flatMap Value.handles :=
    List.mem_flatMap.2 ⟨v, List.mem_of_getElem? hv, hg⟩
  have := tally_pos.2 hmem
  simp only [Pi.add_apply, List.flatMap_nil, tally_nil, Pi.zero_apply] at *
  omega

/-- The references of an optional element. -/
def optionHandles (r : Option Value) : List Nat := handlesAll r.toList

theorem fetch_spec (h i : Nat) :
    Keeps Γ X S L (fetch h i) (fetch h i) fun r => tally (optionHandles r) + L := by
  refine Agrees.self fun m hm => ?_
  unfold fetch
  cases hv : (m.heap.elements h)[i]? with
  | none => exact hm.weaken fun g => by simp [optionHandles, handlesAll]
  | some v =>
    have := hm.retain v fun g hg => by
      have := held_of_element m.heap h i v hv g hg
      omega
    exact this.weaken fun g => by simp [optionHandles, handlesAll]

theorem elements_detach (H : RefCount.Heap Value) (h : Nat) :
    (H.detach Value.handles h).2.elements (H.detach Value.handles h).1 = H.elements h := by
  unfold Heap.detach
  split
  · rfl
  · simp [Heap.alloc, Heap.elements]

theorem detach_lt (H : RefCount.Heap Value) (h : Nat) (hr : 0 < H.refs h) :
    (H.detach Value.handles h).1 < (H.detach Value.handles h).2.length := by
  unfold Heap.detach
  split
  · exact lt_length_of_refs hr
  · simp [Heap.alloc]

/-- Detaching and then changing the elements: `A` moves in, `B` moves B, and the buffer is
left with a single reference. -/
theorem Owned_detach_replace {T : Nat → Prop} {K A B : Nat → Nat} {H : RefCount.Heap Value}
    (h : Nat) (vs : List Value) (ho : Owned Value.handles H T (tally [h] + (A + K)))
    (hmove : tally (handlesAll vs) + B = tally (handlesAll (H.elements h)) + A) :
    Owned Value.handles ((H.detach Value.handles h).2.replace (H.detach Value.handles h).1 vs) T
        (tally [(H.detach Value.handles h).1] + (B + K)) ∧
      ((H.detach Value.handles h).2.replace (H.detach Value.handles h).1 vs).refs
        (H.detach Value.handles h).1 = 1 := by
  have hpos : 0 < H.refs h := ho.refs_pos (Or.inl (by
    simp only [Pi.add_apply, tally_singleton, if_true]
    omega))
  obtain ⟨hd, hr⟩ := ho.detach h
  have hd' := hd.weaken (K := A + (tally [(H.detach Value.handles h).1] + K)) fun g => by
    simp only [Pi.add_apply]
    omega
  have hrep := hd'.replace (B := B) _ vs (detach_lt H h hpos) (by
    rw [elements_detach, ← handlesAll_eq, ← handlesAll_eq]
    exact hmove)
  refine ⟨hrep.1.weaken fun g => ?_, ?_⟩
  · simp only [Pi.add_apply]
    omega
  · rw [hrep.2]
    exact hr

/-- The outcome of an action that changes the buffer behind a reference: the new reference is the
only one to its buffer. -/
abbrev Exclusive (Γ : List String) (X : String → Bool) (S : Nat → Prop) (L : Nat → Nat) (h : Nat)
    (m : Machine) : Prop :=
  At Γ X S (tally [h] + L) m ∧ m.heap.refs h = 1

namespace At

theorem change {A B : Nat → Nat} (h : Nat) (vs : List Value)
    (hm : At Γ X S (tally [h] + (A + L)) m)
    (hmove : tally (handlesAll vs) + B = tally (handlesAll (m.heap.elements h)) + A) :
    Exclusive Γ X S (B + L) (m.heap.detach Value.handles h).1
      { m with
        heap := ((m.heap.detach Value.handles h).2.replace (m.heap.detach Value.handles h).1 vs) } := by
  refine ⟨hm.heapStep fun S' K ho => ?_, ?_⟩
  · have := (Owned_detach_replace h vs (K := L + K) (ho.weaken fun g => by
      simp only [Pi.add_apply]
      omega) hmove).1
    exact this.weaken fun g => by
      simp only [Pi.add_apply]
      omega
  · refine (Owned_detach_replace h vs (T := S) (K := L + (tally m.frame.handles + m.roots))
      (hm.owned.weaken fun g => ?_) hmove).2
    simp only [Pi.add_apply]
    omega

theorem releaseOther (hs : List Nat) (h : Nat) (hm : Exclusive Γ X S (tally hs + L) h m) :
    Exclusive Γ X S L h (m.release hs) := by
  obtain ⟨hat, hr⟩ := hm
  have hat' : At Γ X S (tally hs + (tally [h] + L)) m := hat.weaken fun g => by
    simp only [Pi.add_apply]
    omega
  refine ⟨hat'.release hs, ?_⟩
  have hset := (hat'.owned.weaken
      (K := (tally hs + (L + (tally m.frame.handles + m.roots))) + tally [h]) fun g => by
        simp only [Pi.add_apply]
        omega).setApart fun g hg => by
          have hgh : g = h := by
            have := tally_pos.1 hg
            simpa using this
          rw [hgh]
          exact hr
  exact (hset.release.apart h (Or.inr (by simp [tally_singleton]))).1

end At

theorem setElement_cow_spec (monitor : Bool) (h i : Nat) (v : Value) :
    Agrees Bad (At Γ X S (tally [h] + (tally v.handles + L)))
      (setElement monitor .checkedCow h i v) (setElement false .checkedCow h i v)
      (Exclusive Γ X S L) := by
  have hsame : setElement monitor .checkedCow h i v = setElement false .checkedCow h i v := by
    funext m
    simp [setElement]
  rw [hsame]
  refine Agrees.self fun m hm => ?_
  simp only [setElement, Bool.false_eq_true, false_and, if_false]
  by_cases hlt : i < (m.heap.elements h).length
  · rw [if_pos hlt]
    simp only [elements_detach]
    have hold : (m.heap.elements h)[i]? = some (m.heap.elements h)[i] := List.getElem?_eq_getElem hlt
    have hmove := tally_set (m.heap.elements h) i v _ hold
    rw [hold]
    have hch := hm.change h ((m.heap.elements h).set i v) hmove
    apply At.releaseOther
    simpa [handlesAll] using hch
  · rw [if_neg hlt]
    simp

theorem pushElement_spec (h : Nat) (v : Value) :
    Agrees Bad (At Γ X S (tally [h] + (tally v.handles + L)))
      (pushElement h v) (pushElement h v) (Exclusive Γ X S L) := by
  refine Agrees.self fun m hm => ?_
  simp only [pushElement, elements_detach]
  have hch := hm.change (B := 0) h (m.heap.elements h ++ [v]) (by
    simp [handlesAll_eq])
  exact ⟨hch.1.weaken fun g => by simp, hch.2⟩

theorem insertElement_spec (h i : Nat) (v : Value) :
    Agrees Bad (At Γ X S (tally [h] + (tally v.handles + L)))
      (insertElement h i v) (insertElement h i v) (Exclusive Γ X S L) := by
  refine Agrees.self fun m hm => ?_
  unfold insertElement
  by_cases hle : i ≤ (m.heap.elements h).length
  · simp only [if_pos hle, elements_detach]
    have hperm : ((m.heap.elements h).insertIdx i v).Perm (v :: m.heap.elements h) :=
      List.perm_insertIdx v _ hle
    have hch := hm.change (B := 0) h ((m.heap.elements h).insertIdx i v) (by
      rw [handlesAll_eq, tally_perm (hperm.flatMap_right Value.handles)]
      funext g
      simp only [List.flatMap_cons, RefCount.tally_append, handlesAll_eq, Pi.add_apply, Pi.zero_apply]
      omega)
    exact ⟨hch.1.weaken fun g => by simp, hch.2⟩
  · simp [if_neg hle]

theorem clearElements_spec (h : Nat) :
    Agrees Bad (At Γ X S (tally [h] + L)) (clearElements h) (clearElements h)
      (Exclusive Γ X S L) := by
  refine Agrees.self fun m hm => ?_
  simp only [clearElements, elements_detach]
  have hch := (hm.weaken (K := tally [h] + (0 + L)) fun g => by simp).change
    (B := tally (handlesAll (m.heap.elements h))) h [] (by simp [handlesAll])
  exact At.releaseOther _ _ hch

theorem removeElement_spec (h i : Nat) :
    Agrees Bad (At Γ X S (tally [h] + L)) (removeElement h i) (removeElement h i)
      fun r => At Γ X S (tally [r.1] + (tally r.2.handles + L)) := by
  refine Agrees.self fun m hm => ?_
  unfold removeElement
  by_cases hlt : i < (m.heap.elements h).length
  · simp only [if_pos hlt, elements_detach]
    have hold : (m.heap.elements h)[i]? = some (m.heap.elements h)[i] := List.getElem?_eq_getElem hlt
    rw [hold]
    have hperm : (m.heap.elements h).Perm
        ((m.heap.elements h)[i] :: (m.heap.elements h).eraseIdx i) :=
      (List.getElem_cons_eraseIdx_perm hlt).symm
    have hch := (hm.weaken (K := tally [h] + (0 + L)) fun g => by simp).change
      (B := tally (m.heap.elements h)[i].handles) h ((m.heap.elements h).eraseIdx i) (by
        rw [handlesAll_eq (m.heap.elements h), tally_perm (hperm.flatMap_right Value.handles)]
        funext g
        simp only [List.flatMap_cons, RefCount.tally_append, handlesAll_eq, Pi.add_apply, Pi.zero_apply]
        omega)
    exact hch.1.weaken fun g => by simp [Value.some, Value.handles, handlesAll]
  · simp only [if_neg hlt]
    exact hm.weaken fun g => by simp [Value.none, Value.handles, handlesAll]

/-- Changing an array variable in place: its reference goes through an action while the variable
holds nothing. -/
theorem updateArray_rule {α : Type} {f₁ f₂ : Nat → Exec (Nat × α)} {pre : Machine → Prop}
    {I : Nat → Machine → Prop} {Q : Nat × α → Machine → Prop} {post : α → Machine → Prop}

    (hhole : ∀ m h, pre m → m.frame.value? x = some (.array h) →
      I h { m with frame := m.frame.assign x .unit })
    (hf : ∀ h, Agrees Bad (I h) (f₁ h) (f₂ h) Q)
    (hback : ∀ m r, Q r m → post r.2 { m with frame := m.frame.assign x (.array r.1) }) :
    Agrees Bad pre (updateArray x f₁) (updateArray x f₂) post := by
  refine { same := ?_, safe := ?_, post := ?_ }
  · intro m hm
    unfold updateArray
    split
    · rename_i h hv
      rw [(hf h).same _ (hhole m h hm hv)]
    · rfl
  · intro m e m' hm heq
    unfold updateArray at heq
    split at heq
    · rename_i h hv
      cases hr : f₂ h { m with frame := m.frame.assign x .unit } with
      | ok p m₁ =>
        rw [hr] at heq
        cases heq
      | error e' m₁ =>
        rw [hr] at heq
        cases heq
        exact (hf h).safe _ _ _ (hhole m h hm hv) hr
    · cases heq
      simp
  · intro m a m' hm heq
    unfold updateArray at heq
    split at heq
    · rename_i h hv
      cases hr : f₂ h { m with frame := m.frame.assign x .unit } with
      | ok p m₁ =>
        rw [hr] at heq
        cases heq
        exact hback m₁ _ ((hf h).post _ _ _ (hhole m h hm hv) hr)
      | error e' m₁ =>
        rw [hr] at heq
        cases heq
    · cases heq

theorem updateArray_spec {α : Type} {f₁ f₂ : Nat → Exec (Nat × α)} {B : α → Nat → Nat}
     (hx : X x = false)
    (hf : ∀ h, Agrees Bad (At Γ X S (tally [h] + L)) (f₁ h) (f₂ h)
      fun r => At Γ X S (tally [r.1] + B r.2)) :
    Keeps Γ X S L (updateArray x f₁) (updateArray x f₂) B := by
  refine updateArray_rule x (fun m h hm hv => ?_) hf fun m r hm => ?_
  · refine hm.assign x .unit (.array h) hx hv fun g => ?_
    simp [Value.handles, Value.unit, tally]
  cases hv : m.frame.value? x with
  | some old =>
    refine hm.assign x (.array r.1) old hx hv fun g => ?_
    simp only [Value.handles, Pi.add_apply, tally]
    omega
  | none =>
    rw [Frame.assign_of_none _ _ _ hv]
    exact hm.weaken fun g => by simp

/-! ## The outside world -/

mutual

/-- A reply builds its value from fresh buffers and copies of kept values. -/
theorem instantiate_at (d : Data) (L : Nat → Nat) (m : Machine) (hm : At Γ X S L m) :
    At Γ X S (tally (instantiate d m).1.handles + L) (instantiate d m).2 := by
  cases d with
  | literal l | functionRef f => exact hm.weaken fun g => by simp [instantiate, Value.handles]
  | array elements =>
    have hall := instantiateAll_at elements L m hm
    have := (newArray_spec (Γ := Γ) (X := X) (S := S) (L := L) (instantiateAll elements m).1).post
      _ _ _ hall rfl
    simp only [instantiate, Value.handles]
    exact this.1
  | struct typeName fieldNames values =>
    simpa [instantiate, Value.handles] using instantiateAll_at values L m hm
  | enum variant payload =>
    simpa [instantiate, Value.handles] using instantiateAll_at payload L m hm
  | kept i =>
    rw [instantiate]
    cases hk : m.kept[i]? with
    | none => exact hm.weaken fun g => by simp
    | some v =>
      refine hm.retain v fun g hg => ?_
      right; left
      have hmem : g ∈ handlesAll m.kept := by
        rw [handlesAll_eq]
        exact List.mem_flatMap.2 ⟨v, List.mem_of_getElem? hk, hg⟩
      have := tally_pos.2 hmem
      have hr : m.roots g = tally (Frame.handles m.globals) g + tally (handlesAll m.kept) g := rfl
      omega

theorem instantiateAll_at (ds : List Data) (L : Nat → Nat) (m : Machine) (hm : At Γ X S L m) :
    At Γ X S (tally (handlesAll (instantiateAll ds m).1) + L) (instantiateAll ds m).2 := by
  cases ds with
  | nil => exact hm.weaken fun g => by simp [instantiateAll, handlesAll]
  | cons d ds =>
    have h1 := instantiate_at d L m hm
    have h2 := instantiateAll_at ds _ _ h1
    exact h2.weaken fun g => by
      simp only [instantiateAll, handlesAll, RefCount.tally_append, Pi.add_apply]
      omega

end

theorem request_spec (answer : RefCount.Heap Value → Nat → Reply) (args : List Value) :
    Keeps Γ X S (tally (handlesAll args) + L) (request answer args) (request answer args)
      fun v => tally v.handles + L := by
  refine Agrees.self fun m hm => ?_
  have hgiven : At Γ X S L
      (if (answer m.heap m.clock).keep then
        { m with clock := m.clock + 1, kept := args ++ m.kept }
      else Machine.release { m with clock := m.clock + 1 } (handlesAll args)) := by
    have htick : At Γ X S (tally (handlesAll args) + L) { m with clock := m.clock + 1 } :=
      ⟨hm.names, hm.owned, hm.exclusive⟩
    split
    · refine ⟨hm.names, hm.owned.weaken fun g => ?_, hm.exclusive⟩
      simp only [Machine.roots, handlesAll_eq, List.flatMap_append, RefCount.tally_append, Pi.add_apply]
      omega
    · exact htick.release _
  unfold request
  cases hr : (answer m.heap m.clock).result with
  | none => simp [hr]
  | some d =>
    simp only [hr]
    exact instantiate_at d L _ hgiven

theorem write_spec (host : Host) (newline : Bool) (v : Value) :
    Keeps Γ X S (tally v.handles + L) (write host newline v) (write host newline v) fun _ => L := by
  refine Agrees.self fun m hm => ?_
  have hout : At Γ X S (tally v.handles + L)
      { m with output := (host.display v m.heap, newline) :: m.output } :=
    ⟨hm.names, hm.owned, hm.exclusive⟩
  exact hout.release _

theorem panicWith_spec {α : Type} (host : Host) (v : Value) {pre : Machine → Prop}
    {post : α → Machine → Prop} :
    Agrees Bad pre (panicWith host v : Exec α) (panicWith host v) post :=
  Agrees.self fun _ _ => by simp [panicWith]

/-! ## Taking values apart -/

theorem asBool_spec :
    Keeps Γ X S (tally v.handles + L) v.asBool v.asBool fun _ => L := by
  unfold Value.asBool
  split
  · exact pure_spec _ fun g => by simp
  · exact unsupported_spec

theorem asIndex_spec :
    Keeps Γ X S (tally v.handles + L) v.asIndex v.asIndex fun _ => L := by
  unfold Value.asIndex
  split
  · exact pure_spec _ fun g => by simp
  · exact unsupported_spec

theorem asArray_spec :
    Agrees Bad (At Γ X S (tally v.handles + L)) v.asArray v.asArray
      fun h m => v = .array h ∧ At Γ X S (tally [h] + L) m := by
  unfold Value.asArray
  split
  · exact Agrees.pure _ fun m hm => ⟨rfl, hm⟩
  · exact unsupported_spec

theorem splitVariant_spec {pre : Machine → Prop} :
    Agrees Bad pre (splitVariant v) (splitVariant v)
      fun r m => v = .enum r.1 r.2 ∧ pre m := by
  unfold splitVariant
  split
  · exact Agrees.pure _ fun m hm => ⟨rfl, hm⟩
  · exact unsupported_spec

theorem payloadField_spec (field : String) (payload : List Value) {pre : Machine → Prop} :
    Agrees Bad pre (payloadField field payload) (payloadField field payload)
      fun v m => (∀ g, tally v.handles g ≤ tally (handlesAll payload) g) ∧ pre m := by
  unfold payloadField
  split
  · rename_i typeName fieldNames values
    cases fieldIndex fieldNames field with
    | none => exact unsupported_spec
    | some i =>
      simp only
      cases hv : values[i]? with
      | none => exact unsupported_spec
      | some v =>
        refine Agrees.pure _ fun m hm => ⟨fun g => ?_, hm⟩
        have := congrFun (tally_set values i .unit v hv) g
        simp only [Value.handles_unit, tally_nil, Pi.add_apply, Pi.zero_apply] at this
        simp only [handlesAll, Value.handles, List.append_nil]
        omega
  · exact unsupported_spec

theorem copyValue_spec (hv : ∀ g, tally v.handles g ≤ L g) :
    Keeps Γ X S L (copyValue v) (copyValue v) fun w => tally w.handles + L :=
  Agrees.self fun m hm => hm.retain v fun g hg => by
    have := hv g
    have := tally_pos.2 hg
    omega

/-! ## Calls -/

/-- The lent variables of an argument list are outside `X`. -/
def LentOutside (X : String → Bool) (given : List Argument) : Prop :=
  ∀ path, Argument.lent path ∈ given → ∀ root ∈ path.head?, X root = false

theorem lendAll_spec (given : List Argument) (hx : LentOutside X given) :
    Keeps Γ X S (tally (argumentHandles given) + L) (lendAll given) (lendAll given)
      fun vs => tally (handlesAll vs) + L := by
  induction given generalizing L with
  | nil => exact pure_spec _ fun g => by simp [handlesAll]
  | cons a given ih =>
    have hrest : LentOutside X given := fun p hp => hx p (List.mem_cons_of_mem _ hp)
    cases a with
    | value v =>
      refine Agrees.bind (Q := fun vs => At Γ X S (tally (handlesAll vs) + (tally v.handles + L)))
        ?_ fun vs => pure_spec _ fun g => ?_
      · refine (ih hrest (L := tally v.handles + L)).strengthen fun m hm => hm.weaken fun g => ?_
        simp only [argumentHandles, RefCount.tally_append, Pi.add_apply]
        omega
      · simp only [handlesAll, RefCount.tally_append, Pi.add_apply]
        omega
    | lent path =>
      refine Agrees.bind (lendPath_spec path (hx path (by simp))) fun v => ?_
      refine Agrees.bind (Q := fun vs => At Γ X S (tally (handlesAll vs) + (tally v.handles + L)))
        ?_ fun vs => pure_spec _ fun g => ?_
      · refine (ih hrest (L := tally v.handles + L)).strengthen fun m hm => hm.weaken fun g => ?_
        simp only [argumentHandles, Pi.add_apply]
        omega
      · simp only [handlesAll, RefCount.tally_append, Pi.add_apply]
        omega

theorem settleAll_spec (given : List Argument) (outs : List Value) (hx : LentOutside X given) :
    Keeps Γ X S (tally (handlesAll outs) + L) (settleAll given outs) (settleAll given outs)
      fun _ => L := by
  induction given generalizing outs with
  | nil => exact pure_spec _ fun g => by simp
  | cons a given ih =>
    have hrest : LentOutside X given := fun p hp => hx p (List.mem_cons_of_mem _ hp)
    cases outs with
    | nil =>
      cases a <;> exact pure_spec _ fun g => by simp
    | cons v outs =>
      have hpre : ∀ m, At Γ X S (tally (handlesAll (v :: outs)) + L) m →
          At Γ X S (tally v.handles + (tally (handlesAll outs) + L)) m := fun m hm =>
        hm.weaken fun g => by
          simp only [handlesAll, RefCount.tally_append, Pi.add_apply]
          omega
      cases a with
      | value w =>
        exact Agrees.bind ((discard_spec v).weaken hpre fun _ _ h => h) fun _ => ih outs hrest
      | lent path =>
        exact Agrees.bind ((storeField_spec path v (hx path (by simp))).weaken hpre
          fun _ _ h => h) fun _ => ih outs hrest

theorem storePath_cow_spec (monitor : Bool) (is : List Nat) (h : Nat) (v : Value) :
    Agrees Bad (At Γ X S (tally [h] + (tally v.handles + L)))
      (storePath monitor .checkedCow is h v) (storePath false .checkedCow is h v)
      (Exclusive Γ X S L) := by
  induction is generalizing h L with
  | nil => exact unsupported_spec
  | cons i is ih =>
    cases is with
    | nil => exact setElement_cow_spec monitor h i v
    | cons j is =>
      refine Agrees.bind (fetch_spec h i) fun r => ?_
      split
      · rename_i child
        refine Agrees.bind (Q := Exclusive Γ X S (tally [h] + L))
          ((ih child (L := tally [h] + L)).strengthen fun m hm => hm.weaken fun g => ?_) fun child' => ?_
        · simp only [optionHandles, Option.toList, handlesAll, Value.handles, List.append_nil, Pi.add_apply]
          omega
        · refine (setElement_cow_spec monitor h i (.array child')).strengthen fun m hm => ?_
          exact hm.1.weaken fun g => by
            simp only [Value.handles, Pi.add_apply]
            omega
      · exact Agrees.throw _ (by simp)

end Nomo.Ir

namespace Nomo.Lib

open Nomo.Ir

/-- From more references than needed. -/
theorem Agrees.fewer {α : Type} {Γ : List String} {X : String → Bool} {S : Nat → Prop}
    {K L : Nat → Nat} {a₁ a₂ : Exec α} {post : α → Machine → Prop}
    (h : Agrees Bad (At Γ X S L) a₁ a₂ post) (hle : ∀ g, L g ≤ K g) :
    Agrees Bad (At Γ X S K) a₁ a₂ post :=
  h.strengthen fun _ hm => hm.weaken hle

end Nomo.Lib
