import Nomo.Mir.Evaluate
import Nomo.Mir.Compiled
import Nomo.Ir.Exclusive

/-!
# Arriving at a block

`Arrive F b Γ S L m` is the invariant of the simulation: the run is about to perform the statement
of block `b`, the analysis has reached that block, and every array its input state claims to be
unique is exclusive in `m`.  After the operations of the block the same holds of its output state
(`Ready`), and an edge of the graph turns `Ready` at one block into `Arrive` at the next.

A name bound by a loop needs extra care: no operation resets it when the loop is entered.  It is
never unique at the loop's header, because the run comes there for the first time before the name
has ever been in scope (`LoopOk`).
-/

namespace Nomo.Mir

open Nomo.Ir Nomo.Lib Nomo.Lib.RefCount

variable {F : Flow} {Γ Δ : List String} {S : Nat → Prop} {L : Nat → Nat} {m : Machine}
  {b t : Nat} {operations : List Operation} {state : StateMap} {xs : List String}

namespace Flow

/-- The tracked arrays that a state claims to be unique. -/
def exclusive (F : Flow) (state : StateMap) : String → Bool := fun x =>
  decide (x ∈ F.eligible) && (state.state? x == some .unique)

theorem exclusive_iff (F : Flow) (state : StateMap) (x : String) :
    F.exclusive state x = true ↔ x ∈ F.eligible ∧ Unique state x := by
  simp [exclusive, Unique]

theorem exclusive_eq_false (F : Flow) (state : StateMap) (x : String)
    (h : x ∈ F.eligible → ¬ Unique state x) : F.exclusive state x = false := by
  cases hx : F.exclusive state x with
  | false => rfl
  | true =>
    obtain ⟨h1, h2⟩ := (F.exclusive_iff state x).1 hx
    exact absurd h2 (h h1)

/-- A name bound by a loop is not unique at the header of that loop, or the run has not been there
and the name is neither unique nor in scope. -/
def LoopOk (F : Flow) (state : StateMap) (Γ : List String) : Prop :=
  ∀ x ∈ F.eligible, ∀ header, (x, some header) ∈ F.headers →
    (∀ s, F.input header = some s → ¬ Unique s x) ∨ (¬ Unique state x ∧ x ∉ Γ)

/-- A name that is never unique when block `b` is reached. -/
def Clear (F : Flow) (b : Nat) (x : String) : Prop :=
  x ∈ F.eligible → ∀ s, F.input b = some s → ¬ Unique s x

/-- A tracked name has one header entry. -/
def Single (F : Flow) : Prop :=
  ∀ x ∈ F.eligible, ∀ h h', (x, h) ∈ F.headers → (x, h') ∈ F.headers → h = h'

/-- A tracked name is in scope at most once, and not if it is still to be bound. -/
def Scoped (F : Flow) (Γ : List String) (bindings : List BindingRecord) : Prop :=
  ∀ x ∈ F.eligible, Γ.count x + (bindings.map Prod.fst).count x ≤ 1

/-- About to perform the statement of block `b`. -/
def Arrive (F : Flow) (b : Nat) (Γ : List String) (S : Nat → Prop) (L : Nat → Nat) (m : Machine) :
    Prop :=
  ∃ state, (F.input b = some state ∧ F.LoopOk state Γ) ∧ At Γ (F.exclusive state) S L m

/-- Having performed the operations of block `b`. -/
def Ready (F : Flow) (b : Nat) (operations : List Operation) (Γ : List String) (S : Nat → Prop)
    (L : Nat → Nat) (m : Machine) : Prop :=
  ∃ state, (F.input b = some state ∧ F.LoopOk (transferOperations operations state) Γ) ∧
    At Γ (F.exclusive (transferOperations operations state)) S L m

theorem LoopOk.mono {s s' : StateMap} {Γ' : List String} (h : F.LoopOk s Γ)
    (hs : ∀ x, Unique s' x → Unique s x) (hΓ : ∀ x ∈ Γ', x ∈ Γ) : F.LoopOk s' Γ' := by
  intro x hx header hh
  rcases h x hx header hh with h1 | ⟨h1, h2⟩
  · exact Or.inl h1
  · exact Or.inr ⟨fun hu => h1 (hs x hu), fun hm => h2 (hΓ x hm)⟩

theorem Ready.pass (h : F.Ready b operations Γ S L m) (hp : F.Passes b operations t) :
    F.Arrive t Γ S L m := by
  obtain ⟨s, ⟨hs, hloop⟩, hat⟩ := h
  obtain ⟨s', hs', hclaims⟩ := hp s hs
  refine ⟨s', ⟨hs', hloop.mono hclaims fun _ h => h⟩, hat.anti fun x hx => ?_⟩
  obtain ⟨h1, h2⟩ := (F.exclusive_iff s' x).1 hx
  exact (F.exclusive_iff _ x).2 ⟨h1, hclaims x h2⟩

theorem Arrive.ready (h : F.Arrive b Γ S L m) (hq : Quiet F.eligible xs operations) :
    F.Ready b operations Γ S L m := by
  obtain ⟨s, ⟨hs, hloop⟩, hat⟩ := h
  refine ⟨s, ⟨hs, hloop.mono (fun x hx => (hq.unique hx).1) fun _ h => h⟩, hat.anti fun x hx => ?_⟩
  obtain ⟨h1, h2⟩ := (F.exclusive_iff _ x).1 hx
  exact (F.exclusive_iff _ x).2 ⟨h1, (hq.unique h2).1⟩

theorem Scoped.mono {bs bs' : List BindingRecord} {Γ' : List String} (h : F.Scoped Γ bs)
    (hle : ∀ x, Γ'.count x + (bs'.map Prod.fst).count x ≤ Γ.count x + (bs.map Prod.fst).count x) :
    F.Scoped Γ' bs' := fun x hx => Nat.le_trans (hle x) (h x hx)

end Flow

/-! ## Reasoning from an arrival -/

theorem arrive_rule {α : Type} {a₁ a₂ : Exec α} {post : α → Machine → Prop}
    (h : ∀ state, F.input b = some state → F.LoopOk state Γ →
      Agrees Bad (At Γ (F.exclusive state) S L) a₁ a₂ post) :
    Agrees Bad (F.Arrive b Γ S L) a₁ a₂ post :=
  Agrees.ofExists fun state => Agrees.fact fun ⟨h1, h2⟩ => h state h1 h2

/-- Fix the output state: for quiet operations it is enough to keep exclusive a set of variables
that they leave alone. -/
theorem ready_rule {α : Type} {a₁ a₂ : Exec α} {post : α → Machine → Prop}
    (hF : F.Single) (hq : Quiet F.eligible xs operations)
    (h : ∀ X, Outside X xs → (∀ x, x ∉ F.eligible → X x = false) →
      (∀ x, F.Clear b x → X x = false) →
      (∀ Δ S L m, (∀ x ∈ Δ, (x, none) ∈ F.headers ∨ ((x, some b) ∈ F.headers ∧ F.Clear b x)) →
        At (Δ ++ Γ) X S L m → F.Ready b operations (Δ ++ Γ) S L m) →
      Agrees Bad (At Γ X S L) a₁ a₂ post) :
    Agrees Bad (F.Ready b operations Γ S L) a₁ a₂ post := by
  refine Agrees.ofExists fun state => Agrees.fact fun ⟨hs, hloop⟩ => ?_
  refine h (F.exclusive (transferOperations operations state)) ?_ ?_ ?_ ?_
  · intro x hx
    exact F.exclusive_eq_false _ x fun he hu => (hq.unique hu).2 he hx
  · intro x hx
    exact F.exclusive_eq_false _ x fun he => absurd he hx
  · intro x hx
    exact F.exclusive_eq_false _ x fun he hu => hx he state hs (hq.unique hu).1
  intro Δ S L m hΔ hat
  refine ⟨state, ⟨hs, fun x hx header hh => ?_⟩, hat⟩
  rcases hloop x hx header hh with h1 | ⟨h1, h2⟩
  · exact Or.inl h1
  by_cases hm : x ∈ Δ
  · rcases hΔ x hm with hn | ⟨hb, hclear⟩
    · have := hF x hx _ _ hh hn
      cases this
    · have := hF x hx _ _ hh hb
      cases this
      exact Or.inl (hclear hx)
  · refine Or.inr ⟨h1, fun hmem => ?_⟩
    rcases List.mem_append.1 hmem with hmem | hmem
    · exact hm hmem
    · exact h2 hmem

/-- The same from the arrival at the block.  The names that the block's own loop binds are clear. -/
theorem quiet_rule {α : Type} {a₁ a₂ : Exec α} {post : α → Machine → Prop}
    (hF : F.Single) (hq : Quiet F.eligible xs operations)
    (h : ∀ X, Outside X xs → (∀ x, x ∉ F.eligible → X x = false) →
      (∀ x, (x, some b) ∈ F.headers → X x = false ∧ F.Clear b x) →
      (∀ Δ S L m, (∀ x ∈ Δ, (x, none) ∈ F.headers ∨ (x, some b) ∈ F.headers) →
        At (Δ ++ Γ) X S L m → F.Ready b operations (Δ ++ Γ) S L m) →
      Agrees Bad (At Γ X S L) a₁ a₂ post) :
    Agrees Bad (F.Arrive b Γ S L) a₁ a₂ post := by
  refine arrive_rule fun state hs hloop => ?_
  have hclear (x) : (x, some b) ∈ F.headers → F.Clear b x := by
    intro hb hx s hs'
    rw [hs] at hs'
    cases hs'
    rcases hloop x hx b hb with h1 | h1
    · exact h1 state hs
    · exact h1.1
  refine (ready_rule hF hq fun X h1 h2 h3 h4 => ?_).strengthen fun m hm => Flow.Arrive.ready ⟨state, ⟨hs, hloop⟩, hm⟩ hq
  exact h X h1 h2 (fun x hb => ⟨h3 x (hclear x hb), hclear x hb⟩) fun Δ S L m hΔ =>
    h4 Δ S L m fun x hx => (hΔ x hx).imp id fun hb => ⟨hb, hclear x hb⟩

/-! ## How a statement ends -/

/-- The block that a signal leads to. -/
def Targets.after (targets : Targets) : Signal → Option Nat
  | .next => some targets.next
  | .breakLoop => targets.breakTarget
  | .continueLoop => targets.continueTarget
  | .returned _ => none

/-- After a statement: its value is accounted for, and the run arrives where its signal leads. -/
structure Ends (F : Flow) (targets : Targets) (Γ : List String) (S : Nat → Prop) (L : Nat → Nat)
    (signal : Signal) (m : Machine) : Prop where
  counted : At Γ (fun _ => false) S (tally signal.handles + L) m
  arrives : ∀ t, targets.after signal = some t → F.Arrive t Γ S L m

theorem Ends.next {targets : Targets} (h : F.Ready b operations Γ S L m)
    (hp : F.Passes b operations targets.next) : Ends F targets Γ S L .next m := by
  refine ⟨?_, fun t ht => ?_⟩
  · obtain ⟨s, -, hat⟩ := h
    exact (hat.anti fun x hx => by cases hx).weaken fun g => by simp [Signal.handles]
  · cases ht
    exact h.pass hp

theorem Ends.returned {targets : Targets} {X : String → Bool} (v : Value)
    (h : At Γ X S (tally v.handles + L) m) : Ends F targets Γ S L (.returned v) m :=
  { counted := h.anti fun _ hx => (Bool.false_ne_true hx).elim
    arrives := fun _ ht => by cases ht }

theorem Ends.change {targets : Targets} {Γ' : List String} {K : Nat → Nat} {signal : Signal}
    {m' : Machine} (h : Ends F targets Γ S (K + L) signal m) (hΓ : ∀ x ∈ Γ', x ∈ Γ)
    (hm : ∀ X M, At Γ X S (K + M) m → At Γ' X S M m') : Ends F targets Γ' S L signal m' := by
  refine ⟨hm _ _ (h.counted.weaken fun g => ?_), fun t ht => ?_⟩
  · simp only [Pi.add_apply]
    omega
  · obtain ⟨s, ⟨hs, hloop⟩, hat⟩ := h.arrives t ht
    exact ⟨s, ⟨hs, hloop.mono (fun _ h => h) hΓ⟩, hm _ _ hat⟩

theorem leaveScope_ends {targets : Targets} {signal : Signal} (d : Nat) (hd : d = Γ.length) :
    Agrees Bad (Ends F targets (Δ ++ Γ) S L signal) (leaveScope d) (leaveScope d)
      fun _ => Ends F targets Γ S L signal := by
  refine Agrees.self fun m hm => ?_
  have hm' : Ends F targets (Δ ++ Γ) S (0 + L) signal m := by simpa using hm
  refine hm'.change (fun x hx => List.mem_append_right _ hx) fun X M hat => ?_
  have hat' : At (Δ ++ Γ) X S M m := by simpa using hat
  exact (leaveScope_spec d hd).post m () _ hat' rfl

theorem discard_ends {targets : Targets} {signal : Signal} (v : Value) :
    Agrees Bad (Ends F targets Γ S (tally v.handles + L) signal) (discard v) (discard v)
      fun _ => Ends F targets Γ S L signal :=
  Agrees.self fun _ hm => hm.change (fun _ h => h) fun _ _ hat => hat.release v.handles

end Nomo.Mir
