import Mathlib

/-!
# Checks that must all pass

Validation code is a sequence of checks, each of which stops the whole with a message.  `require` is
one check; the lemmas below turn "the whole sequence passed" into the conjunction of what was
checked, so that proofs about accepted inputs never unfold the sequence.
-/

namespace Nomo.Lib.Checked

universe u v

/-- Go on if a condition holds, stop with a message otherwise. -/
def require (p : Prop) [Decidable p] (message : String) : Except String Unit :=
  if p then .ok () else .error message

variable {α : Type u} {β : Type u}

section

-- The equations of these definitions are generated once, before the proofs that need them.
attribute [local simp] require Except.mapError

end

@[simp] theorem require_eq_ok {p : Prop} [Decidable p] {message : String} {u : Unit} :
    require p message = .ok u ↔ p := by
  unfold require
  split_ifs with h <;> simp [h]

@[simp] theorem bind_eq_ok {x : Except String α} {f : α → Except String β} {b : β} :
    (x >>= f) = .ok b ↔ ∃ a, x = .ok a ∧ f a = .ok b := by
  cases x with
  | ok a =>
    show f a = .ok b ↔ _
    simp
  | error message =>
    show Except.error message = .ok b ↔ _
    simp

@[simp] theorem map_eq_ok {x : Except String α} {f : α → β} {b : β} :
    (f <$> x) = .ok b ↔ ∃ a, x = .ok a ∧ f a = b := by
  cases x with
  | ok a =>
    show Except.ok (f a) = .ok b ↔ _
    simp
  | error message =>
    show Except.error message = .ok b ↔ _
    simp

@[simp] theorem pure_eq_ok {a b : α} : (pure a : Except String α) = .ok b ↔ a = b := by
  show Except.ok a = .ok b ↔ _
  simp

@[simp] theorem throw_ne_ok {message : String} {a : α} :
    ¬ (throw message : Except String α) = .ok a := by
  show ¬ Except.error message = .ok a
  simp

@[simp] theorem mapError_eq_ok {x : Except String α} {f : String → String} {a : α} :
    x.mapError f = .ok a ↔ x = .ok a := by
  cases x <;> simp [Except.mapError]

/-- An optional value, or a message. -/
def orElse (x : Option α) (message : String) : Except String α :=
  match x with
  | some a => .ok a
  | none => .error message

@[simp] theorem orElse_eq_ok {x : Option α} {message : String} {a : α} :
    orElse x message = .ok a ↔ x = some a := by
  cases x <;> simp [orElse]

/-- A check of every entry of a list. -/
def each (f : α → Except String Unit) : List α → Except String Unit
  | [] => .ok ()
  | a :: as =>
    match f a with
    | .ok _ => each f as
    | .error message => .error message

@[simp] theorem each_eq_ok {f : α → Except String Unit} {as : List α} {u : Unit} :
    each f as = .ok u ↔ ∀ a ∈ as, f a = .ok () := by
  induction as with
  | nil => simp [each]
  | cons a as ih =>
    unfold each
    cases h : f a with
    | ok u => simp [ih, h]
    | error message => simp [h]

/-- Convert every entry of a list. -/
def collect {γ : Type v} (f : γ → Except String α) : List γ → Except String (List α)
  | [] => .ok []
  | c :: cs =>
    match f c with
    | .ok a => (collect f cs).map (a :: ·)
    | .error message => .error message

theorem collect_eq_ok {γ : Type v} {f : γ → Except String α} {g : γ → α} {cs : List γ}
    (h : ∀ c ∈ cs, f c = .ok (g c)) : collect f cs = .ok (cs.map g) := by
  induction cs with
  | nil => rfl
  | cons c cs ih =>
    unfold collect
    rw [h c (List.mem_cons_self ..), ih fun c hc => h c (List.mem_cons_of_mem _ hc)]
    rfl

theorem collect_eq_ok_iff {γ : Type v} {f : γ → Except String α} {cs : List γ} {as : List α} :
    collect f cs = .ok as ↔ List.Forall₂ (fun c a => f c = .ok a) cs as := by
  induction cs generalizing as with
  | nil => simp [collect, eq_comm]
  | cons c cs ih =>
    unfold collect
    rw [List.forall₂_cons_left_iff]
    cases hc : f c with
    | error message => simp
    | ok a =>
      cases hcs : collect f cs with
      | error message => simp [Except.map, ← ih, hcs]
      | ok as' => simp [Except.map, ← ih, hcs, eq_comm]

theorem exists_of_mem_collect {γ : Type v} {f : γ → Except String α} {cs : List γ} {as : List α}
    {a : α} (h : collect f cs = .ok as) (ha : a ∈ as) : ∃ c ∈ cs, f c = .ok a := by
  rw [collect_eq_ok_iff] at h
  induction h with
  | nil => cases ha
  | @cons c b cs as hc _ ih =>
    rcases List.mem_cons.1 ha with rfl | ha
    · exact ⟨c, List.mem_cons_self, hc⟩
    · obtain ⟨c', hc', hf⟩ := ih ha
      exact ⟨c', List.mem_cons_of_mem c hc', hf⟩

end Nomo.Lib.Checked
