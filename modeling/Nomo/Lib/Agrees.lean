import Mathlib

/-!
# Two computations that agree

A relational Hoare rule set for state-and-exception computations.  `Agrees bad pre m₁ m₂ post`
says that from every state in `pre` the two computations do exactly the same, that they never stop
with a `bad` exception, and that a value they return satisfies `post` in the state they leave.
Because the two sides do the same, one postcondition serves both, and a proof that an optimised
program agrees with the plain one carries its invariant along in the same induction.
-/

namespace Nomo.Lib

universe u v

variable {ε σ α β : Type u} {bad : ε → Prop} {pre : σ → Prop}

/-- `m₁` and `m₂` do the same from `pre`, never stop with a `bad` exception, and establish `post`. -/
structure Agrees (bad : ε → Prop) (pre : σ → Prop) (m₁ m₂ : EStateM ε σ α)
    (post : α → σ → Prop) : Prop where
  same : ∀ s, pre s → m₁ s = m₂ s
  safe : ∀ s e s', pre s → m₂ s = .error e s' → ¬ bad e
  post : ∀ s a s', pre s → m₂ s = .ok a s' → post a s'

namespace Agrees

variable {post : α → σ → Prop}

theorem pure (a : α) (h : ∀ s, pre s → post a s) :
    Agrees bad pre (Pure.pure a) (Pure.pure a) post where
  same _ _ := rfl
  safe s e s' _ heq := by cases heq
  post s b s' hs heq := by
    cases heq
    exact h s hs

theorem throw (e : ε) (h : ¬ bad e) :
    Agrees bad pre (MonadExcept.throw e) (MonadExcept.throw e) post where
  same _ _ := rfl
  safe s e' s' _ heq := by
    cases heq
    exact h
  post s b s' _ heq := by cases heq

variable {m₁ m₂ : EStateM ε σ α}

theorem bind {f₁ f₂ : α → EStateM ε σ β} {Q : α → σ → Prop} {post : β → σ → Prop}
    (hm : Agrees bad pre m₁ m₂ Q) (hf : ∀ a, Agrees bad (Q a) (f₁ a) (f₂ a) post) :
    Agrees bad pre (m₁ >>= f₁) (m₂ >>= f₂) post where
  same s hs := by
    show EStateM.bind m₁ f₁ s = EStateM.bind m₂ f₂ s
    unfold EStateM.bind
    rw [hm.same s hs]
    cases h : m₂ s with
    | ok a s' => exact (hf a).same s' (hm.post s a s' hs h)
    | error e s' => rfl
  safe s e s' hs heq := by
    replace heq : EStateM.bind m₂ f₂ s = .error e s' := heq
    unfold EStateM.bind at heq
    cases h : m₂ s with
    | ok a t =>
      rw [h] at heq
      exact (hf a).safe t e s' (hm.post s a t hs h) heq
    | error e' t =>
      rw [h] at heq
      cases heq
      exact hm.safe s e s' hs h
  post s b s' hs heq := by
    replace heq : EStateM.bind m₂ f₂ s = .ok b s' := heq
    unfold EStateM.bind at heq
    cases h : m₂ s with
    | ok a t =>
      rw [h] at heq
      exact (hf a).post t b s' (hm.post s a t hs h) heq
    | error e' t =>
      rw [h] at heq
      cases heq

theorem weaken {pre' : σ → Prop} {post' : α → σ → Prop} (h : Agrees bad pre m₁ m₂ post)
    (hpre : ∀ s, pre' s → pre s) (hpost : ∀ a s, post a s → post' a s) :
    Agrees bad pre' m₁ m₂ post' where
  same s hs := h.same s (hpre s hs)
  safe s e s' hs heq := h.safe s e s' (hpre s hs) heq
  post s a s' hs heq := hpost a s' (h.post s a s' (hpre s hs) heq)

theorem strengthen {pre' : σ → Prop} (h : Agrees bad pre m₁ m₂ post) (hpre : ∀ s, pre' s → pre s) :
    Agrees bad pre' m₁ m₂ post :=
  h.weaken hpre fun _ _ hs => hs

theorem imp {post' : α → σ → Prop} (h : Agrees bad pre m₁ m₂ post)
    (hpost : ∀ a s, post a s → post' a s) :
    Agrees bad pre m₁ m₂ post' :=
  h.weaken (fun _ hs => hs) hpost

theorem forState (h : ∀ s₀, pre s₀ → Agrees bad (fun s => s = s₀) m₁ m₂ post) :
    Agrees bad pre m₁ m₂ post where
  same s hs := (h s hs).same s rfl
  safe s e s' hs heq := (h s hs).safe s e s' rfl heq
  post s a s' hs heq := (h s hs).post s a s' rfl heq

theorem fact {P : Prop} (h : P → Agrees bad pre m₁ m₂ post) :
    Agrees bad (fun s => P ∧ pre s) m₁ m₂ post where
  same s hs := (h hs.1).same s hs.2
  safe s e s' hs heq := (h hs.1).safe s e s' hs.2 heq
  post s a s' hs heq := (h hs.1).post s a s' hs.2 heq

theorem ofExists {ι : Sort v} {pre : ι → σ → Prop} (h : ∀ i, Agrees bad (pre i) m₁ m₂ post) :
    Agrees bad (fun s => ∃ i, pre i s) m₁ m₂ post where
  same s := fun ⟨i, hs⟩ => (h i).same s hs
  safe s e s' := fun ⟨i, hs⟩ heq => (h i).safe s e s' hs heq
  post s a s' := fun ⟨i, hs⟩ heq => (h i).post s a s' hs heq

theorem also {P : α → Prop} (h : Agrees bad pre m₁ m₂ post) (hP : ∀ s a s', m₂ s = .ok a s' → P a) :
    Agrees bad pre m₁ m₂ fun a s => P a ∧ post a s where
  same := h.same
  safe := h.safe
  post s a s' hs heq := ⟨hP s a s' heq, h.post s a s' hs heq⟩

theorem self {m : EStateM ε σ α}
    (h : ∀ s, pre s → match m s with | .ok a s' => post a s' | .error e _ => ¬ bad e) :
    Agrees bad pre m m post where
  same _ _ := rfl
  safe s e s' hs heq := by
    have := h s hs
    rwa [heq] at this
  post s a s' hs heq := by
    have := h s hs
    rwa [heq] at this

end Agrees

end Nomo.Lib
