import Nomo.Lib.Checked

/-!
# Attempts on a state

A computation that changes a state and may stop with a message.  What it changed before it stopped
stays changed: files written before an error remain on the disk.

`Gives` is the successful run, with one lemma for each way to build an attempt, so that a successful
run of a sequence comes apart into successful runs of its parts.
-/

namespace Nomo.Lib

open Checked

universe u

/-- A computation on a state: a result or a message, and the state it leaves. -/
def Attempt (σ : Type u) (α : Type u) := σ → Except String α × σ

namespace Attempt

variable {σ α β : Type u}

instance : Monad (Attempt σ) where
  pure a := fun s => (.ok a, s)
  bind x f := fun s =>
    match x s with
    | (.ok a, s') => f a s'
    | (.error message, s') => (.error message, s')

/-- Stop with a message. -/
def fail (message : String) : Attempt σ α := fun s => (.error message, s)

/-- A computation that leaves the state as it is. -/
def lift (x : Except String α) : Attempt σ α := fun s => (x, s)

/-- Read something off the state. -/
def read (f : σ → α) : Attempt σ α := fun s => (.ok (f s), s)

/-- Change the state. -/
def update (f : σ → σ) : Attempt σ PUnit := fun s => (.ok ⟨⟩, f s)

/-- An attempt on a part of the state. -/
def within {τ : Type u} (get : σ → τ) (set : τ → σ → σ) (x : Attempt τ α) : Attempt σ α := fun s =>
  ((x (get s)).1, set (x (get s)).2 s)

/-- From a state, an attempt succeeds with a value and leaves a state. -/
def Gives (x : Attempt σ α) (s : σ) (a : α) (s' : σ) : Prop := x s = (.ok a, s')

variable {x : Attempt σ α} {f : α → Attempt σ β} {s : σ}

theorem bind_gives {s'' : σ} {b : β} :
    (x >>= f).Gives s b s'' ↔ ∃ a s', x.Gives s a s' ∧ (f a).Gives s' b s'' := by
  show (match x s with
    | (.ok a, s') => f a s'
    | (.error message, s') => (.error message, s')) = (.ok b, s'') ↔ _
  unfold Gives
  rcases hx : x s with ⟨a | a, s'⟩
  · simp
  constructor
  · intro h
    exact ⟨a, s', rfl, h⟩
  · rintro ⟨a', s₁, h, hf⟩
    obtain ⟨rfl, rfl⟩ : a = a' ∧ s' = s₁ := by simpa using h
    exact hf

variable {s' : σ} {a : α}

@[simp] theorem pure_gives {b : α} :
    (pure a : Attempt σ α).Gives s b s' ↔ a = b ∧ s = s' := by
  show ((.ok a, s) : Except String α × σ) = (.ok b, s') ↔ _
  simp

@[simp] theorem fail_gives {message : String} :
    ¬ (fail message : Attempt σ α).Gives s a s' := by
  show ¬ ((.error message, s) : Except String α × σ) = (.ok a, s')
  simp

@[simp] theorem lift_gives {x : Except String α} :
    (lift x : Attempt σ α).Gives s a s' ↔ x = .ok a ∧ s = s' := by
  show (x, s) = (.ok a, s') ↔ _
  simp

@[simp] theorem read_gives {f : σ → α} :
    (read f).Gives s a s' ↔ f s = a ∧ s = s' := by
  show ((.ok (f s), s) : Except String α × σ) = (.ok a, s') ↔ _
  simp

@[simp] theorem update_gives {f : σ → σ} {a : PUnit} :
    (update f).Gives s a s' ↔ f s = s' := by
  show ((.ok ⟨⟩, f s) : Except String PUnit × σ) = (.ok a, s') ↔ _
  simp

theorem within_gives {τ : Type u} {get : σ → τ} {set : τ → σ → σ} {x : Attempt τ α} :
    (within get set x).Gives s a s' ↔ ∃ t, x.Gives (get s) a t ∧ set t s = s' := by
  show ((x (get s)).1, set (x (get s)).2 s) = (.ok a, s') ↔ ∃ t, x (get s) = (.ok a, t) ∧ set t s = s'
  rcases x (get s) with ⟨b, t⟩
  simp only [Prod.mk.injEq]
  constructor
  · rintro ⟨rfl, rfl⟩
    exact ⟨t, ⟨rfl, rfl⟩, rfl⟩
  · rintro ⟨t', ⟨rfl, rfl⟩, rfl⟩
    exact ⟨rfl, rfl⟩

/-! ## Whatever comes of it -/

theorem bind_apply_of_ok (h : x s = (.ok a, s')) : (x >>= f) s = f a s' := by
  show (match x s with
    | (.ok a, s') => f a s'
    | (.error message, s') => (.error message, s')) = f a s'
  rw [h]

theorem bind_apply_of_error {message : String} (h : x s = (.error message, s')) :
    (x >>= f) s = (.error message, s') := by
  show (match x s with
    | (.ok a, s') => f a s'
    | (.error message, s') => (.error message, s')) = (.error message, s')
  rw [h]

/-- Whether it succeeds or stops, the attempt keeps a property of the state. -/
def Keeps (P : σ → Prop) (x : Attempt σ α) : Prop := ∀ s, P s → P (x s).2

variable {P : σ → Prop}

theorem keeps_bind (hx : Keeps P x) (hf : ∀ a, Keeps P (f a)) :
    Keeps P (x >>= f) := by
  intro s hs
  have h := hx s hs
  rcases hrun : x s with ⟨message | a, s'⟩
  · rw [bind_apply_of_error hrun]
    rwa [hrun] at h
  · rw [bind_apply_of_ok hrun]
    rw [hrun] at h
    exact hf a s' h

theorem keeps_lift (x : Except String α) : Keeps P (lift x) := fun _ h => h

theorem keeps_read (f : σ → α) : Keeps P (read f) := fun _ h => h

theorem keeps_pure (a : α) : Keeps P (pure a) := fun _ h => h

theorem keeps_lift_bind {x : Except String α} (hf : ∀ a, x = .ok a → Keeps P (f a)) :
    Keeps P (lift x >>= f) := by
  cases x with
  | error message => exact fun _ h => h
  | ok a => exact hf a rfl

end Attempt

end Nomo.Lib
