import Nomo.Lib.Attempt

/-!
# Pre- and postconditions of attempts

`Ends x Q E s`: started in `s`, the attempt `x` either succeeds, with a value and a state for which
`Q` holds, or stops, in a state for which `E` holds. It is a weakest precondition, with one simp
lemma for each way to build an attempt, so that a sequence is proved step by step from the front.
-/

namespace Nomo.Lib.Attempt

universe u

variable {σ α β γ : Type u}

/-- From `s`, success is followed by `Q` and a stop by `E`. -/
def Ends (x : Attempt σ α) (Q : α → σ → Prop) (E : σ → Prop) (s : σ) : Prop :=
  match x s with
  | (.ok a, s') => Q a s'
  | (.error _, s') => E s'

variable {Q Q' : α → σ → Prop} {E E' : σ → Prop} {s : σ}

variable {x : Attempt σ α}

theorem Ends.mono (h : Ends x Q E s) (hQ : ∀ a s', Q a s' → Q' a s') (hE : ∀ s', E s' → E' s') :
    Ends x Q' E' s := by
  unfold Ends at h ⊢
  rcases hx : x s with ⟨a | a, s'⟩
  · rw [hx] at h
    exact hE s' h
  · rw [hx] at h
    exact hQ a s' h

theorem ends_of_gives (hQ : ∀ a s', x.Gives s a s' → Q a s') (hE : E (x s).2) : Ends x Q E s := by
  unfold Ends
  rcases hx : x s with ⟨a | a, s'⟩
  · rw [hx] at hE
    exact hE
  · exact hQ a s' hx

theorem Ends.of_gives {a : α} {s' : σ} (h : Ends x Q E s) (hx : x.Gives s a s') : Q a s' := by
  unfold Ends at h
  rw [show x s = (.ok a, s') from hx] at h
  exact h

theorem Ends.state {P : σ → Prop} (h : Ends x (fun _ => P) P s) :
    P (x s).2 := by
  unfold Ends at h
  rcases hx : x s with ⟨a | a, s'⟩ <;> rw [hx] at h <;> exact h

variable {f : α → Attempt σ β}

@[simp] theorem ends_bind {Q : β → σ → Prop} :
    Ends (x >>= f) Q E s ↔ Ends x (fun a s' => Ends (f a) Q E s') E s := by
  have hbind : (x >>= f) s = match x s with
      | (.ok a, s') => f a s'
      | (.error message, s') => (.error message, s') := rfl
  unfold Ends
  rw [hbind]
  rcases x s with ⟨a | a, s'⟩ <;> rfl

@[simp] theorem ends_pure {a : α} : Ends (pure a : Attempt σ α) Q E s ↔ Q a s := Iff.rfl

@[simp] theorem ends_map {f : α → β} {Q : β → σ → Prop} :
    Ends (f <$> x) Q E s ↔ Ends x (fun a s' => Q (f a) s') E s := by
  have hmap : f <$> x = x >>= fun a => pure (f a) := rfl
  rw [hmap, ends_bind]
  rfl

@[simp] theorem ends_fail {message : String} :
    Ends (fail message : Attempt σ α) Q E s ↔ E s := Iff.rfl

@[simp] theorem ends_lift {x : Except String α} :
    Ends (lift x) Q E s ↔ (∀ a, x = .ok a → Q a s) ∧ (∀ message, x = .error message → E s) := by
  cases x <;> simp [Ends, lift]

@[simp] theorem ends_read {f : σ → α} : Ends (read f) Q E s ↔ Q (f s) s := Iff.rfl

@[simp] theorem ends_update {f : σ → σ} {Q : PUnit → σ → Prop} :
    Ends (update f) Q E s ↔ Q ⟨⟩ (f s) := Iff.rfl

theorem ends_within {τ : Type u} {get : σ → τ} {set : τ → σ → σ} {x : Attempt τ α}
    (hQ : ∀ a t, x.Gives (get s) a t → Q a (set t s)) (hE : ∀ t, E (set t s)) :
    Ends (within get set x) Q E s := by
  unfold Ends within
  rcases hx : x (get s) with ⟨a | a, t⟩
  · exact hE t
  · exact hQ a t hx

/-- Change the message of a stop. -/
def mapError (f : String → String) (x : Attempt σ α) : Attempt σ α := fun s =>
  ((x s).1.mapError f, (x s).2)

/-- Do something for every entry of a list, and collect the results. -/
def collect (f : α → Attempt σ β) : List α → Attempt σ (List β)
  | [] => pure []
  | a :: as => do
    let b ← f a
    let bs ← collect f as
    return b :: bs

/-- **The rule for a loop**: every round keeps `P`, brings about `R` of its entry, and keeps what
earlier rounds brought about. -/
theorem ends_collect {P : σ → Prop} {R : α → σ → Prop} {as : List α}
    (h : ∀ a ∈ as, ∀ s, P s → Ends (f a) (fun _ s' => P s' ∧ R a s' ∧ ∀ a', R a' s → R a' s') E s)
    (hs : P s) :
    Ends (collect f as) (fun _ s' => P s' ∧ (∀ a ∈ as, R a s') ∧ ∀ a', R a' s → R a' s') E s := by
  induction as generalizing s with
  | nil => exact ⟨hs, by simp, fun _ h => h⟩
  | cons a as ih =>
    simp only [collect, ends_bind, ends_pure]
    refine (h a (List.mem_cons_self ..) s hs).mono ?_ fun _ hE => hE
    rintro b s' ⟨hs', ha, hkeep⟩
    refine (ih (fun a ha => h a (List.mem_cons_of_mem _ ha)) hs').mono ?_ fun _ hE => hE
    rintro bs s'' ⟨hs'', has, hkeep'⟩
    exact ⟨hs'', List.forall_mem_cons.mpr ⟨hkeep' a ha, has⟩, fun a' h => hkeep' a' (hkeep a' h)⟩

theorem ends_collect_keeps {P : σ → Prop} {as : List α}
    (h : ∀ a ∈ as, ∀ s, P s → Ends (f a) (fun _ => P) E s) (hs : P s) :
    Ends (collect f as) (fun _ => P) E s := by
  refine (ends_collect (R := fun _ _ => True) ?_ hs).mono (fun _ _ h => h.1) fun _ hE => hE
  intro a ha s hs
  exact (h a ha s hs).mono (fun _ _ h => ⟨h, trivial, fun _ h => h⟩) fun _ hE => hE

/-! ## What is known of results

Often a state does not matter, and only the results of the successful runs do. -/

/-- Whatever it starts in, what an attempt gives satisfies `P`. -/
def Yields (x : Attempt σ α) (P : α → Prop) : Prop := ∀ s, Ends x (fun a _ => P a) (fun _ => True) s

variable {P : α → Prop}

theorem Yields.of_gives {a : α} {s' : σ} (h : Yields x P) (hx : x.Gives s a s') : P a :=
  (h s).of_gives hx

theorem yields_true : Yields x fun _ => True :=
  fun _ => ends_of_gives (fun _ _ _ => trivial) trivial

theorem yields_pure {a : α} (h : P a) : Yields (pure a : Attempt σ α) P :=
  fun _ => ends_pure.mpr h

theorem yields_fail {message : String} : Yields (fail message : Attempt σ α) P :=
  fun _ => ends_fail.mpr trivial

theorem Yields.bind {Q : β → Prop} (hx : Yields x P) (hf : ∀ a, P a → Yields (f a) Q) :
    Yields (x >>= f) Q := by
  intro s
  rw [ends_bind]
  exact (hx s).mono (fun a s' ha => hf a ha s') fun _ hE => hE

theorem yields_bind {Q : β → Prop} (hf : ∀ a, Yields (f a) Q) : Yields (x >>= f) Q :=
  yields_true.bind fun a _ => hf a

theorem yields_collect {R : β → Prop} {as : List α} (h : ∀ a ∈ as, Yields (f a) R) :
    Yields (collect f as) fun bs => ∀ b ∈ bs, R b := by
  induction as with
  | nil => exact yields_pure (by simp)
  | cons a as ih =>
    refine (h a (List.mem_cons_self ..)).bind fun b hb => ?_
    refine (ih fun a ha => h a (List.mem_cons_of_mem _ ha)).bind fun bs hbs => ?_
    exact yields_pure (List.forall_mem_cons.mpr ⟨hb, hbs⟩)

end Nomo.Lib.Attempt
