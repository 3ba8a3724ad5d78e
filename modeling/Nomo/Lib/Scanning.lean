import Mathlib

/-!
# Scanning loops and their comparison

`iterate` repeats a step that may fail until it is done. The steps of a scanner make what is left
smaller; a step that does not ends the loop with an error, so that every loop ends.

`SameUnless` compares two computations that may fail: they are both done with related results, or fail
with the same error, but for a condition under which both fail with different errors. The condition of
a sequence and of a loop is made from those of the parts: a loop differs when it comes to a state
whose step does (`Comes`).
-/

namespace Nomo.Lib.Scanning

variable {σ τ α β γ δ ε : Type}

/-! ## Sequences -/

theorem bind_eq_ok {x : Except ε α} {f : α → Except ε β} {b : β} :
    (x >>= f) = .ok b ↔ ∃ a, x = .ok a ∧ f a = .ok b := by
  cases x with
  | error error =>
    constructor
    · intro h
      cases h
    · rintro ⟨a, ha, -⟩
      cases ha
  | ok a =>
    constructor
    · exact fun h => ⟨a, rfl, h⟩
    · rintro ⟨a', ha, h⟩
      cases ha
      exact h

/-! ## Loops -/

/-- Repeat a step until it is done. -/
def iterate (size : σ → ℕ) (step : σ → Except ε (σ ⊕ α)) (stuck : σ → ε) (state : σ) : Except ε α :=
  match step state with
  | .error error => .error error
  | .ok (.inr result) => .ok result
  | .ok (.inl next) =>
    if size next < size state then iterate size step stuck next else .error (stuck state)
termination_by size state

section

variable {size : σ → ℕ} {step : σ → Except ε (σ ⊕ α)} {stuck : σ → ε} {state : σ}

theorem iterate_of_error {error : ε} (h : step state = .error error) :
    iterate size step stuck state = .error error := by
  rw [iterate, h]

theorem iterate_of_done {result : α} (h : step state = .ok (.inr result)) :
    iterate size step stuck state = .ok result := by
  rw [iterate, h]

theorem iterate_of_next {next : σ} (h : step state = .ok (.inl next)) (hsize : size next < size state) :
    iterate size step stuck state = iterate size step stuck next := by
  rw [iterate, h]
  exact if_pos hsize

/-- What every step keeps until it is done, and what holds then, holds of the result. -/
theorem iterate_ok (motive : σ → Prop) (done : α → Prop)
    (hnext : ∀ state next, motive state → step state = .ok (.inl next) → motive next)
    (hdone : ∀ state result, motive state → step state = .ok (.inr result) → done result)
    {result : α} (h : iterate size step stuck state = .ok result) (hstate : motive state) :
    done result := by
  induction state using iterate.induct size step with
  | case1 state error herror =>
    rw [iterate_of_error herror] at h
    cases h
  | case2 state result' hresult =>
    rw [iterate_of_done hresult] at h
    cases h
    exact hdone state _ hstate hresult
  | case3 state next hstep hsize ih =>
    rw [iterate_of_next hstep hsize] at h
    exact ih h (hnext state next hstate hstep)
  | case4 state next hstep hsize =>
    rw [iterate, hstep] at h
    simp only [if_neg hsize] at h
    cases h

/-- What every step keeps while it makes the state smaller, and what every end has from it, holds of the
end of the loop. -/
theorem iterate_ends (motive : σ → Prop) (post : Except ε α → Prop)
    (hnext : ∀ state next, motive state → step state = .ok (.inl next) →
      motive next ∧ size next < size state)
    (herror : ∀ state error, motive state → step state = .error error → post (.error error))
    (hdone : ∀ state result, motive state → step state = .ok (.inr result) → post (.ok result))
    (hstate : motive state) : post (iterate size step stuck state) := by
  induction state using iterate.induct size step with
  | case1 state error h =>
    rw [iterate_of_error h]
    exact herror state error hstate h
  | case2 state result h =>
    rw [iterate_of_done h]
    exact hdone state result hstate h
  | case3 state next h hsize ih =>
    rw [iterate_of_next h hsize]
    exact ih (hnext state next hstate h).1
  | case4 state next h hsize => exact absurd (hnext state next hstate h).2 hsize

end

/-- The loop comes to a state with a property. -/
inductive Comes (step : σ → Except ε (σ ⊕ α)) (property : σ → Prop) : σ → Prop
  | here {state : σ} : property state → Comes step property state
  | later {state next : σ} : step state = .ok (.inl next) → Comes step property next →
      Comes step property state

theorem comes_iff {step : σ → Except ε (σ ⊕ α)} {property : σ → Prop} {state : σ} :
    Comes step property state ↔
      property state ∨ ∃ next, step state = .ok (.inl next) ∧ Comes step property next := by
  constructor
  · rintro (h | ⟨hstep, h⟩)
    · exact .inl h
    · exact .inr ⟨_, hstep, h⟩
  · rintro (h | ⟨next, hstep, h⟩)
    · exact .here h
    · exact .later hstep h

/-! ## Comparing computations -/

/-- Both are done with related results or fail with the same error, unless both fail with different
errors. -/
structure SameUnless (differ : Prop) (related : α → β → Prop) (x : Except ε α) (y : Except ε β) :
    Prop where
  same : ¬ differ → (∃ a b, x = .ok a ∧ y = .ok b ∧ related a b) ∨ ∃ e, x = .error e ∧ y = .error e
  differs : differ → ∃ e e', x = .error e ∧ y = .error e' ∧ e ≠ e'

namespace SameUnless

variable {differ differ' : Prop} {related : α → β → Prop} {x : Except ε α} {y : Except ε β}

theorem of_iff (h : SameUnless differ related x y) (hiff : differ' ↔ differ) :
    SameUnless differ' related x y :=
  ⟨fun hnot => h.same (mt hiff.mpr hnot), fun hdiffer => h.differs (hiff.mp hdiffer)⟩

theorem ok {a : α} {b : β} (h : related a b) :
    SameUnless False related (.ok a : Except ε α) (.ok b : Except ε β) :=
  ⟨fun _ => .inl ⟨a, b, rfl, rfl, h⟩, nofun⟩

theorem error (e : ε) : SameUnless False related (.error e) (.error e) :=
  ⟨fun _ => .inr ⟨e, rfl, rfl⟩, nofun⟩

theorem different {e e' : ε} (h : e ≠ e') : SameUnless True related (.error e) (.error e') :=
  ⟨fun hnot => absurd trivial hnot, fun _ => ⟨e, e', rfl, rfl, h⟩⟩

theorem refl (x : Except ε α) : SameUnless False Eq x x := by
  cases x with
  | error e => exact error e
  | ok a => exact ok rfl

theorem mono {related' : α → β → Prop} (h : SameUnless differ related x y)
    (hrelated : ∀ a b, x = .ok a → y = .ok b → related a b → related' a b) :
    SameUnless differ related' x y := by
  refine ⟨fun hnot => ?_, h.differs⟩
  rcases h.same hnot with ⟨a, b, rfl, rfl, hab⟩ | herror
  · exact .inl ⟨a, b, rfl, rfl, hrelated a b rfl rfl hab⟩
  · exact .inr herror

theorem bind {f : α → Except ε γ} {g : β → Except ε δ} {rest : α → Prop} {related' : γ → δ → Prop}
    (h : SameUnless differ related x y)
    (hrest : ∀ a b, x = .ok a → y = .ok b → related a b → SameUnless (rest a) related' (f a) (g b)) :
    SameUnless (differ ∨ ∃ a, x = .ok a ∧ rest a) related' (x >>= f) (y >>= g) := by
  by_cases hdiffer : differ
  · obtain ⟨e, e', rfl, rfl, hne⟩ := h.differs hdiffer
    exact (different hne).of_iff (by simp [hdiffer])
  · rcases h.same hdiffer with ⟨a, b, rfl, rfl, hab⟩ | ⟨e, rfl, rfl⟩
    · exact (hrest a b rfl rfl hab).of_iff (by simp [hdiffer])
    · exact (error e).of_iff (by simp [hdiffer])

theorem map {f : α → γ} {g : β → δ} {related' : γ → δ → Prop} (h : SameUnless differ related x y)
    (hrelated : ∀ a b, related a b → related' (f a) (g b)) :
    SameUnless differ related' (x >>= fun a => .ok (f a)) (y >>= fun b => .ok (g b)) := by
  have hrest : ∀ a b, x = .ok a → y = .ok b → related a b →
      SameUnless False related' (.ok (f a) : Except ε γ) (.ok (g b)) :=
    fun a b _ _ hab => ok (hrelated a b hab)
  exact (h.bind hrest).of_iff (by simp)

/-- Two loops over related states differ when they come to states whose steps do. -/
theorem iterate {size : σ → ℕ} {size' : τ → ℕ} {step : σ → Except ε (σ ⊕ α)}
    {step' : τ → Except ε (τ ⊕ β)} {stuck : σ → ε} {stuck' : τ → ε} {differs : σ → Prop}
    {states : σ → τ → Prop}
    (hstep : ∀ s t, states s t →
      SameUnless (differs s) (Sum.LiftRel states related) (step s) (step' t))
    (hsize : ∀ s t next, states s t → step s = .ok (.inl next) → size next < size s)
    (hsizes : ∀ s t, states s t → size' t = size s) {s : σ} {t : τ} (h : states s t) :
    SameUnless (Comes step differs s) related (Scanning.iterate size step stuck s)
      (Scanning.iterate size' step' stuck' t) := by
  induction s using Scanning.iterate.induct size step generalizing t with
  | case1 s error herror =>
    have hfirst := hstep s t h
    rw [iterate_of_error herror]
    by_cases hdiffers : differs s
    · obtain ⟨e, e', hs, ht, hne⟩ := hfirst.differs hdiffers
      obtain rfl := Except.error.inj (herror.symm.trans hs)
      rw [iterate_of_error ht]
      exact (different hne).of_iff (iff_true_intro (.here hdiffers))
    rcases hfirst.same hdiffers with ⟨a, b, hs, -, -⟩ | ⟨e, hs, ht⟩
    · cases herror.symm.trans hs
    obtain rfl := Except.error.inj (herror.symm.trans hs)
    rw [iterate_of_error ht]
    refine (SameUnless.error _).of_iff (iff_false_intro ?_)
    rw [comes_iff]
    rintro (hhere | ⟨next, hnext, -⟩)
    · exact hdiffers hhere
    · cases herror.symm.trans hnext
  | case2 s result hresult =>
    have hfirst := hstep s t h
    have hdiffers : ¬ differs s := by
      intro hdiffers
      obtain ⟨e, e', hs, -, -⟩ := hfirst.differs hdiffers
      cases hresult.symm.trans hs
    rcases hfirst.same hdiffers with ⟨a, b, hs, ht, hab⟩ | ⟨e, hs, -⟩
    · obtain rfl := Except.ok.inj (hresult.symm.trans hs)
      rw [iterate_of_done hresult]
      cases hab with
      | inr hresults =>
        rw [iterate_of_done ht]
        refine (SameUnless.ok hresults).of_iff (iff_false_intro ?_)
        rw [comes_iff]
        rintro (hhere | ⟨next, hnext, -⟩)
        · exact hdiffers hhere
        · cases hresult.symm.trans hnext
    · cases hresult.symm.trans hs
  | case3 s next hnext hsmaller ih =>
    have hfirst := hstep s t h
    have hdiffers : ¬ differs s := by
      intro hdiffers
      obtain ⟨e, e', hs, -, -⟩ := hfirst.differs hdiffers
      cases hnext.symm.trans hs
    rcases hfirst.same hdiffers with ⟨a, b, hs, ht, hab⟩ | ⟨e, hs, -⟩
    · obtain rfl := Except.ok.inj (hnext.symm.trans hs)
      cases hab with
      | inl hstates =>
        have hsmaller' := hsmaller
        rw [← hsizes s t h, ← hsizes next _ hstates] at hsmaller'
        rw [iterate_of_next hnext hsmaller, iterate_of_next ht hsmaller']
        refine (ih hstates).of_iff ?_
        rw [comes_iff]
        constructor
        · rintro (hhere | ⟨next', hnext', hcomes⟩)
          · exact absurd hhere hdiffers
          · cases Except.ok.inj (hnext.symm.trans hnext')
            exact hcomes
        · exact fun hcomes => .inr ⟨_, hnext, hcomes⟩
    · cases hnext.symm.trans hs
  | case4 s next hnext hsmaller => exact absurd (hsize s t next h hnext) hsmaller

end SameUnless

end Nomo.Lib.Scanning
