import Mathlib

/-!
# Computations with a trace

A computation on a state that may fail, may not finish, and keeps the states it passes through.
`Runs always may before c after`: from a state with `before`, the computation passes only through
states with `always`, does not finish only if it `may`, and when it is done `after` holds.

The rules go with the ways to build a computation. What every part of a sequence keeps, the whole
keeps (`Keeps`).
-/

namespace Nomo.Lib.Trace

/-- How a computation ends. -/
inductive Outcome (ε α : Type)
  | done (value : α)
  | failed (error : ε)
  | unfinished

/-- A computation: how it ends, where it ends, and the states it passes through. -/
def Traced (σ ε α : Type) : Type := σ → Outcome ε α × σ × List σ

variable {σ ε α β : Type}

namespace Traced

/-- How the computation ends. -/
def outcome (c : Traced σ ε α) (s : σ) : Outcome ε α := (c s).1

/-- Where the computation ends. -/
def final (c : Traced σ ε α) (s : σ) : σ := (c s).2.1

/-- The states the computation passes through. -/
def visited (c : Traced σ ε α) (s : σ) : List σ := (c s).2.2

instance : Monad (Traced σ ε) where
  pure a := fun s => (.done a, s, [])
  bind c f := fun s =>
    match c s with
    | (.done a, t, past) =>
      let (outcome, u, later) := f a t
      (outcome, u, past ++ later)
    | (.failed error, t, past) => (.failed error, t, past)
    | (.unfinished, t, past) => (.unfinished, t, past)

/-- Stop with an error. -/
def fail (error : ε) : Traced σ ε α := fun s => (.failed error, s, [])

/-- Never come to an end. -/
def unfinished : Traced σ ε α := fun s => (.unfinished, s, [])

/-- Read the state. -/
def read (f : σ → α) : Traced σ ε α := fun s => (.done (f s), s, [])

/-- Change the state. -/
def update (f : σ → σ) : Traced σ ε Unit := fun s => (.done (), f s, [f s])

/-- A computation without a state. -/
def lift : Except ε α → Traced σ ε α
  | .ok a => pure a
  | .error error => fail error

/-- Do something for every entry of a list, and collect the results. -/
def collect (f : α → Traced σ ε β) : List α → Traced σ ε (List β)
  | [] => pure []
  | a :: as => do
    let b ← f a
    let bs ← collect f as
    return b :: bs

/-- Do something for every entry of a list. -/
def each (f : α → Traced σ ε Unit) : List α → Traced σ ε Unit
  | [] => pure ()
  | a :: as => do
    f a
    each f as

end Traced

theorem bind_apply (c : Traced σ ε α) (f : α → Traced σ ε β) (s : σ) : (c >>= f) s = match c s with
    | (.done a, t, past) => ((f a t).1, (f a t).2.1, past ++ (f a t).2.2)
    | (.failed error, t, past) => (.failed error, t, past)
    | (.unfinished, t, past) => (.unfinished, t, past) := rfl

theorem outcome_bind_of_done {c : Traced σ ε α} {f : α → Traced σ ε β} {s : σ} {a : α}
    (h : c.outcome s = .done a) : (c >>= f).outcome s = (f a).outcome (c.final s) := by
  unfold Traced.outcome Traced.final at *
  rw [bind_apply]
  rcases hc : c s with ⟨outcome, t, past⟩
  rw [hc] at h
  obtain rfl : outcome = .done a := h
  rfl

theorem outcome_bind_of_unfinished {c : Traced σ ε α} {f : α → Traced σ ε β} {s : σ}
    (h : c.outcome s = .unfinished) : (c >>= f).outcome s = .unfinished := by
  unfold Traced.outcome at *
  rw [bind_apply]
  rcases hc : c s with ⟨outcome, t, past⟩
  rw [hc] at h
  obtain rfl : outcome = .unfinished := h
  rfl

/-! ## What holds of a run -/

variable {always : σ → Prop} {may : Prop} {before : σ → Prop}

/-- From a state with `before` the computation passes only through states with `always`, does not
finish only if it `may`, and ends with `after`. -/
def Runs (always : σ → Prop) (may : Prop) (before : σ → Prop) (c : Traced σ ε α)
    (after : α → σ → Prop) : Prop :=
  ∀ s, before s → (∀ t ∈ c.visited s, always t) ∧
    match c.outcome s with
    | .done a => after a (c.final s)
    | .failed _ => True
    | .unfinished => may

namespace Runs

variable {c : Traced σ ε α} {after : α → σ → Prop}

theorem weaken {before' : σ → Prop} {after' : α → σ → Prop} (h : Runs always may before c after)
    (hbefore : ∀ s, before' s → before s) (hafter : ∀ a s, after a s → after' a s) :
    Runs always may before' c after' := by
  intro s hs
  obtain ⟨hvisited, hend⟩ := h s (hbefore s hs)
  refine ⟨hvisited, ?_⟩
  cases houtcome : c.outcome s with
  | done a =>
    rw [houtcome] at hend
    exact hafter a _ hend
  | failed error => trivial
  | unfinished =>
    rw [houtcome] at hend
    exact hend

theorem pure (a : α) : Runs always may before (Pure.pure a : Traced σ ε α) (fun _ => before) :=
  fun _ hs => ⟨nofun, hs⟩

theorem fail (error : ε) : Runs always may before (Traced.fail error : Traced σ ε α) after :=
  fun _ _ => ⟨nofun, trivial⟩

theorem unfinished (h : ∀ s, before s → may) :
    Runs always may before (Traced.unfinished : Traced σ ε α) after :=
  fun s hs => ⟨nofun, h s hs⟩

theorem read (f : σ → α) :
    Runs always may before (Traced.read f : Traced σ ε α) (fun a s => before s ∧ f s = a) :=
  fun _ hs => ⟨nofun, hs, rfl⟩

theorem update {f : σ → σ} {after : Unit → σ → Prop} (halways : ∀ s, before s → always (f s))
    (hafter : ∀ s, before s → after () (f s)) :
    Runs always may before (Traced.update f : Traced σ ε Unit) after := by
  intro s hs
  refine ⟨?_, hafter s hs⟩
  intro t ht
  obtain rfl := List.mem_singleton.mp ht
  exact halways s hs

theorem bind {f : α → Traced σ ε β} {after' : β → σ → Prop} (h : Runs always may before c after)
    (hf : ∀ a, Runs always may (after a) (f a) after') :
    Runs always may before (c >>= f) after' := by
  intro s hs
  obtain ⟨hvisited, hend⟩ := h s hs
  unfold Traced.outcome Traced.final at hend
  unfold Traced.visited at hvisited
  show (∀ t ∈ ((c >>= f) s).2.2, always t) ∧ match ((c >>= f) s).1 with
    | .done b => after' b ((c >>= f) s).2.1
    | .failed _ => True
    | .unfinished => may
  rw [bind_apply]
  rcases hc : c s with ⟨outcome, t, past⟩
  rw [hc] at hvisited hend
  cases outcome with
  | done a =>
    obtain ⟨hlater, hend'⟩ := hf a t hend
    refine ⟨?_, hend'⟩
    intro u hu
    rcases List.mem_append.mp hu with hu | hu
    · exact hvisited u hu
    · exact hlater u hu
  | failed error => exact ⟨hvisited, trivial⟩
  | unfinished => exact ⟨hvisited, hend⟩

end Runs

/-! ## What every part keeps -/

/-- The computation keeps a property of the state. -/
def Keeps (always : σ → Prop) (may : Prop) (keep : σ → Prop) (c : Traced σ ε α) : Prop :=
  Runs always may keep c fun _ => keep

namespace Keeps

variable {keep : σ → Prop} {c : Traced σ ε α}

theorem pure (a : α) : Keeps always may keep (Pure.pure a : Traced σ ε α) := Runs.pure a

theorem fail (error : ε) : Keeps always may keep (Traced.fail error : Traced σ ε α) := Runs.fail error

theorem read (f : σ → α) : Keeps always may keep (Traced.read f : Traced σ ε α) :=
  (Runs.read f).weaken (fun _ hs => hs) fun _ _ hs => hs.1

theorem update {f : σ → σ} (halways : ∀ s, keep s → always (f s)) (hkeep : ∀ s, keep s → keep (f s)) :
    Keeps always may keep (Traced.update f : Traced σ ε Unit) := Runs.update halways hkeep

theorem bind {f : α → Traced σ ε β} (h : Keeps always may keep c)
    (hf : ∀ a, Keeps always may keep (f a)) : Keeps always may keep (c >>= f) := Runs.bind h hf

theorem lift (x : Except ε α) : Keeps always may keep (Traced.lift x : Traced σ ε α) := by
  cases x with
  | ok a => exact pure a
  | error error => exact fail error

theorem collect {f : α → Traced σ ε β} (h : ∀ a, Keeps always may keep (f a)) (as : List α) :
    Keeps always may keep (Traced.collect f as) := by
  induction as with
  | nil => exact pure []
  | cons a as ih => exact (h a).bind fun b => ih.bind fun bs => pure (b :: bs)

theorem each {f : α → Traced σ ε Unit} (h : ∀ a, Keeps always may keep (f a)) (as : List α) :
    Keeps always may keep (Traced.each f as) := by
  induction as with
  | nil => exact pure ()
  | cons a as ih => exact (h a).bind fun _ => ih

end Keeps

/-! ## More of a run -/

/-- Where the first computation comes to an end, the second does the same. -/
def Extends (c c' : Traced σ ε α) : Prop := ∀ s, c.outcome s ≠ .unfinished → c' s = c s

namespace Extends

variable {c c' : Traced σ ε α}

theorem refl (c : Traced σ ε α) : Extends c c := fun _ _ => rfl

theorem trans {c'' : Traced σ ε α} (h : Extends c c') (h' : Extends c' c'') : Extends c c'' := by
  intro s hs
  have heq := h s hs
  refine (h' s ?_).trans heq
  unfold Traced.outcome at hs ⊢
  rw [heq]
  exact hs

theorem unfinished (c : Traced σ ε α) : Extends Traced.unfinished c :=
  fun _ hs => absurd rfl hs

theorem bind {f f' : α → Traced σ ε β} (h : Extends c c') (hf : ∀ a, Extends (f a) (f' a)) :
    Extends (c >>= f) (c' >>= f') := by
  intro s hs
  have hends : c.outcome s ≠ .unfinished := fun hunfinished => hs (outcome_bind_of_unfinished hunfinished)
  have hfirst := h s hends
  rw [bind_apply, bind_apply, hfirst]
  cases houtcome : c.outcome s with
  | done a =>
    have hrest : (f a).outcome (c.final s) ≠ .unfinished := by
      rwa [← outcome_bind_of_done houtcome]
    have hsecond := hf a (c.final s) hrest
    unfold Traced.outcome Traced.final at *
    rcases hc : c s with ⟨outcome, t, past⟩
    rw [hc] at houtcome hsecond
    obtain rfl : outcome = .done a := houtcome
    dsimp only at hsecond ⊢
    rw [hsecond]
  | failed error =>
    unfold Traced.outcome at houtcome
    rcases hc : c s with ⟨outcome, t, past⟩
    rw [hc] at houtcome
    obtain rfl : outcome = .failed error := houtcome
    rfl
  | unfinished => exact absurd houtcome hends

theorem collect {f f' : α → Traced σ ε β} (h : ∀ a, Extends (f a) (f' a)) (as : List α) :
    Extends (Traced.collect f as) (Traced.collect f' as) := by
  induction as with
  | nil => exact refl _
  | cons a as ih => exact (h a).bind fun _ => ih.bind fun _ => refl _

theorem each {f f' : α → Traced σ ε Unit} (h : ∀ a, Extends (f a) (f' a)) (as : List α) :
    Extends (Traced.each f as) (Traced.each f' as) := by
  induction as with
  | nil => exact refl _
  | cons a as ih => exact (h a).bind fun _ => ih

end Extends

end Nomo.Lib.Trace
