import Mathlib

/-!
# Programs over instructions

A program is a tree: it performs an instruction and goes on according to the answer. What an instruction
does to a state is given by a handler, so a fact about all instructions is a fact about all programs,
whatever they do with the answers: `run_invariant` and `run_related` need no look at a program.
-/

namespace Nomo.Lib

universe u v

/-- A program with instructions `I` and their answers `R`. -/
inductive Program (I : Type) (R : I → Type) (α : Type) : Type
  | pure (a : α)
  | op (i : I) (next : R i → Program I R α)

namespace Program

variable {I : Type} {R : I → Type} {α β : Type} {σ : Type u} {ε : Type v}

/-- One program after another. -/
def bind : Program I R α → (α → Program I R β) → Program I R β
  | .pure a, f => f a
  | .op i next, f => .op i fun r => (next r).bind f

instance : Monad (Program I R) where
  pure := .pure
  bind := bind

/-- Perform one instruction. -/
def perform (i : I) : Program I R (R i) := .op i .pure

/-- A loop, to a number of rounds given in advance: a round goes on (`inl`) or gives the result. -/
def loop (stop : Program I R β) (round : α → Program I R (α ⊕ β)) : ℕ → α → Program I R β
  | 0, _ => stop
  | rounds + 1, a => do
    match ← round a with
    | .inl next => loop stop round rounds next
    | .inr result => return result

/-- Run a program: each instruction changes the state and answers, or stops the program. -/
def run (handle : (i : I) → σ → Except ε (R i × σ)) : Program I R α → σ → Except ε (α × σ)
  | .pure a, s => .ok (a, s)
  | .op i next, s =>
    match handle i s with
    | .ok (r, s') => (next r).run handle s'
    | .error e => .error e

/-- An instruction that was carried out. -/
structure Step (I : Type) (R : I → Type) (σ : Type u) where
  instruction : I
  before : σ
  answer : R instruction
  after : σ

/-- The instructions carried out in a run, up to where it stops. -/
def steps (handle : (i : I) → σ → Except ε (R i × σ)) : Program I R α → σ → List (Step I R σ)
  | .pure _, _ => []
  | .op i next, s =>
    match handle i s with
    | .ok (r, s') => ⟨i, s, r, s'⟩ :: (next r).steps handle s'
    | .error _ => []

variable {handle handle' : (i : I) → σ → Except ε (R i × σ)}

variable {p : Program I R α} {f : α → Program I R β}

/-- **Running one program after another.** -/
theorem run_bind_eq_ok {s s' : σ} {b : β} :
    (p >>= f).run handle s = .ok (b, s') ↔
      ∃ a t, p.run handle s = .ok (a, t) ∧ (f a).run handle t = .ok (b, s') := by
  induction p generalizing s with
  | pure a =>
    show (f a).run handle s = .ok (b, s') ↔ _
    constructor
    · exact fun h => ⟨a, s, rfl, h⟩
    · rintro ⟨_, _, hp, hf⟩
      cases hp
      exact hf
  | op i next ih =>
    show (op i fun r => next r >>= f).run handle s = .ok (b, s') ↔ _
    cases h : handle i s with
    | error e => simp [run, h]
    | ok answer => simpa only [run, h] using ih answer.1

theorem run_op_eq_ok {i : I} {next : R i → Program I R α} {s t : σ} {a : α} :
    (op i next).run handle s = .ok (a, t) ↔
      ∃ r u, handle i s = .ok (r, u) ∧ (next r).run handle u = .ok (a, t) := by
  rw [run]
  cases handle i s with
  | error e | ok answer => simp [Prod.eq_iff_fst_eq_snd_eq]

@[simp] theorem run_perform {i : I} {s : σ} :
    (perform i : Program I R (R i)).run handle s = handle i s := by
  unfold perform run
  cases handle i s with
  | error e | ok answer => rfl

/-! ## Programs with some of the instructions -/

/-- The program performs only instructions with a property, whatever they answer. -/
inductive Only (allowed : I → Prop) : Program I R α → Prop
  | pure (a : α) : Only allowed (.pure a)
  | op (i : I) (next : R i → Program I R α) (hi : allowed i) (hnext : ∀ r, Only allowed (next r)) :
      Only allowed (.op i next)

variable {allowed : I → Prop}

theorem Only.bind (hp : Only allowed p) (hf : ∀ a, Only allowed (f a)) :
    Only allowed (p >>= f) := by
  induction hp with
  | pure a => exact hf a
  | op i next hi _ ih => exact .op i _ hi ih

theorem Only.perform {i : I} (hi : allowed i) : Only allowed (perform i : Program I R (R i)) :=
  .op i _ hi fun r => .pure r

theorem Only.loop {stop : Program I R β} {round : α → Program I R (α ⊕ β)} (hstop : Only allowed stop)
    (hround : ∀ a, Only allowed (round a)) (rounds : ℕ) (a : α) :
    Only allowed (loop stop round rounds a) := by
  induction rounds generalizing a with
  | zero => exact hstop
  | succ rounds ih =>
    refine Only.bind (hround a) fun next => ?_
    cases next with
    | inl next => exact ih next
    | inr result => exact .pure result

theorem only_true (p : Program I R α) : Only (fun _ => True) p := by
  induction p with
  | pure a => exact .pure a
  | op i next ih => exact .op i next trivial ih

variable {t : σ} {a : α}

/-- **What the instructions of a program keep**, the program keeps. -/
theorem Only.run_invariant {P : σ → σ → Prop} (hrefl : ∀ s, P s s)
    (htrans : ∀ s t u, P s t → P t u → P s u)
    (hstep : ∀ i s r t, allowed i → handle i s = .ok (r, t) → P s t) (hp : Only allowed p) {s : σ}
    (h : p.run handle s = .ok (a, t)) : P s t := by
  induction hp generalizing s with
  | pure _ =>
    obtain ⟨-, rfl⟩ := Prod.mk.inj (Except.ok.inj h)
    exact hrefl s
  | op i next hi _ ih =>
    obtain ⟨r, u, hhandle, h⟩ := run_op_eq_ok.1 h
    exact htrans s u t (hstep i s r u hi hhandle) (ih r h)

/-- **What every instruction keeps**, every program keeps. -/
theorem run_invariant {P : σ → σ → Prop} (hrefl : ∀ s, P s s)
    (htrans : ∀ s t u, P s t → P t u → P s u) (hstep : ∀ i s r t, handle i s = .ok (r, t) → P s t)
    {s : σ} (h : p.run handle s = .ok (a, t)) : P s t :=
  (only_true p).run_invariant hrefl htrans (fun i s r t _ => hstep i s r t) h

/-! ## Steps -/

/-- **What every step of a run keeps** of a property of states, the states of the run have. -/
theorem steps_invariant (Inv : σ → Prop) (Meets : Step I R σ → Prop)
    (hstep : ∀ i s r t, handle i s = .ok (r, t) → Inv s → Meets ⟨i, s, r, t⟩ → Inv t) {s : σ}
    (hinv : Inv s) (hmeets : ∀ step ∈ p.steps handle s, Meets step) :
    ∀ step ∈ p.steps handle s, handle step.instruction step.before = .ok (step.answer, step.after) ∧
      Inv step.before ∧ Inv step.after := by
  induction p generalizing s with
  | pure _ => nofun
  | op i next ih =>
    unfold steps at hmeets ⊢
    cases hhandle : handle i s with
    | error e => nofun
    | ok answer =>
      obtain ⟨r, t⟩ := answer
      simp only [hhandle] at hmeets ⊢
      have ht := hstep i s r t hhandle hinv (hmeets _ List.mem_cons_self)
      rintro step (_ | ⟨_, hmem⟩)
      · exact ⟨hhandle, hinv, ht⟩
      · exact ih r ht (fun step h => hmeets step (List.mem_cons_of_mem _ h)) step hmem

/-- **Two runs that agree** step by step: from related states, a program whose steps in the one run meet a
condition runs to the same answer in the other. The relation is needed only on states from which the end
of the run can be reached. -/
theorem run_related (Rel : σ → σ → Prop) (Good : σ → Prop) (Meets : Step I R σ → Prop)
    (hback : ∀ i s r t, handle i s = .ok (r, t) → Good t → Good s)
    (hstep : ∀ i s r t s', handle i s = .ok (r, t) → Meets ⟨i, s, r, t⟩ → Good t → Rel s s' → ∃ t', handle' i s' = .ok (r, t') ∧ Rel t t')
    {s s' : σ} (h : p.run handle s = .ok (a, t)) (hmeets : ∀ step ∈ p.steps handle s, Meets step)
    (hgood : Good t) (hrel : Rel s s') :
    ∃ t', p.run handle' s' = .ok (a, t') ∧ Rel t t' := by
  induction p generalizing s s' with
  | pure _ =>
    cases h
    exact ⟨s', rfl, hrel⟩
  | op i next ih =>
    obtain ⟨r, u, hhandle, h⟩ := run_op_eq_ok.1 h
    simp only [steps, hhandle] at hmeets
    have hgood' : Good u := run_invariant (P := fun s t => Good t → Good s) (fun _ => id)
      (fun _ _ _ hst htu hu => hst (htu hu)) hback h hgood
    obtain ⟨u', hhandle', hrel'⟩ :=
      hstep i s r u s' hhandle (hmeets _ List.mem_cons_self) hgood' hrel
    rw [run, hhandle']
    exact ih r h (fun step hmem => hmeets step (List.mem_cons_of_mem _ hmem)) hrel'

/-- **Two runs that observe the same** in all their steps: each step of the one meets the condition under
which the other follows, if a step that does not meet it would be observed. -/
theorem meets_of_observed {O : Type*} {observe observe' : Step I R σ → List O} (Rel : σ → σ → Prop)
    (Good : σ → Prop) {Meets : Step I R σ → Prop}
    (hback : ∀ i s r t, handle i s = .ok (r, t) → Good t → Good s)
    (hstep : ∀ i s r t s', handle i s = .ok (r, t) → Meets ⟨i, s, r, t⟩ → Good t → Rel s s' → ∃ t', handle' i s' = .ok (r, t') ∧ Rel t t' ∧ observe ⟨i, s, r, t⟩ = observe' ⟨i, s', r, t'⟩)
    (hdiffer : ∀ i s r t s' r' t', handle i s = .ok (r, t) → handle' i s' = .ok (r', t') → ¬Meets ⟨i, s, r, t⟩ → Good t → Rel s s' → ∀ more more', observe ⟨i, s, r, t⟩ ++ more ≠ observe' ⟨i, s', r', t'⟩ ++ more')
    {s s' t' : σ} {b : α} (h : p.run handle s = .ok (a, t)) (h' : p.run handle' s' = .ok (b, t'))
    (hgood : Good t) (hrel : Rel s s')
    (hobserve : (p.steps handle s).flatMap observe = (p.steps handle' s').flatMap observe') :
    ∀ step ∈ p.steps handle s, Meets step := by
  induction p generalizing s s' with
  | pure _ => nofun
  | op i next ih =>
    obtain ⟨r, u, hhandle, h⟩ := run_op_eq_ok.1 h
    obtain ⟨r', u', hhandle', h'⟩ := run_op_eq_ok.1 h'
    simp only [steps, hhandle, hhandle', List.flatMap_cons] at hobserve ⊢
    have hgood' : Good u := run_invariant (P := fun s t => Good t → Good s) (fun _ => id)
      (fun _ _ _ hst htu hu => hst (htu hu)) hback h hgood
    by_cases hmeets : Meets ⟨i, s, r, u⟩
    · obtain ⟨_, hsame, hrel', hequal⟩ := hstep i s r u s' hhandle hmeets hgood' hrel
      obtain ⟨rfl, rfl⟩ := Prod.mk.inj (Except.ok.inj (hsame.symm.trans hhandle'))
      rw [hequal] at hobserve
      rintro step (_ | ⟨_, hmem⟩)
      · exact hmeets
      · exact ih r h h' hrel' (List.append_cancel_left hobserve) step hmem
    · exact absurd hobserve
        (hdiffer i s r u s' r' u' hhandle hhandle' hmeets hgood' hrel _ _)

theorem steps_bind {s : σ} (h : p.run handle s = .ok (a, t)) :
    (p >>= f).steps handle s = p.steps handle s ++ (f a).steps handle t := by
  induction p generalizing s with
  | pure _ =>
    cases h
    rfl
  | op i next ih =>
    show (op i fun r => next r >>= f).steps handle s = _
    obtain ⟨r, u, hhandle, h⟩ := run_op_eq_ok.1 h
    simp only [steps, hhandle, List.cons_append]
    rw [ih r h]

/-! ## What is returned -/

/-- What every run of the program returns. -/
def Returns (handle : (i : I) → σ → Except ε (R i × σ)) (p : Program I R α) (post : α → Prop) : Prop :=
  ∀ s a t, p.run handle s = .ok (a, t) → post a

theorem Returns.pure {post : α → Prop} (h : post a) :
    Returns handle (pure a : Program I R α) post := by
  intro s b t hrun
  cases hrun
  exact h

theorem Returns.bind {post : β → Prop} (h : ∀ a, Returns handle (f a) post) :
    Returns handle (p >>= f) post := by
  intro s b t hrun
  obtain ⟨a, u, -, hf⟩ := run_bind_eq_ok.1 hrun
  exact h a u b t hf

theorem Returns.loop {stop : Program I R β} {round : α → Program I R (α ⊕ β)} {post : β → Prop}
    (hstop : Returns handle stop post)
    (hround : ∀ a, Returns handle (round a) fun r => ∀ b, r = .inr b → post b) (rounds : ℕ) (a : α) :
    Returns handle (loop stop round rounds a) post := by
  induction rounds generalizing a with
  | zero => exact hstop
  | succ rounds ih =>
    intro s b t hrun
    obtain ⟨r, u, hfirst, hrest⟩ := run_bind_eq_ok.1 hrun
    cases r with
    | inl next => exact ih next u b t hrest
    | inr result =>
      obtain ⟨rfl, -⟩ := Prod.mk.inj (Except.ok.inj hrest)
      exact hround a s _ u hfirst _ rfl

/-! ## What a run leads to

A ghost goes along with the states of a run: each step changes it in a way that the step determines, or
is not possible. -/

variable {γ : Type} {effect : γ → Step I R σ → Option γ}

/-- Every run of the program from a state and a ghost that ends has only possible steps, and leads to a
result, a state and a ghost with a property. -/
def Leads (handle : (i : I) → σ → Except ε (R i × σ)) (effect : γ → Step I R σ → Option γ)
    (p : Program I R α) (s : σ) (g : γ) (post : α → σ → γ → Prop) : Prop :=
  ∀ a t, p.run handle s = .ok (a, t) → ∃ g', (p.steps handle s).foldlM effect g = some g' ∧ post a t g'

variable {s : σ} {g : γ} {post : α → σ → γ → Prop}

theorem Leads.pure (h : post a s g) :
    Leads handle effect (pure a : Program I R α) s g post := by
  intro _ _ hrun
  cases hrun
  exact ⟨g, rfl, h⟩

theorem Leads.bind {post : β → σ → γ → Prop}
    (h : Leads handle effect p s g fun a t g' => Leads handle effect (f a) t g' post) :
    Leads handle effect (p >>= f) s g post := by
  intro b u hrun
  obtain ⟨a, t, hp, hf⟩ := run_bind_eq_ok.1 hrun
  obtain ⟨g', hsteps, hlead⟩ := h a t hp
  obtain ⟨g'', hsteps', hpost⟩ := hlead b u hf
  refine ⟨g'', ?_, hpost⟩
  rw [steps_bind hp, List.foldlM_append, hsteps]
  exact hsteps'

theorem Leads.mono {post' : α → σ → γ → Prop} (h : Leads handle effect p s g post)
    (hpost : ∀ a t g', post a t g' → post' a t g') : Leads handle effect p s g post' := by
  intro a t hrun
  obtain ⟨g', hsteps, hpost'⟩ := h a t hrun
  exact ⟨g', hsteps, hpost a t g' hpost'⟩

theorem Leads.perform {i : I} {post : R i → σ → γ → Prop}
    (h : ∀ r t, handle i s = .ok (r, t) → ∃ g', effect g ⟨i, s, r, t⟩ = some g' ∧ post r t g') :
    Leads handle effect (perform i) s g post := by
  intro r t hrun
  rw [run_perform] at hrun
  obtain ⟨g', heffect, hpost⟩ := h r t hrun
  refine ⟨g', ?_, hpost⟩
  have hsteps : (Program.perform i : Program I R (R i)).steps handle s = [⟨i, s, r, t⟩] := by
    unfold Program.perform steps
    rw [hrun]
    rfl
  rw [hsteps, List.foldlM_cons, heffect]
  rfl

theorem Leads.loop (Inv : α → σ → γ → Prop) {stop : Program I R β} {round : α → Program I R (α ⊕ β)}
    {post : β → σ → γ → Prop} (hstop : ∀ s g, Leads handle effect stop s g post)
    (hround : ∀ a s g, Inv a s g → Leads handle effect (round a) s g fun r => match r with | .inl next => Inv next | .inr result => post result)
    (rounds : ℕ) (h : Inv a s g) :
    Leads handle effect (loop stop round rounds a) s g post := by
  induction rounds generalizing a s g with
  | zero => exact hstop s g
  | succ rounds ih =>
    refine Leads.bind ((hround a s g h).mono fun r t g' hpost => ?_)
    cases r with
    | inl next => exact ih hpost
    | inr result => exact Leads.pure hpost

/-! ## Programs that read

The state has an input that the instructions take from, and a ghost reads what they take. -/

variable {τ : Type} (input : σ → List τ) (read : γ → τ → Option γ)

/-- What is taken of the input between two states. -/
def taken (s t : σ) : List τ := (input s).take ((input s).length - (input t).length)

/-- A step's effect on a ghost that reads. -/
def reading (g : γ) (step : Step I R σ) : Option γ :=
  (taken input step.before step.after).foldlM read g

variable {input read}

theorem taken_eq {s : σ} {front : List τ} (h : input s = front ++ input t) :
    taken input s t = front := by
  rw [taken, h]
  simp

@[simp] theorem taken_self (s : σ) : taken input s s = [] := taken_eq rfl

theorem taken_append {s u : σ} (hst : input t <:+ input s) (htu : input u <:+ input t) :
    taken input s u = taken input s t ++ taken input t u := by
  obtain ⟨front, hfront⟩ := hst
  obtain ⟨back, hback⟩ := htu
  rw [taken_eq hfront.symm, taken_eq hback.symm]
  exact taken_eq (by rw [List.append_assoc, hback, hfront])

variable (input) in
theorem input_of_run (hinput : ∀ i s r t, handle i s = .ok (r, t) → input t <:+ input s) {s : σ}
    (h : p.run handle s = .ok (a, t)) : input t <:+ input s :=
  run_invariant (P := fun s t => input t <:+ input s) (fun _ => List.suffix_rfl)
    (fun _ _ _ hst htu => htu.trans hst) hinput h

/-- **A ghost that reads the steps of a run** reads what the run takes. -/
theorem foldlM_reading (hinput : ∀ i s r t, handle i s = .ok (r, t) → input t <:+ input s) {s : σ}
    {g : γ} (h : p.run handle s = .ok (a, t)) :
    (p.steps handle s).foldlM (reading input read) g = (taken input s t).foldlM read g := by
  induction p generalizing s g with
  | pure _ =>
    cases h
    rw [taken_self]
    rfl
  | op i next ih =>
    obtain ⟨r, u, hhandle, h⟩ := run_op_eq_ok.1 h
    rw [taken_append (hinput i s r u hhandle) (input_of_run input hinput h), List.foldlM_append]
    simp only [steps, hhandle, List.foldlM_cons]
    exact bind_congr fun g' => ih r h

end Program

end Nomo.Lib
