import Mathlib

/-!
# Worklist fixed points

Forward data-flow analysis by a worklist, over an arbitrary type `S` of states.  Nodes are numbers;
`ins` holds the input state of each node, or nothing while no path to it has been seen.  A node
taken from the queue has its output joined into the input of each successor, and a successor whose
input changed is queued.

For a `Lawful` analysis, whose joins that report a change lose weight, the queue runs empty within
`potential` rounds, and what is left is a post-fixed point: the output of every reached node is
below the input of each of its successors (`solve_spec`).  If the transfers are monotone and the
joins are least upper bounds, it is a fixed point: the input of a node is the join of what flows in
(`solve_join`).
-/

namespace Nomo.Lib.Worklist

universe u

variable {S : Type u}

/-- A forward analysis. -/
structure Analysis (S : Type u) where
  transfer : Nat → S → S
  successors : Nat → List Nat
  join : S → S → S × Bool

/-- The inputs found so far, and the nodes whose output is still to be propagated. -/
structure Progress (S : Type u) where
  ins : List (Option S)
  queue : List Nat

namespace Progress

/-- The input of a node. -/
def input (p : Progress S) (b : Nat) : Option S := (p.ins[b]?).join

end Progress

variable (A : Analysis S)

namespace Analysis

/-- Join an output into the input of one successor. -/
def flowTo (out : S) (p : Progress S) (t : Nat) : Progress S :=
  match p.ins[t]? with
  | some (some current) =>
    if (A.join current out).2 then
      { ins := p.ins.set t (some (A.join current out).1), queue := p.queue ++ [t] }
    else
      { p with ins := p.ins.set t (some (A.join current out).1) }
  | some none => { ins := p.ins.set t (some out), queue := p.queue ++ [t] }
  | none => p

/-- Join an output into the inputs of a list of successors. -/
def flow (out : S) (ts : List Nat) (p : Progress S) : Progress S := ts.foldl (A.flowTo out) p

/-- Work the queue off, for at most `n` rounds. -/
def solve : Nat → Progress S → Progress S
  | 0, p => p
  | n + 1, p =>
    match p.queue with
    | [] => p
    | b :: queue =>
      match p.input b with
      | some s => solve n (A.flow (A.transfer b s) (A.successors b) { p with queue := queue })
      | none => solve n { p with queue := queue }

/-- What makes an analysis terminate in a post-fixed point: states satisfying `Ok` have weight at
most `bound`, joins are upper bounds, and a join reports a change exactly if it loses weight. -/
structure Lawful (Ok : S → Prop) (le : S → S → Prop) (weight : S → Nat) (bound : Nat) : Prop where
  refl : ∀ s, le s s
  trans : ∀ s t u, le s t → le t u → le s u
  left : ∀ s t, le s (A.join s t).1
  right : ∀ s t, le t (A.join s t).1
  unchanged : ∀ s t, (A.join s t).2 = false → (A.join s t).1 = s
  lighter : ∀ s t, (A.join s t).2 = true → weight (A.join s t).1 < weight s
  ok_join : ∀ s t, Ok s → Ok t → Ok (A.join s t).1
  ok_transfer : ∀ b s, Ok s → Ok (A.transfer b s)
  bounded : ∀ s, Ok s → weight s ≤ bound

/-- The output of a node is below the inputs of its successors. -/
def Covered (le : S → S → Prop) (p : Progress S) (b : Nat) : Prop :=
  ∀ s, p.input b = some s → ∀ t ∈ A.successors b, t < p.ins.length →
    ∃ s', p.input t = some s' ∧ le (A.transfer b s) s'

/-- One progress state goes up to another: inputs only grow, and only a queued input changes. -/
structure Grows (le : S → S → Prop) (p q : Progress S) : Prop where
  length : q.ins.length = p.ins.length
  above : ∀ b s, p.input b = some s → ∃ s', q.input b = some s' ∧ le s s'
  queued : ∀ b, b ∈ p.queue → b ∈ q.queue
  changed : ∀ b, b ∈ q.queue ∨ q.input b = p.input b

end Analysis

open Analysis

/-- The rounds that a progress state may still take. -/
def potential (weight : S → Nat) (bound : Nat) (p : Progress S) : Nat :=
  (p.ins.map fun i => i.elim (bound + 1) weight).sum + p.queue.length

theorem input_set (ins : List (Option S)) (queue : List Nat) (t b : Nat) (s : S)
    (ht : t < ins.length) :
    Progress.input ⟨ins.set t (some s), queue⟩ b
      = if b = t then some s else Progress.input ⟨ins, queue⟩ b := by
  unfold Progress.input
  rw [List.getElem?_set]
  by_cases hb : b = t
  · subst hb
    simp [ht]
  · rw [if_neg (Ne.symm hb), if_neg hb]

theorem sum_map_set (f : Option S → Nat) (ins : List (Option S)) (t : Nat) (x : Option S)
    (old : Option S) (ht : ins[t]? = some old) :
    ((ins.set t x).map f).sum + f old = (ins.map f).sum + f x := by
  induction ins generalizing t with
  | nil => simp at ht
  | cons i ins ih =>
    cases t with
    | zero =>
      simp only [List.getElem?_cons_zero, Option.some.injEq] at ht
      subst ht
      simp only [List.set_cons_zero, List.map_cons, List.sum_cons]
      omega
    | succ t =>
      have := ih t (by simpa using ht)
      simp only [List.set_cons_succ, List.map_cons, List.sum_cons]
      omega

variable {A} {Ok : S → Prop} {le : S → S → Prop} {weight : S → Nat} {bound : Nat}

namespace Analysis.Grows

theorem refl (hA : A.Lawful Ok le weight bound) (p : Progress S) : Grows le p p where
  length := rfl
  above _ s hs := ⟨s, hs, hA.refl s⟩
  queued _ h := h
  changed _ := Or.inr rfl

theorem trans (hA : A.Lawful Ok le weight bound) {p q r : Progress S} (h₁ : Grows le p q)
    (h₂ : Grows le q r) : Grows le p r where
  length := h₂.length.trans h₁.length
  above b s hs := by
    obtain ⟨s', hs', hle⟩ := h₁.above b s hs
    obtain ⟨s'', hs'', hle'⟩ := h₂.above b s' hs'
    exact ⟨s'', hs'', hA.trans _ _ _ hle hle'⟩
  queued b h := h₂.queued b (h₁.queued b h)
  changed b := by
    rcases h₂.changed b with hb | hb
    · exact Or.inl hb
    · rcases h₁.changed b with hb' | hb'
      · exact Or.inl (h₂.queued b hb')
      · exact Or.inr (hb.trans hb')

end Analysis.Grows

/-- Flowing into one successor: inputs grow, the successor's input is above the output, and the
potential does not increase. -/
theorem flowTo_spec (hA : A.Lawful Ok le weight bound) (out : S) (hout : Ok out) (p : Progress S)
    (hp : ∀ b s, p.input b = some s → Ok s) (t : Nat) :
    Grows le p (A.flowTo out p t) ∧
      (t < p.ins.length → ∃ s, (A.flowTo out p t).input t = some s ∧ le out s) ∧
      (∀ b s, (A.flowTo out p t).input b = some s → Ok s) ∧
      potential weight bound (A.flowTo out p t) ≤ potential weight bound p := by
  unfold flowTo
  split
  · rename_i current hcur
    have ht : t < p.ins.length := (List.getElem?_eq_some_iff.1 hcur).1
    have hin : p.input t = some current := by simp [Progress.input, hcur]
    have hok : Ok (A.join current out).1 := hA.ok_join _ _ (hp t current hin) hout
    have habove (queue b s) : p.input b = some s →
        ∃ s', Progress.input ⟨p.ins.set t (some (A.join current out).1), queue⟩ b = some s' ∧ le s s' := by
      intro hs
      rw [input_set _ _ _ _ _ ht]
      by_cases hb : b = t
      · subst hb
        rw [hin] at hs
        cases hs
        exact ⟨_, if_pos rfl, hA.left _ _⟩
      · exact ⟨s, by rw [if_neg hb]; exact hs, hA.refl s⟩
    have hok' (queue b s) :
        Progress.input ⟨p.ins.set t (some (A.join current out).1), queue⟩ b = some s → Ok s := by
      intro hs
      rw [input_set _ _ _ _ _ ht] at hs
      by_cases hb : b = t
      · rw [if_pos hb] at hs
        cases hs
        exact hok
      · rw [if_neg hb] at hs
        exact hp b s hs
    have hsum := sum_map_set (fun i => i.elim (bound + 1) weight) p.ins t
      (some (A.join current out).1) _ hcur
    simp only [Option.elim_some] at hsum
    split
    · rename_i hch
      refine ⟨⟨by simp, habove _, fun b hb => by simp [hb], fun b => ?_⟩, fun _ => ?_, hok' _, ?_⟩
      · by_cases hb : b = t
        · exact Or.inl (by simp [hb])
        · right
          rw [input_set _ _ _ _ _ ht, if_neg hb]
          rfl
      · exact ⟨_, by rw [input_set _ _ _ _ _ ht, if_pos rfl], hA.right _ _⟩
      · have := hA.lighter _ _ hch
        simp only [potential, List.length_append, List.length_singleton]
        omega
    · rename_i hch
      have hsame := hA.unchanged current out (by simpa using hch)
      refine ⟨⟨by simp, habove _, fun b hb => hb, fun b => ?_⟩, fun _ => ?_, hok' _, ?_⟩
      · right
        rw [input_set _ _ _ _ _ ht, hsame]
        by_cases hb : b = t
        · rw [if_pos hb, hb, hin]
        · exact if_neg hb
      · exact ⟨_, by rw [input_set _ _ _ _ _ ht, if_pos rfl], hA.right _ _⟩
      · rw [hsame] at hsum
        simp only [potential, hsame]
        omega
  · rename_i hcur
    have ht : t < p.ins.length := (List.getElem?_eq_some_iff.1 hcur).1
    have hin : p.input t = none := by simp [Progress.input, hcur]
    have hsum := sum_map_set (fun i => i.elim (bound + 1) weight) p.ins t (some out) _ hcur
    simp only [Option.elim_some, Option.elim_none] at hsum
    refine ⟨⟨by simp, fun b s hs => ?_, fun b hb => by simp [hb], fun b => ?_⟩, fun _ => ?_, ?_, ?_⟩
    · have hb : b ≠ t := by
        rintro rfl
        rw [hin] at hs
        cases hs
      exact ⟨s, by rw [input_set _ _ _ _ _ ht, if_neg hb]; exact hs, hA.refl s⟩
    · by_cases hb : b = t
      · exact Or.inl (by simp [hb])
      · right
        rw [input_set _ _ _ _ _ ht, if_neg hb]
        rfl
    · exact ⟨out, by rw [input_set _ _ _ _ _ ht, if_pos rfl], hA.refl out⟩
    · intro b s hs
      rw [input_set _ _ _ _ _ ht] at hs
      by_cases hb : b = t
      · rw [if_pos hb] at hs
        cases hs
        exact hout
      · rw [if_neg hb] at hs
        exact hp b s hs
    · have := hA.bounded out hout
      simp only [potential, List.length_append, List.length_singleton]
      omega
  · rename_i hcur
    refine ⟨Grows.refl hA p, fun ht => ?_, hp, Nat.le_refl _⟩
    rw [List.getElem?_eq_getElem ht] at hcur
    cases hcur

theorem flow_spec (hA : A.Lawful Ok le weight bound) (out : S) (hout : Ok out) (ts : List Nat)
    (p : Progress S) (hp : ∀ b s, p.input b = some s → Ok s) :
    Grows le p (A.flow out ts p) ∧
      (∀ t ∈ ts, t < p.ins.length → ∃ s, (A.flow out ts p).input t = some s ∧ le out s) ∧
      (∀ b s, (A.flow out ts p).input b = some s → Ok s) ∧
      potential weight bound (A.flow out ts p) ≤ potential weight bound p := by
  induction ts generalizing p with
  | nil => exact ⟨Grows.refl hA p, by simp, hp, Nat.le_refl _⟩
  | cons t ts ih =>
    obtain ⟨hg, ht, hok, hpot⟩ := flowTo_spec hA out hout p hp t
    obtain ⟨hg', ht', hok', hpot'⟩ := ih (A.flowTo out p t) hok
    refine ⟨hg.trans hA hg', ?_, hok', Nat.le_trans hpot' hpot⟩
    intro t' hmem hlt
    rcases List.mem_cons.1 hmem with rfl | hmem
    · obtain ⟨s, hs, hle⟩ := ht hlt
      obtain ⟨s', hs', hle'⟩ := hg'.above _ s hs
      exact ⟨s', hs', hA.trans _ _ _ hle hle'⟩
    · exact ht' t' hmem (by rw [hg.length]; exact hlt)

/-- The loop invariant of the worklist: every node whose output has not reached its successors is
queued, and queued nodes have an input. -/
structure Invariant (A : Analysis S) (Ok : S → Prop) (le : S → S → Prop) (p : Progress S) :
    Prop where
  ok : ∀ b s, p.input b = some s → Ok s
  covered : ∀ b, b ∈ p.queue ∨ A.Covered le p b

/-- One round keeps the invariant, lets inputs grow, and uses up potential. -/
theorem round (hA : A.Lawful Ok le weight bound) (p : Progress S) (h : Invariant A Ok le p)
    (b : Nat) (queue : List Nat) (hq : p.queue = b :: queue) (s : S) (hs : p.input b = some s) :
    let q := A.flow (A.transfer b s) (A.successors b) { p with queue := queue }
    Invariant A Ok le q ∧ (∀ b s, p.input b = some s → ∃ s', q.input b = some s' ∧ le s s') ∧
      potential weight bound q < potential weight bound p := by
  intro q
  obtain ⟨hg, ht, hok, hpot⟩ := flow_spec hA (A.transfer b s) (hA.ok_transfer b s (h.ok b s hs))
    (A.successors b) { p with queue := queue } h.ok
  refine ⟨⟨hok, fun c => ?_⟩, hg.above, ?_⟩
  · rcases hg.changed c with hc | hsame
    · exact Or.inl hc
    -- An unchanged node is `b`, whose output has just been propagated, or was covered before.
    · have hstay (s₀) : q.input c = some s₀ → p.input c = some s₀ := by
        intro h₀
        rw [← h₀]
        exact hsame.symm
      by_cases hcb : c = b
      · subst hcb
        right
        intro s₀ h₀ t htm hlt
        have := hstay s₀ h₀
        rw [hs] at this
        cases this
        exact ht t htm (by rw [← hg.length]; exact hlt)
      rcases h.covered c with hc | hc
      · rw [hq] at hc
        rcases List.mem_cons.1 hc with rfl | hc
        · exact absurd rfl hcb
        · exact Or.inl (hg.queued c hc)
      right
      intro s₀ h₀ t htm hlt
      have hlt' : t < p.ins.length := by
        have := hg.length
        simp only at this
        rw [← this]
        exact hlt
      obtain ⟨s₁, h₁, hle⟩ := hc s₀ (hstay s₀ h₀) t htm hlt'
      obtain ⟨s₂, h₂, hle'⟩ := hg.above t s₁ h₁
      exact ⟨s₂, h₂, hA.trans _ _ _ hle hle'⟩
  · refine Nat.lt_of_le_of_lt hpot ?_
    simp [potential, hq]

theorem skip (p : Progress S) (h : Invariant A Ok le p) (b : Nat) (queue : List Nat)
    (hq : p.queue = b :: queue) (hs : p.input b = none) :
    Invariant A Ok le { p with queue := queue } where
  ok := h.ok
  covered c := by
    rcases h.covered c with hc | hc
    · rw [hq] at hc
      rcases List.mem_cons.1 hc with rfl | hc
      · right
        intro s h₀
        change p.input c = some s at h₀
        rw [hs] at h₀
        cases h₀
      · exact Or.inl hc
    · exact Or.inr hc

/-- **The worklist theorem.** With enough fuel the queue runs empty, every reached node is covered,
and inputs present at the start only grew. -/
theorem solve_spec (hA : A.Lawful Ok le weight bound) (n : Nat) (p : Progress S)
    (h : Invariant A Ok le p) (hn : potential weight bound p ≤ n) :
    (A.solve n p).queue = [] ∧ Invariant A Ok le (A.solve n p) ∧
      ∀ b s, p.input b = some s → ∃ s', (A.solve n p).input b = some s' ∧ le s s' := by
  have hkeep (p : Progress S) (b s) (hs : p.input b = some s) : ∃ s', p.input b = some s' ∧ le s s' := ⟨s, hs, hA.refl s⟩
  induction n generalizing p with
  | zero =>
    have hnil : p.queue = [] := by
      have : p.queue.length = 0 := by
        simp only [potential] at hn
        omega
      exact List.eq_nil_of_length_eq_zero this
    exact ⟨hnil, h, hkeep p⟩
  | succ n ih =>
    rw [solve]
    cases hq : p.queue with
    | nil => exact ⟨hq, h, hkeep p⟩
    | cons b queue =>
      simp only
      cases hs : p.input b with
      | none =>
        have hpot : potential weight bound { p with queue := queue } < potential weight bound p := by
          simp [potential, hq]
        exact ih _ (skip p h b queue hq hs) (by omega)
      | some s =>
        obtain ⟨hinv, habove, hpot⟩ := round hA p h b queue hq s hs
        obtain ⟨h1, h2, h3⟩ := ih _ hinv (by omega)
        refine ⟨h1, h2, fun c s₀ h₀ => ?_⟩
        obtain ⟨s₁, hs₁, hle⟩ := habove c s₀ h₀
        obtain ⟨s₂, hs₂, hle'⟩ := h3 c s₁ hs₁
        exact ⟨s₂, hs₂, hA.trans _ _ _ hle hle'⟩

theorem flow_length (out : S) (ts : List Nat) (p : Progress S) :
    (A.flow out ts p).ins.length = p.ins.length := by
  induction ts generalizing p with
  | nil => rfl
  | cons t ts ih =>
    rw [flow, List.foldl_cons]
    refine (ih _).trans ?_
    unfold flowTo
    split
    · split <;> simp
    · simp
    · rfl

theorem solve_length (n : Nat) (p : Progress S) : (A.solve n p).ins.length = p.ins.length := by
  induction n generalizing p with
  | zero => rfl
  | succ n ih =>
    rw [solve]
    split
    · rfl
    · split
      · rw [ih, flow_length]
      · rw [ih]

/-- The progress state an analysis starts from: one entry node with its state. -/
def start (count entry : Nat) (s : S) : Progress S :=
  { ins := (List.replicate count none).set entry (some s), queue := [entry] }

theorem input_start (count entry : Nat) (s : S) (b : Nat) (h : entry < count) :
    (start count entry s).input b = if b = entry then some s else none := by
  unfold start
  rw [input_set _ _ _ _ _ (by simpa using h)]
  split
  · rfl
  · unfold Progress.input
    rw [List.getElem?_replicate]
    split <;> rfl

theorem invariant_start (count entry : Nat) (s : S) (h : entry < count) (hok : Ok s) :
    Invariant A Ok le (start count entry s) where
  ok b s₀ h₀ := by
    rw [input_start _ _ _ _ h] at h₀
    split at h₀
    · cases h₀
      exact hok
    · cases h₀
  covered b := by
    by_cases hb : b = entry
    · exact Or.inl (by simp [start, hb])
    · right
      intro s₀ h₀
      rw [input_start _ _ _ _ h, if_neg hb] at h₀
      cases h₀

theorem potential_start (weight : S → Nat) (bound count entry : Nat) (s : S) :
    potential weight bound (start count entry s)
      ≤ count * (bound + 1) + weight s + 1 := by
  have hrep : ∀ k, ∀ e, (((List.replicate k (none : Option S)).set e (some s)).map
        fun i => i.elim (bound + 1) weight).sum ≤ k * (bound + 1) + weight s := by
    intro k
    induction k with
    | zero => simp
    | succ k ih =>
      intro e
      cases e with
      | zero =>
        have hk (j : Nat) : ((List.replicate j (none : Option S)).map
            fun i => i.elim (bound + 1) weight).sum = j * (bound + 1) := by
          simp
        rw [List.replicate_succ, List.set_cons_zero, List.map_cons, List.sum_cons, hk]
        simp only [Option.elim_some, Nat.add_mul]
        omega
      | succ e =>
        rw [List.replicate_succ, List.set_cons_succ, List.map_cons, List.sum_cons]
        have := ih e
        simp only [Option.elim_none, Nat.add_mul]
        omega
  have := hrep count entry
  simp only [potential, start, List.length_singleton]
  omega

/-! ## The least fixed point -/

/-- Transfers are monotone, and joins are least upper bounds. -/
structure Analysis.Tight (A : Analysis S) (le : S → S → Prop) : Prop where
  mono : ∀ b s t, le s t → le (A.transfer b s) (A.transfer b t)
  join : ∀ s t u, le s u → le t u → le (A.join s t).1 u

/-- A path leads from the entry to a node. -/
def Analysis.Reaches (A : Analysis S) (entry : Nat) : Nat → Prop :=
  Relation.ReflTransGen (fun b t => t ∈ A.successors b) entry

/-- A state is above all that flows into a node: the outputs of the nodes before it, and at the
entry the initial state. -/
def Analysis.Above (A : Analysis S) (le : S → S → Prop) (entry : Nat) (first : S) (p : Progress S)
    (t : Nat) (u : S) : Prop :=
  (t = entry → le first u) ∧
    ∀ b s, p.input b = some s → t ∈ A.successors b → le (A.transfer b s) u

/-- Inputs hold no more than what has flown in, along paths from the entry. -/
structure Supported (A : Analysis S) (le : S → S → Prop) (entry : Nat) (first : S)
    (p : Progress S) : Prop where
  least : ∀ t s, p.input t = some s → ∀ u, A.Above le entry first p t u → le s u
  reached : ∀ t s, p.input t = some s → A.Reaches entry t

theorem input_flowTo (out : S) (p : Progress S) (t c : Nat) :
    (A.flowTo out p t).input c = if c = t ∧ t < p.ins.length then
      some (((p.input t).map fun s => (A.join s out).1).getD out) else p.input c := by
  by_cases ht : t < p.ins.length
  · have hset : ∀ s queue, Progress.input ⟨p.ins.set t (some s), queue⟩ c
        = if c = t then some s else p.input c := fun s queue => input_set _ _ _ _ _ ht
    have hcur : p.ins[t]? = some (p.input t) := by simp [Progress.input, List.getElem?_eq_getElem ht]
    rw [flowTo, hcur]
    cases p.input t with
    | none => simpa [ht] using hset out _
    | some current =>
      dsimp only
      split <;> simpa [ht] using hset (A.join current out).1 _
  · rw [flowTo, List.getElem?_eq_none (Nat.le_of_not_lt ht), if_neg fun h => ht h.2]

variable {entry : Nat} {first : S}

/-- Flowing the output of a node into some of its successors. -/
theorem Supported.flow (hA : A.Lawful Ok le weight bound) (hT : A.Tight le) {out : S} (hout : Ok out)
    {b : Nat} {ts : List Nat} (hts : ∀ t ∈ ts, t ∈ A.successors b) {p : Progress S}
    (hp : ∀ b s, p.input b = some s → Ok s) (h : Supported A le entry first p)
    (hb : ∃ s, p.input b = some s ∧ le out (A.transfer b s)) :
    Supported A le entry first (A.flow out ts p) := by
  induction ts generalizing p with
  | nil => exact h
  | cons t ts ih =>
    obtain ⟨hg, -, hok, -⟩ := flowTo_spec hA out hout p hp t
    obtain ⟨s, hs, hle⟩ := hb
    obtain ⟨s', hs', hss'⟩ := hg.above b s hs
    have hout' : le out (A.transfer b s') := hA.trans _ _ _ hle (hT.mono b s s' hss')
    refine ih (fun t' ht' => hts t' (List.mem_cons_of_mem _ ht')) hok ?_ ⟨s', hs', hout'⟩
    have ht : t ∈ A.successors b := hts t List.mem_cons_self
    -- What is above all that flows in after the step was so before it.
    have hbefore : ∀ c u, A.Above le entry first (A.flowTo out p t) c u → A.Above le entry first p c u :=
      fun c u hu => ⟨hu.1, fun b' r hr hc =>
        let ⟨r', hr', hrr'⟩ := hg.above b' r hr
        hA.trans _ _ _ (hT.mono b' r r' hrr') (hu.2 b' r' hr' hc)⟩
    constructor
    · intro c r hr u hu
      rw [input_flowTo] at hr
      split at hr
      · rename_i hc
        obtain ⟨rfl, -⟩ := hc
        have hin : le out u := hA.trans _ _ _ hout' (hu.2 b s' hs' ht)
        cases hr
        cases hcur : p.input c with
        | none => exact hin
        | some current => exact hT.join _ _ _ (h.least c current hcur u (hbefore c u hu)) hin
      · exact h.least c r hr u (hbefore c u hu)
    · intro c r hr
      rw [input_flowTo] at hr
      split at hr
      · rename_i hc
        rw [hc.1]
        exact (h.reached b s hs).tail ht
      · exact h.reached c r hr

theorem Supported.solve (hA : A.Lawful Ok le weight bound) (hT : A.Tight le) (n : Nat)
    {p : Progress S} (hinv : Invariant A Ok le p) (h : Supported A le entry first p) :
    Supported A le entry first (A.solve n p) := by
  induction n generalizing p with
  | zero => exact h
  | succ n ih =>
    rw [Analysis.solve]
    cases hq : p.queue with
    | nil => exact h
    | cons b queue =>
      dsimp only
      cases hs : p.input b with
      | none => exact ih (skip p hinv b queue hq hs) ⟨h.least, h.reached⟩
      | some s =>
        refine ih (round hA p hinv b queue hq s hs).1 ?_
        have hstart : Supported A le entry first { p with queue := queue } := ⟨h.least, h.reached⟩
        exact hstart.flow hA hT (hA.ok_transfer b s (hinv.ok b s hs)) (fun _ ht => ht) hinv.ok
          ⟨s, hs, hA.refl _⟩

/-- **The fixed-point theorem.** The queue runs empty, the nodes with an input are those that a path
leads to, and the input of each is the least state above all that flows into it. -/
theorem solve_join (hA : A.Lawful Ok le weight bound) (hT : A.Tight le) {count : Nat}
    (hentry : entry < count) (hclosed : ∀ b < count, ∀ t ∈ A.successors b, t < count)
    (hfirst : Ok first) {n : Nat}
    (hn : potential weight bound (start count entry first) ≤ n) :
    (A.solve n (start count entry first)).queue = [] ∧
    (∀ t, (∃ s, (A.solve n (start count entry first)).input t = some s) ↔ A.Reaches entry t) ∧
    ∀ t s, (A.solve n (start count entry first)).input t = some s →
      A.Above le entry first (A.solve n (start count entry first)) t s ∧
      ∀ u, A.Above le entry first (A.solve n (start count entry first)) t u → le s u := by
  have hstart : Invariant A Ok le _ := invariant_start count entry first hentry hfirst
  obtain ⟨hqueue, hinv, hgrow⟩ := solve_spec hA n _ hstart hn
  have hsupported : Supported A le entry first (start count entry first) := by
    constructor
    · intro t s hs u hu
      rw [input_start _ _ _ _ hentry] at hs
      split at hs
      · cases hs
        exact hu.1 ‹_›
      · cases hs
    · intro t s hs
      rw [input_start _ _ _ _ hentry] at hs
      split at hs
      · rename_i ht
        exact ht ▸ .refl
      · cases hs
  have hsolved := hsupported.solve hA hT n hstart
  obtain ⟨s₀, hs₀, hle₀⟩ := hgrow entry first (by rw [input_start _ _ _ _ hentry, if_pos rfl])
  have hlength : (A.solve n (start count entry first)).ins.length = count := by
    rw [solve_length]
    simp [start]
  have hlt (t s) (hs : (A.solve n (start count entry first)).input t = some s) : t < count := by
    by_contra hge
    rw [Progress.input, List.getElem?_eq_none (by omega)] at hs
    cases hs
  have hcovered (b) : A.Covered le (A.solve n (start count entry first)) b :=
    (hinv.covered b).resolve_left (by rw [hqueue]; simp)
  refine ⟨hqueue, fun t => ⟨fun ⟨s, hs⟩ => hsolved.reached t s hs, fun ht => ?_⟩, fun t s hs =>
    ⟨⟨?_, fun b r hr ht => ?_⟩, hsolved.least t s hs⟩⟩
  · induction ht with
    | refl => exact ⟨s₀, hs₀⟩
    | tail _ ht ih =>
      obtain ⟨s, hs⟩ := ih
      obtain ⟨s', hs', -⟩ := hcovered _ s hs _ ht
        (by rw [hlength]; exact hclosed _ (hlt _ s hs) _ ht)
      exact ⟨s', hs'⟩
  · rintro rfl
    rw [hs₀] at hs
    cases hs
    exact hle₀
  · obtain ⟨s', hs', hle⟩ := hcovered b r hr t ht (by rw [hlength]; exact hlt t s hs)
    rw [hs] at hs'
    cases hs'
    exact hle

end Nomo.Lib.Worklist
