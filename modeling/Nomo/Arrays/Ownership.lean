import Nomo.Arrays.Helpers
import Nomo.Lib.RefCount

/-!
# Who refers to which buffer

The memory of a program is compared with a ghost: a reference-counted heap of the general theory, in
which every buffer is the list of its elements.  `Tracks m K D` says that the counts and the cells of
the memory `m` are those of the ghost `K`; the blocks of `D` are *opened*: they are allocated, but
their cells are storage that the ghost does not speak of, as it is while a helper moves elements or
frees them.  `Counted K L` says that every count is exactly the number of references: those inside
buffers, and those that `L` lists.
-/

namespace Nomo.Arrays

open Nomo.Lib.Allocation Nomo.Lib.RefCount Nomo.Lib.RefCount.Heap

variable {α : Type}

/-- The buffer behind a handle, if it has one. -/
def ArrayHandle.blocks (handle : ArrayHandle) : List Nat := handle.data.toList

/-- The buffers a word refers to. -/
def Word.blocks : Word α → List Nat
  | .plain _ => []
  | .array handle => handle.blocks

/-- What is seen through a word: a scalar, or a list of what is seen through the elements. -/
inductive Seen (α : Type) where
  | plain (a : α)
  | array (elements : List (Seen α))

/-- The ghost of a memory. -/
abbrev Ghost (α : Type) := Heap (Word α)

/-- The number of cells of a block. -/
def capacity (m : Memory (Word α)) (p : Nat) : Nat :=
  match m[p]? with
  | some (some b) => b.cells.length
  | _ => 0

/-- An array is seen as a list: its length is that of the list, and its buffer holds the elements. -/
def Holds (K : Ghost α) (C : Nat → Nat) (sees : Word α → Seen α → Prop) (array : ArrayHandle)
    (elements : List (Seen α)) : Prop :=
  array.len = elements.length ∧
    match array.data with
    | none => elements = [] ∧ array.cap = 0
    | some p => 0 < K.refs p ∧ 0 < array.cap ∧ array.cap = C p ∧
        List.Forall₂ sees (K.elements p) elements

/-- What is seen through a word of a type. -/
def Sees (K : Ghost α) (C : Nat → Nat) : ElementType → Word α → Seen α → Prop
  | .plain, .plain a, .plain b => a = b
  | .array element, .array handle, .array elements => Holds K C (Sees K C element) handle elements
  | _, _, _ => False

/-- The memory is as the ghost says, but for the opened blocks. -/
structure Tracks (m : Memory (Word α)) (K : Ghost α) (D : Nat → Prop) : Prop where
  length : K.length = m.length
  live : ∀ p b, m[p]? = some (some b) → ¬ D p →
    K.refs p = b.count ∧ 0 < b.count ∧ (K.elements p).map some <+: b.cells
  opened : ∀ p, D p → ∃ b, m[p]? = some (some b)
  rest : ∀ p, (D p ∨ ∀ b, m[p]? ≠ some (some b)) → K.refs p = 0 ∧ K.elements p = []

/-- Every count is the number of references to the buffer. -/
def Counted (K : Ghost α) (L : Nat → Nat) : Prop := ∀ g, held Word.blocks K g + L g = K.refs g

/-- Every word that only refers to buffers of `L` is seen as before. -/
def Keeps (L : Nat → Nat) (m : Memory (Word α)) (K : Ghost α) (m' : Memory (Word α))
    (K' : Ghost α) : Prop :=
  ∀ (t : ElementType) (w : Word α) (v : Seen α), (∀ q ∈ w.blocks, 0 < L q) →
    Sees K (capacity m) t w v → Sees K' (capacity m') t w v

section

variable {m m' m₁ m₂ : Memory (Word α)} {K K' K₁ K₂ : Ghost α} {D : Nat → Prop} {L L' : Nat → Nat}
  {t : ElementType} {w : Word α} {v : Seen α} {p q : Nat}

/-! ## Referring -/

theorem held_pos (hw : w ∈ K.elements p) (hq : q ∈ w.blocks) : 0 < held Word.blocks K q := by
  unfold held
  rw [tally_pos, List.mem_flatMap]
  have hp : p < K.length := by
    by_contra hge
    rw [Heap.elements, List.getElem?_eq_none (by omega)] at hw
    simp at hw
  refine ⟨K[p], List.getElem_mem hp, List.mem_flatMap.2 ⟨w, ?_, hq⟩⟩
  rwa [Heap.elements, List.getElem?_eq_getElem hp] at hw

theorem Counted.refs_pos (hC : Counted K L) (hq : 0 < L q ∨ 0 < held Word.blocks K q) :
    0 < K.refs q := by
  have := hC q
  omega

theorem Counted.element (hC : Counted K L) (hw : w ∈ K.elements p) (hq : q ∈ w.blocks) :
    0 < K.refs q := hC.refs_pos (Or.inr (held_pos hw hq))

theorem Sees.refs_pos (h : Sees K L' t w v) (hq : q ∈ w.blocks) : 0 < K.refs q := by
  cases w with
  | plain a => simp [Word.blocks] at hq
  | array handle =>
    cases t with
    | plain => cases v <;> exact h.elim
    | array element =>
      cases v with
      | plain b => exact h.elim
      | array elements =>
        have hdata : handle.data = some q := by simpa [Word.blocks, ArrayHandle.blocks] using hq
        have hmatch := h.2
        rw [hdata] at hmatch
        exact hmatch.1

theorem Tracks.block (hT : Tracks m K D) (hp : 0 < K.refs p) :
    ∃ b, m[p]? = some (some b) ∧ ¬ D p ∧ b.count = K.refs p ∧
      (K.elements p).map some <+: b.cells := by
  by_cases hD : D p
  · have := (hT.rest p (Or.inl hD)).1
    omega
  by_cases hb : ∃ b, m[p]? = some (some b)
  · obtain ⟨b, hb⟩ := hb
    obtain ⟨h1, -, h3⟩ := hT.live p b hb hD
    exact ⟨b, hb, hD, h1.symm, h3⟩
  · have := (hT.rest p (Or.inr fun b h => hb ⟨b, h⟩)).1
    omega

theorem Tracks.lt_length (hT : Tracks m K D) (hp : 0 < K.refs p) : p < m.length := by
  obtain ⟨b, hb, -⟩ := hT.block hp
  exact (List.getElem?_eq_some_iff.1 hb).1

/-! ## Frames -/

/-- What is seen through a word depends on the buffers that can be reached from it. -/
theorem Sees.frame {C C' : Nat → Nat} {P : Nat → Prop}
    (hP : ∀ p, P p → 0 < K.refs p → 0 < K'.refs p ∧ K'.elements p = K.elements p ∧ C' p = C p)
    (hclosed : ∀ p, P p → ∀ w ∈ K.elements p, ∀ q ∈ w.blocks, P q)
    (t : ElementType) (w : Word α) (v : Seen α) (hw : ∀ q ∈ w.blocks, P q) (h : Sees K C t w v) :
    Sees K' C' t w v := by
  induction t generalizing w v with
  | plain => cases w <;> cases v <;> exact h
  | array element ih =>
    cases w with
    | plain a => cases v <;> exact h
    | array handle =>
      cases v with
      | plain b => exact h
      | array elements =>
        obtain ⟨hlen, hdata⟩ := h
        refine ⟨hlen, ?_⟩
        cases hd : handle.data with
        | none =>
          rw [hd] at hdata
          exact hdata
        | some p =>
          rw [hd] at hdata
          have hp : P p := hw p (by simp [Word.blocks, ArrayHandle.blocks, hd])
          obtain ⟨hrefs, hcap, hC, hall⟩ := hdata
          obtain ⟨h1, h2, h3⟩ := hP p hp hrefs
          refine ⟨h1, hcap, hC.trans h3.symm, ?_⟩
          rw [h2]
          have hin := hclosed p hp
          clear h2 hlen
          generalize K.elements p = ws at hall hin
          induction hall with
          | nil => exact .nil
          | cons hx _ ihall =>
            exact .cons (ih _ _ (hin _ (List.mem_cons_self ..)) hx)
              (ihall fun w hw => hin w (List.mem_cons_of_mem _ hw))

theorem Keeps.of_live (hC : Counted K L)
    (hP : ∀ p, 0 < K.refs p → 0 < K'.refs p ∧ K'.elements p = K.elements p ∧
      capacity m' p = capacity m p) : Keeps L' m K m' K' := by
  intro t w v _ h
  refine Sees.frame (P := fun p => 0 < K.refs p) (fun p _ => hP p)
    (fun p _ w hw q hq => hC.element hw hq) t w v (fun q hq => h.refs_pos hq) h

/-- Where only one buffer changes, to which no other refers, all that does not refer to it is seen
as before. -/
theorem Keeps.of_apart (hheld : held Word.blocks K p = 0) (hL : L p = 0)
    (hP : ∀ q, q ≠ p → 0 < K.refs q → 0 < K'.refs q ∧ K'.elements q = K.elements q ∧
      capacity m' q = capacity m q) : Keeps L m K m' K' := by
  intro t w v hw h
  refine Sees.frame (P := fun q => q ≠ p) hP (fun r _ w hw q hq hqp => ?_) t w v
    (fun q hq hqp => ?_) h
  · have := held_pos hw (hqp ▸ hq)
    omega
  · have := hw q hq
    rw [hqp] at this
    omega

theorem Keeps.refl : Keeps L m K m K := fun _ _ _ _ h => h

theorem Keeps.trans (h₁ : Keeps L m K m₁ K₁) (h₂ : Keeps L m₁ K₁ m₂ K₂) : Keeps L m K m₂ K₂ :=
  fun t w v hw h => h₂ t w v hw (h₁ t w v hw h)

theorem Keeps.mono (h : Keeps L m K m' K') (hle : ∀ q, 0 < L' q → 0 < L q) : Keeps L' m K m' K' :=
  fun t w v hw hs => h t w v (fun q hq => hle q (hw q hq)) hs

theorem Keeps.holds (h : Keeps L m K m' K') {array : ArrayHandle} {elements : List (Seen α)}
    (hw : ∀ q ∈ array.blocks, 0 < L q)
    (hs : Holds K (capacity m) (Sees K (capacity m) t) array elements) :
    Holds K' (capacity m') (Sees K' (capacity m') t) array elements :=
  h (.array t) (.array array) (.array elements) hw hs

theorem Keeps.forall₂ (h : Keeps L m K m' K') {ws : List (Word α)} {vs : List (Seen α)}
    (hw : ∀ w ∈ ws, ∀ q ∈ w.blocks, 0 < L q) (hs : List.Forall₂ (Sees K (capacity m) t) ws vs) :
    List.Forall₂ (Sees K' (capacity m') t) ws vs := by
  induction hs with
  | nil => exact .nil
  | cons hx _ ih =>
    exact .cons (h _ _ _ (hw _ (List.mem_cons_self ..)) hx)
      (ih fun w hw' => hw w (List.mem_cons_of_mem _ hw'))

end

end Nomo.Arrays
