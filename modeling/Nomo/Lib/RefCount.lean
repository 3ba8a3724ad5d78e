import Mathlib

/-!
# Reference-counted heaps

A heap of buffers, each with a reference count and a list of elements that may themselves refer to
buffers.  Everything is stated over an arbitrary type of elements with a function `handles` that
lists the buffers an element refers to.

What the rest of a program holds on to is a function `L : Nat → Nat`: for each buffer, how many
references to it the program has.  `Owned H S L` says that the counts of the heap `H` cover every
reference, those in `L` and those inside buffers, and sets apart a collection `S` of buffers whose
count is one and whose one reference is not part of `L`.  Since every operation below preserves
`Owned` for an *arbitrary* `S`, code that is given only `L` to work with cannot copy, change the
count of, or free a buffer in `S`: this is the frame rule the uniqueness results rest on.
-/

namespace Nomo.Lib.RefCount

universe u

/-- A buffer: its reference count and its elements. -/
structure Buffer (V : Type u) where
  refs : Nat
  elements : List V
deriving Repr, DecidableEq

/-- A heap; a buffer is named by its position. -/
abbrev Heap (V : Type u) := List (Buffer V)

variable {V : Type u}

/-- How often each buffer is named in a list of handles. -/
def tally (hs : List Nat) : Nat → Nat := fun g => hs.count g

@[simp] theorem tally_nil : tally [] = 0 := rfl

@[simp] theorem tally_append (hs ks : List Nat) : tally (hs ++ ks) = tally hs + tally ks := by
  funext g
  simp [tally]

theorem tally_cons (h : Nat) (hs : List Nat) : tally (h :: hs) = tally [h] + tally hs := by
  rw [← tally_append]
  rfl

theorem tally_singleton (h g : Nat) : tally [h] g = if h = g then 1 else 0 := by
  simp [tally, List.count_singleton]

theorem tally_pos {hs : List Nat} {g : Nat} : 0 < tally hs g ↔ g ∈ hs := List.count_pos_iff

theorem tally_perm {hs ks : List Nat} (h : hs.Perm ks) : tally hs = tally ks := by
  funext g
  exact h.count_eq g

namespace Heap

/-- The reference count of a buffer; zero where there is none. -/
def refs (H : Heap V) (g : Nat) : Nat := (H[g]?).elim 0 Buffer.refs

/-- The elements of a buffer. -/
def elements (H : Heap V) (g : Nat) : List V := (H[g]?).elim [] Buffer.elements

/-- The references that the elements of buffers hold. -/
def held (handles : V → List Nat) (H : Heap V) : Nat → Nat :=
  tally (H.flatMap fun b => b.elements.flatMap handles)

/-- Increment the count of one buffer. -/
def retainOne (H : Heap V) (h : Nat) : Heap V := H.modify h fun b => { b with refs := b.refs + 1 }

/-- Count one more reference for each handle of a list. -/
def retain (H : Heap V) (hs : List Nat) : Heap V := hs.foldl retainOne H

/-- Give up the references of a list of handles.  A buffer whose last reference goes is cleared
and gives up the references of its elements in turn; every step either shortens the list or moves
the references of a cleared buffer into it. -/
def releaseFuel (handles : V → List Nat) : Nat → List Nat → Heap V → Heap V
  | 0, _, H => H
  | _ + 1, [], H => H
  | n + 1, h :: rest, H =>
    match H[h]? with
    | none => releaseFuel handles n rest H
    | some b =>
      if b.refs ≤ 1 then
        releaseFuel handles n (b.elements.flatMap handles ++ rest) (H.set h ⟨0, []⟩)
      else
        releaseFuel handles n rest (H.set h { b with refs := b.refs - 1 })

/-- The number of references inside buffers. -/
def weight (handles : V → List Nat) (H : Heap V) : Nat :=
  (H.flatMap fun b => b.elements.flatMap handles).length

/-- Give up the references of a list of handles, with as many steps as that can take. -/
def release (handles : V → List Nat) (H : Heap V) (hs : List Nat) : Heap V :=
  releaseFuel handles (hs.length + weight handles H) hs H

/-- A new buffer with one reference. -/
def alloc (H : Heap V) (vs : List V) : Nat × Heap V := (H.length, H ++ [⟨1, vs⟩])

/-- Make the buffer behind a reference exclusive: keep it if this is the only reference, otherwise
trade the reference for one to a fresh copy. -/
def detach (handles : V → List Nat) (H : Heap V) (h : Nat) : Nat × Heap V :=
  if H.refs h ≤ 1 then (h, H)
  else
    let vs := H.elements h
    let H := H.retain (vs.flatMap handles)
    alloc (H.modify h fun b => { b with refs := b.refs - 1 }) vs

/-- Overwrite the elements of a buffer in place. -/
def replace (H : Heap V) (h : Nat) (vs : List V) : Heap V :=
  H.modify h fun b => { b with elements := vs }

end Heap

open Heap

/-- The references counted by `L`, and those inside buffers, are covered by the counts; the buffers
of `S` have exactly one reference and it lies outside both. -/
structure Owned (handles : V → List Nat) (H : Heap V) (S : Nat → Prop) (L : Nat → Nat) : Prop where
  counted : ∀ g, held handles H g + L g ≤ H.refs g
  apart : ∀ g, S g → H.refs g = 1 ∧ held handles H g = 0 ∧ L g = 0

/-! ## What the operations do to counts and elements -/

@[simp] theorem refs_modify (H : Heap V) (h g : Nat) (f : Buffer V → Buffer V) :
    refs (H.modify h f) g = if h = g then (H[g]?).elim 0 (fun b => (f b).refs) else H.refs g := by
  unfold refs
  rw [List.getElem?_modify]
  by_cases hg : h = g
  · subst hg
    cases H[h]? <;> simp
  · simp [hg]

@[simp] theorem refs_set (H : Heap V) (h g : Nat) (b : Buffer V) :
    refs (H.set h b) g = if h = g ∧ h < H.length then b.refs else H.refs g := by
  unfold refs
  rw [List.getElem?_set]
  by_cases hg : h = g
  · subst hg
    by_cases hl : h < H.length
    all_goals simp [hl]
  · simp [hg]

theorem refs_append (H : Heap V) (b : Buffer V) (g : Nat) :
    refs (H ++ [b]) g = if g = H.length then b.refs else H.refs g := by
  unfold refs
  rcases Nat.lt_trichotomy g H.length with hlt | heq | hgt
  · rw [List.getElem?_append_left hlt, if_neg (by omega)]
  · subst heq
    simp
  · rw [if_neg (by omega), List.getElem?_eq_none (by simp; omega), List.getElem?_eq_none (by omega)]

theorem lt_length_of_refs {H : Heap V} {g : Nat} (h : 0 < H.refs g) : g < H.length := by
  by_contra hge
  rw [refs, List.getElem?_eq_none (by omega)] at h
  simp at h

theorem held_append (handles : V → List Nat) (H K : Heap V) :
    held handles (H ++ K) = held handles H + held handles K := by
  simp [held]

theorem held_cons (handles : V → List Nat) (b : Buffer V) (H : Heap V) :
    held handles (b :: H) = tally (b.elements.flatMap handles) + held handles H := by
  simp [held]

/-- Overwriting one buffer trades the references of its old elements for those of the new. -/
theorem held_set (handles : V → List Nat) (H : Heap V) (h : Nat) (b : Buffer V)
    (hlt : h < H.length) :
    held handles (H.set h b) + tally ((H.elements h).flatMap handles)
      = held handles H + tally (b.elements.flatMap handles) := by
  induction H generalizing h with
  | nil => simp at hlt
  | cons c H ih =>
    cases h with
    | zero =>
      simp only [List.set_cons_zero, held_cons, elements, List.getElem?_cons_zero, Option.elim_some]
      funext g
      simp only [Pi.add_apply]
      omega
    | succ h =>
      have := ih h (by simpa using hlt)
      simp only [List.set_cons_succ, held_cons, elements, List.getElem?_cons_succ] at this ⊢
      funext g
      have := congrFun this g
      simp only [Pi.add_apply] at this ⊢
      omega

theorem modify_eq_set (H : Heap V) (h : Nat) (f : Buffer V → Buffer V) (b : Buffer V)
    (hb : H[h]? = some b) : H.modify h f = H.set h (f b) := by
  apply List.ext_getElem?
  intro i
  rw [List.getElem?_modify, List.getElem?_set]
  by_cases hi : h = i
  · subst hi
    rw [hb]
    simp [(List.getElem?_eq_some_iff.1 hb).1]
  · simp [hi]

theorem held_modify_refs (handles : V → List Nat) (H : Heap V) (h : Nat) (f : Nat → Nat) :
    held handles (H.modify h fun b => { b with refs := f b.refs }) = held handles H := by
  by_cases hlt : h < H.length
  · have hb : H[h]? = some H[h] := List.getElem?_eq_getElem hlt
    rw [modify_eq_set H h _ _ hb]
    have := held_set handles H h { H[h] with refs := f H[h].refs } hlt
    simp only [elements, hb, Option.elim_some] at this
    funext g
    have := congrFun this g
    simp only [Pi.add_apply] at this
    omega
  · rw [List.modify_eq_self (by omega)]

@[simp] theorem length_retain (H : Heap V) (hs : List Nat) : (H.retain hs).length = H.length := by
  induction hs generalizing H with
  | nil => rfl
  | cons h hs ih =>
    show (retain (retainOne H h) hs).length = _
    rw [ih]
    simp [retainOne]

@[simp] theorem held_retain (handles : V → List Nat) (H : Heap V) (hs : List Nat) :
    held handles (H.retain hs) = held handles H := by
  induction hs generalizing H with
  | nil => rfl
  | cons h hs ih =>
    show held handles (retain (retainOne H h) hs) = _
    rw [ih]
    exact held_modify_refs handles H h (· + 1)

theorem refs_retain (H : Heap V) (hs : List Nat) (g : Nat) (hg : g < H.length) :
    refs (H.retain hs) g = H.refs g + tally hs g := by
  induction hs generalizing H with
  | nil => rfl
  | cons h hs ih =>
    show refs (retain (retainOne H h) hs) g = _
    rw [ih _ (by simpa [retainOne] using hg), retainOne, refs_modify, tally_cons]
    by_cases hh : h = g
    · subst hh
      simp [refs, List.getElem?_eq_getElem hg, tally]
      omega
    · simp [hh, tally]

/-! ## Ownership rules -/

namespace Owned

variable {handles : V → List Nat} {H : Heap V} {S : Nat → Prop} {L K : Nat → Nat}

theorem weaken (h : Owned handles H S L) (hle : ∀ g, K g ≤ L g) : Owned handles H S K where
  counted g := Nat.le_trans (Nat.add_le_add_left (hle g) _) (h.counted g)
  apart g hg := by
    obtain ⟨h1, h2, h3⟩ := h.apart g hg
    exact ⟨h1, h2, Nat.le_zero.1 (h3 ▸ hle g)⟩

theorem refs_pos (h : Owned handles H S L) {g : Nat} (hg : 0 < L g ∨ 0 < held handles H g) :
    0 < H.refs g := by
  have := h.counted g
  omega

theorem not_apart (h : Owned handles H S L) {g : Nat} (hg : 0 < L g ∨ 0 < held handles H g) :
    ¬ S g := by
  intro hs
  obtain ⟨-, h2, h3⟩ := h.apart g hs
  omega

theorem setApart (h : Owned handles H S (L + K)) (hone : ∀ g, 0 < K g → H.refs g = 1) :
    Owned handles H (fun g => S g ∨ 0 < K g) L where
  counted g := by
    have := h.counted g
    simp only [Pi.add_apply] at this
    omega
  apart g hg := by
    have hc := h.counted g
    simp only [Pi.add_apply] at hc
    rcases hg with hg | hg
    · obtain ⟨h1, h2, h3⟩ := h.apart g hg
      simp only [Pi.add_apply] at h3
      omega
    · have := hone g hg
      omega

theorem setApart_le (h : Owned handles H S (L + K)) (hone : ∀ g, 0 < K g → H.refs g = 1) (g : Nat) :
    K g ≤ 1 ∧ (S g → K g = 0) := by
  have hc := h.counted g
  simp only [Pi.add_apply] at hc
  constructor
  · by_cases hk : 0 < K g
    · have := hone g hk
      omega
    · omega
  · intro hs
    have := (h.apart g hs).2.2
    simp only [Pi.add_apply] at this
    omega

theorem restore (h : Owned handles H (fun g => S g ∨ 0 < K g) L)
    (hle : ∀ g, K g ≤ 1 ∧ (S g → K g = 0)) : Owned handles H S (L + K) where
  counted g := by
    have hc := h.counted g
    have hk := (hle g).1
    simp only [Pi.add_apply]
    by_cases hpos : 0 < K g
    · have := h.apart g (Or.inr hpos)
      omega
    · omega
  apart g hg := by
    obtain ⟨h1, h2, h3⟩ := h.apart g (Or.inl hg)
    exact ⟨h1, h2, by simp [h3, (hle g).2 hg]⟩

theorem retain (h : Owned handles H S L) (hs : List Nat)
    (hpos : ∀ g ∈ hs, 0 < L g ∨ 0 < held handles H g) :
    Owned handles (H.retain hs) S (tally hs + L) where
  counted g := by
    have hc := h.counted g
    by_cases hg : g < H.length
    · rw [refs_retain H hs g hg, held_retain]
      simp only [Pi.add_apply]
      omega
    have h0 : tally hs g = 0 := by
      by_contra hne
      have hmem : g ∈ hs := tally_pos.1 (Nat.pos_of_ne_zero hne)
      exact hg (lt_length_of_refs (h.refs_pos (hpos g hmem)))
    have hr : H.refs g = 0 := by
      by_contra hne
      exact hg (lt_length_of_refs (Nat.pos_of_ne_zero hne))
    rw [held_retain]
    simp only [Pi.add_apply]
    omega
  apart g hg := by
    obtain ⟨h1, h2, h3⟩ := h.apart g hg
    have h0 : tally hs g = 0 := by
      by_contra hne
      have hmem : g ∈ hs := tally_pos.1 (Nat.pos_of_ne_zero hne)
      exact h.not_apart (hpos g hmem) hg
    rw [refs_retain H hs g (lt_length_of_refs (by omega)), held_retain]
    exact ⟨by omega, h2, by simp [h0, h3]⟩

/-- One step of a release: a reference goes, and so do the elements of a buffer that nothing else
refers to. -/
private theorem drop_step (h : Nat) (ho : Owned handles H S (tally [h] + L)) (b : Buffer V)
    (hb : H[h]? = some b) :
    Owned handles (if b.refs ≤ 1 then H.set h ⟨0, []⟩ else H.set h { b with refs := b.refs - 1 }) S
      ((if b.refs ≤ 1 then tally (b.elements.flatMap handles) else 0) + L) := by
  have hlt : h < H.length := (List.getElem?_eq_some_iff.1 hb).1
  have hrefs : H.refs h = b.refs := by simp [Heap.refs, hb]
  have helems : H.elements h = b.elements := by simp [Heap.elements, hb]
  have hone := tally_singleton h
  have hfree := held_set handles H h ⟨0, []⟩ hlt
  have hdec := held_set handles H h { b with refs := b.refs - 1 } hlt
  rw [helems] at hfree hdec
  have hh : ∀ g, S g → h ≠ g := by
    rintro g hg rfl
    have := (ho.apart h hg).2.2
    simp [hone] at this
  split
  · rename_i hle
    refine { counted := ?_, apart := ?_ }
    · intro g
      have hc := ho.counted g
      have hf := congrFun hfree g
      simp only [Pi.add_apply, hone, refs_set, hlt, and_true, List.flatMap_nil, tally_nil,
        Pi.zero_apply] at hc hf ⊢
      split_ifs at hc ⊢ with hg
      · subst hg
        omega
      · omega
    · intro g hg
      obtain ⟨h1, h2, h3⟩ := ho.apart g hg
      have hf := congrFun hfree g
      simp only [Pi.add_apply, refs_set, List.flatMap_nil, tally_nil, Pi.zero_apply] at h3 hf ⊢
      rw [if_neg (fun hx => hh g hg hx.1)]
      exact ⟨h1, by omega, by omega⟩
  · rename_i hgt
    have hsame : held handles (H.set h { b with refs := b.refs - 1 }) = held handles H := by
      funext g
      have := congrFun hdec g
      simp only [Pi.add_apply] at this
      omega
    refine { counted := ?_, apart := ?_ }
    · intro g
      have hc := ho.counted g
      rw [hsame]
      simp only [Pi.add_apply, hone, refs_set, hlt, and_true, Pi.zero_apply] at hc ⊢
      split_ifs at hc ⊢ with hg
      · subst hg
        omega
      · omega
    · intro g hg
      obtain ⟨h1, h2, h3⟩ := ho.apart g hg
      rw [hsame, refs_set, if_neg (fun hx => hh g hg hx.1)]
      simp only [Pi.add_apply, Pi.zero_apply] at h3 ⊢
      exact ⟨h1, h2, by omega⟩

private theorem releaseFuel (n : Nat) (hs : List Nat) (ho : Owned handles H S (tally hs + L)) :
    Owned handles (Heap.releaseFuel handles n hs H) S L := by
  induction n generalizing hs H with
  | zero => exact ho.weaken fun g => by simp
  | succ n ih =>
    cases hs with
    | nil => exact ho.weaken fun g => by simp
    | cons h rest =>
      rw [Heap.releaseFuel]
      have ho : Owned handles H S (tally [h] + (tally rest + L)) := by
        rwa [← add_assoc, ← tally_cons]
      cases hb : H[h]? with
      | none => exact ih rest (ho.weaken fun g => by simp)
      | some b =>
        have hstep := drop_step h ho b hb
        by_cases hle : b.refs ≤ 1
        · simp only [if_pos hle] at hstep ⊢
          apply ih
          rwa [tally_append, add_assoc]
        · simp only [if_neg hle, zero_add] at hstep ⊢
          exact ih rest hstep

theorem release (hs : List Nat) (ho : Owned handles H S (tally hs + L)) :
    Owned handles (H.release handles hs) S L :=
  ho.releaseFuel _ hs

theorem alloc (vs : List V) (ho : Owned handles H S (tally (vs.flatMap handles) + L)) :
    Owned handles (H.alloc vs).2 S (tally [(H.alloc vs).1] + L) ∧
      (H.alloc vs).2.refs (H.alloc vs).1 = 1 := by
  have hone (g) : tally [H.length] g = if g = H.length then 1 else 0 := by
    rw [tally_singleton]
    exact if_congr eq_comm rfl rfl
  have hheld : held handles (H ++ [⟨1, vs⟩])
      = held handles H + tally (vs.flatMap handles) := by
    rw [held_append]
    simp [held]
  refine ⟨{ counted := ?_, apart := ?_ }, by simp [Heap.alloc, refs_append]⟩
  · intro g
    have hc := ho.counted g
    have hpos : 0 < H.refs g → g ≠ H.length := fun h => Nat.ne_of_lt (lt_length_of_refs h)
    simp only [Heap.alloc, hheld, refs_append, Pi.add_apply, hone] at hc ⊢
    split_ifs with hg
    · have : H.refs g = 0 := by
        by_contra hne
        exact hpos (Nat.pos_of_ne_zero hne) hg
      omega
    · omega
  · intro g hg
    obtain ⟨h1, h2, h3⟩ := ho.apart g hg
    have hne : g ≠ H.length := Nat.ne_of_lt (lt_length_of_refs (by omega))
    simp only [Heap.alloc, hheld, refs_append, Pi.add_apply, hone, if_neg hne] at h3 ⊢
    exact ⟨h1, by omega, by omega⟩

theorem detach (h : Nat) (ho : Owned handles H S (tally [h] + L)) :
    Owned handles (H.detach handles h).2 S (tally [(H.detach handles h).1] + L) ∧
      (H.detach handles h).2.refs (H.detach handles h).1 = 1 := by
  have hone := tally_singleton h
  have hpos : 0 < H.refs h := ho.refs_pos (Or.inl (by simp [hone]))
  unfold Heap.detach
  split
  · exact ⟨ho, by dsimp only; omega⟩
  rename_i hgt
  have hlt := lt_length_of_refs hpos
  have hin : ∀ g ∈ (H.elements h).flatMap handles, 0 < (tally [h] + L) g ∨ 0 < held handles H g := by
    intro g hg
    right
    have := congrFun (held_set handles H h ⟨0, []⟩ hlt) g
    have hg' := tally_pos.2 hg
    simp only [Pi.add_apply, List.flatMap_nil, tally_nil, Pi.zero_apply] at this
    omega
  have hret := ho.retain _ hin
  have hsame := held_modify_refs handles (H.retain ((H.elements h).flatMap handles)) h (· - 1)
  apply Owned.alloc
  refine { counted := ?_, apart := ?_ }
  · intro g
    have hc := hret.counted g
    rw [hsame]
    simp only [Pi.add_apply, refs_modify, hone] at hc ⊢
    split_ifs at hc ⊢ with hg
    · subst hg
      have hb : (H.retain ((H.elements h).flatMap handles))[h]? = some _ :=
        List.getElem?_eq_getElem (by simpa using hlt)
      simp only [Heap.refs, hb, Option.elim_some] at hc ⊢
      omega
    · omega
  · intro g hg
    obtain ⟨h1, h2, h3⟩ := hret.apart g hg
    have hne : h ≠ g := by
      rintro rfl
      simp [hone] at h3
    rw [hsame, refs_modify, if_neg hne]
    simp only [Pi.add_apply] at h3 ⊢
    exact ⟨h1, h2, by omega⟩

/-- Overwriting a buffer's elements moves `A` into it and `B` out of it. -/
theorem replace (h : Nat) (vs : List V) {A B : Nat → Nat}
    (ho : Owned handles H S (A + L)) (hlt : h < H.length)
    (hmove : tally (vs.flatMap handles) + B = tally ((H.elements h).flatMap handles) + A) :
    Owned handles (H.replace h vs) S (B + L) ∧
      ∀ g, (H.replace h vs).refs g = H.refs g := by
  have hb : H[h]? = some H[h] := List.getElem?_eq_getElem hlt
  have hrefs (g) : (H.replace h vs).refs g = H.refs g := by
    rw [Heap.replace, refs_modify]
    split_ifs with hg
    · subst hg
      simp [Heap.refs, hb]
    · rfl
  have hheld : held handles (H.replace h vs) + tally ((H.elements h).flatMap handles)
      = held handles H + tally (vs.flatMap handles) := by
    rw [Heap.replace, modify_eq_set H h _ _ hb]
    exact held_set handles H h _ hlt
  refine ⟨{ counted := ?_, apart := ?_ }, hrefs⟩
  · intro g
    have hc := ho.counted g
    have h1 := congrFun hheld g
    have h2 := congrFun hmove g
    rw [hrefs]
    simp only [Pi.add_apply] at hc h1 h2 ⊢
    omega
  · intro g hg
    obtain ⟨ha, hbz, hcz⟩ := ho.apart g hg
    have h1 := congrFun hheld g
    have h2 := congrFun hmove g
    rw [hrefs]
    simp only [Pi.add_apply] at h1 h2 hcz ⊢
    exact ⟨ha, by omega, by omega⟩

end Owned

end Nomo.Lib.RefCount
