import Mathlib

/-!
# Merkle trees with promoted nodes

A Merkle tree over any number of leaves: each level pairs neighbours from the left, and a last node
without a neighbour is promoted unchanged to the next level.  An inclusion path lists, for every
level at which a sibling exists, the sibling and its side; verifying it folds the path over the leaf
without looking at the index.

- `walk_path`: the path of an index folds to the root (completeness);
- `mem_of_walk_eq_root`: a digest that folds to the root by *any* path is one of the leaves
  (soundness), provided that no two different pairs hashed on the way have the same digest and that
  leaves cannot be taken for inner nodes.

The verifier does not check the shape of a path, so soundness cannot go by counting levels.  It goes
from the root down instead: whatever the walk reaches at a level, it has reached from a child of it.
-/

namespace Nomo.Lib.Merkle

universe u

variable {δ : Type u} (node : δ → δ → δ)

/-- The side on which a sibling stands. -/
inductive Side where
  | left | right
deriving DecidableEq, Repr

/-- Combine a digest with its sibling. -/
def combine (h : δ) : Side × δ → δ
  | (.left, sibling) => node sibling h
  | (.right, sibling) => node h sibling

/-- The two digests combined by a step. -/
def operands (h : δ) : Side × δ → δ × δ
  | (.left, sibling) => (sibling, h)
  | (.right, sibling) => (h, sibling)

/-- Fold a path over a digest. -/
def walk (h : δ) (steps : List (Side × δ)) : δ := steps.foldl (combine node) h

/-- The next level: neighbours are paired, a last single node is promoted. -/
def nextLevel : List δ → List δ
  | a :: b :: rest => node a b :: nextLevel rest
  | level => level

/-- Climb until one node is left, at most `fuel` levels. -/
def climb : Nat → List δ → List δ
  | 0, level => level
  | fuel + 1, level => if 1 < level.length then climb fuel (nextLevel node level) else level

/-- The root of a tree, if it has a leaf. -/
def root (leaves : List δ) : Option δ := (climb node leaves.length leaves).head?

/-- The sibling of an index at one level, if there is one. -/
def sibling (level : List δ) (i : Nat) : List (Side × δ) :=
  if i % 2 = 1 then (level[i - 1]?).toList.map fun h => (.left, h)
  else (level[i + 1]?).toList.map fun h => (.right, h)

/-- The inclusion path of an index, at most `fuel` levels. -/
def path : Nat → List δ → Nat → List (Side × δ)
  | 0, _, _ => []
  | fuel + 1, level, i =>
    if 1 < level.length then sibling level i ++ path fuel (nextLevel node level) (i / 2) else []

/-! ## Levels -/

theorem length_nextLevel (level : List δ) :
    (nextLevel node level).length = (level.length + 1) / 2 := by
  fun_induction nextLevel node level with
  | case1 a b rest ih =>
    simp only [List.length_cons, ih]
    omega
  | case2 level h =>
    match level, h with
    | [], _ => simp
    | [a], _ => simp
    | a :: b :: rest, h => exact absurd rfl (h a b rest)

/-- The node above index `i` is what the step at `i` makes of the node at `i`. -/
theorem getElem?_nextLevel (level : List δ) (i : Nat) (h : δ) (hi : level[i]? = some h) :
    (nextLevel node level)[i / 2]? = some (walk node h (sibling level i)) := by
  fun_induction nextLevel node level generalizing i with
  | case1 a b rest ih =>
    match i, hi with
    | 0, rfl => rfl
    | 1, rfl => rfl
    | i + 2, hi =>
      have hsib : sibling (a :: b :: rest) (i + 2) = sibling rest i := by
        unfold sibling
        rw [Nat.add_mod_right]
        split_ifs with hodd
        · obtain ⟨j, rfl⟩ : ∃ j, i = j + 1 := ⟨i - 1, by omega⟩
          rfl
        · rfl
      rw [Nat.add_div_right _ (by omega), hsib]
      exact ih i hi
  | case2 level hlevel =>
    match level, hlevel with
    | [], _ => cases hi
    | [a], _ =>
      match i, hi with
      | 0, rfl => rfl
    | a :: b :: rest, hlevel => exact absurd rfl (hlevel a b rest)

/-! ## Completeness -/

theorem walk_append (h : δ) (steps steps' : List (Side × δ)) :
    walk node h (steps ++ steps') = walk node (walk node h steps) steps' := List.foldl_append

/-- The path of an index at any level climbs to what the level climbs to. -/
theorem walk_path_climb (fuel : Nat) (level : List δ) (i : Nat) (h : δ)
    (hfuel : level.length ≤ fuel + 1) (hi : level[i]? = some h) :
    (climb node fuel level).head? = some (walk node h (path node fuel level i)) := by
  induction fuel generalizing level i h with
  | zero =>
    have hlt : i < level.length := (List.getElem?_eq_some_iff.1 hi).1
    obtain rfl : i = 0 := by omega
    rw [climb, List.head?_eq_getElem?, hi]
    rfl
  | succ fuel ih =>
    have hlt : i < level.length := (List.getElem?_eq_some_iff.1 hi).1
    unfold climb path
    split_ifs with hlen
    · have hnext := length_nextLevel node level
      rw [walk_append]
      exact ih _ (i / 2) _ (by omega) (getElem?_nextLevel node level i h hi)
    · obtain rfl : i = 0 := by omega
      rw [List.head?_eq_getElem?, hi]
      rfl

/-- **Completeness**: the inclusion path of a leaf folds to the root. -/
theorem walk_path (leaves : List δ) (i : Nat) (h : δ) (hi : leaves[i]? = some h) :
    root node leaves = some (walk node h (path node leaves.length leaves i)) :=
  walk_path_climb node leaves.length leaves i h (by omega) hi

/-! ## Soundness -/

/-- The pairs that one level combines. -/
def pairs : List δ → List (δ × δ)
  | a :: b :: rest => (a, b) :: pairs rest
  | _ => []

/-- The pairs combined on the way to the root. -/
def nodeInputs : Nat → List δ → List (δ × δ)
  | 0, _ => []
  | fuel + 1, level =>
    if 1 < level.length then pairs level ++ nodeInputs fuel (nextLevel node level) else []

/-- The pairs combined by a walk. -/
def walkInputs (h : δ) : List (Side × δ) → List (δ × δ)
  | [] => []
  | step :: steps => operands h step :: walkInputs (combine node h step) steps

theorem combine_eq (h : δ) (step : Side × δ) :
    combine node h step = node (operands h step).1 (operands h step).2 := by
  rcases step with ⟨_ | _, sibling⟩ <;> rfl

theorem walkInputs_append (h : δ) (steps steps' : List (Side × δ)) :
    walkInputs node h (steps ++ steps')
      = walkInputs node h steps ++ walkInputs node (walk node h steps) steps' := by
  induction steps generalizing h with
  | nil => rfl
  | cons step steps ih =>
    rw [List.cons_append, walkInputs, ih]
    rfl

theorem mem_nextLevel {level : List δ} {h : δ} (hmem : h ∈ nextLevel node level) :
    h ∈ level ∨ ∃ p ∈ pairs level, h = node p.1 p.2 := by
  fun_induction nextLevel node level with
  | case1 a b rest ih =>
    rcases List.mem_cons.1 hmem with rfl | hmem
    · exact Or.inr ⟨(a, b), List.mem_cons_self .., rfl⟩
    · rcases ih hmem with h' | ⟨p, hp, rfl⟩
      · exact Or.inl (List.mem_cons_of_mem _ (List.mem_cons_of_mem _ h'))
      · exact Or.inr ⟨p, List.mem_cons_of_mem _ hp, rfl⟩
  | case2 level h => exact Or.inl hmem

theorem mem_of_mem_pairs {level : List δ} {p : δ × δ} (hp : p ∈ pairs level) :
    p.1 ∈ level ∧ p.2 ∈ level := by
  fun_induction pairs level with
  | case1 a b rest ih =>
    rcases List.mem_cons.1 hp with rfl | hp
    · simp
    · exact ⟨by simp [(ih hp).1], by simp [(ih hp).2]⟩
  | case2 => cases hp

theorem exists_prefix_mem {h : δ} {steps : List (Side × δ)} (fuel : Nat) (level : List δ)
    (hnode : ∀ p ∈ nodeInputs node fuel level, ∀ q ∈ walkInputs node h steps,
      node p.1 p.2 = node q.1 q.2 → p = q)
    (hleaf : ∀ p ∈ nodeInputs node fuel level, h ≠ node p.1 p.2)
    (hroot : walk node h steps ∈ climb node fuel level) :
    ∃ front back, steps = front ++ back ∧ walk node h front ∈ level := by
  induction fuel generalizing level with
  | zero => exact ⟨steps, [], (List.append_nil _).symm, hroot⟩
  | succ fuel ih =>
    unfold climb at hroot
    unfold nodeInputs at hnode hleaf
    split_ifs at hroot hnode hleaf with hlen
    · obtain ⟨front, back, rfl, hmem⟩ := ih (nextLevel node level)
        (fun p hp => hnode p (List.mem_append_right _ hp))
        (fun p hp => hleaf p (List.mem_append_right _ hp)) hroot
      rcases mem_nextLevel node hmem with hmem | ⟨p, hp, heq⟩
      · exact ⟨front, back, rfl, hmem⟩
      -- The node has two children; the walk came from one of them by its last step.
      rcases List.eq_nil_or_concat front with rfl | ⟨before, step, rfl⟩
      · exact absurd heq (hleaf p (List.mem_append_left _ hp))
      rw [List.concat_eq_append, walk_append] at heq
      have hp' := hnode p (List.mem_append_left _ hp) (operands (walk node h before) step) (by
        simp [walkInputs_append, walkInputs])
        (heq.symm.trans (combine_eq node (walk node h before) step))
      refine ⟨before, step :: back, by simp, ?_⟩
      have hchildren := mem_of_mem_pairs hp
      rw [hp'] at hchildren
      rcases step with ⟨_ | _, sibling⟩
      · exact hchildren.2
      · exact hchildren.1
    · exact ⟨steps, [], (List.append_nil _).symm, hroot⟩

/-- **Soundness**: a digest that folds to the root by any path is one of the leaves. -/
theorem mem_of_walk_eq_root (leaves : List δ) {h : δ} {steps : List (Side × δ)}
    (hnode : ∀ p ∈ nodeInputs node leaves.length leaves, ∀ q ∈ walkInputs node h steps,
      node p.1 p.2 = node q.1 q.2 → p = q)
    (hleaf : ∀ p ∈ nodeInputs node leaves.length leaves, h ≠ node p.1 p.2)
    (hapart : ∀ q ∈ walkInputs node h steps, node q.1 q.2 ∉ leaves)
    (hroot : root node leaves = some (walk node h steps)) : h ∈ leaves := by
  obtain ⟨front, back, rfl, hmem⟩ :=
    exists_prefix_mem node leaves.length leaves hnode hleaf (List.mem_of_mem_head? hroot)
  rcases List.eq_nil_or_concat front with rfl | ⟨before, step, rfl⟩
  · exact hmem
  rw [List.concat_eq_append, walk_append] at hmem
  refine absurd hmem ?_
  show combine node (walk node h before) step ∉ leaves
  rw [combine_eq]
  exact hapart _ (by simp [walkInputs_append, walkInputs])

end Nomo.Lib.Merkle
