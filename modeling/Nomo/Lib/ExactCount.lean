import Nomo.Lib.RefCount

/-!
# Exact counts

A heap counts exactly for `L` when the count of every buffer is the number of references to it: those
inside buffers and those in `L`.  Nothing has leaked then, and nothing that is referred to has been
freed; and there is at most one `L` for which a heap counts exactly, so that two ledgers can be told
apart by the counts.
-/

namespace Nomo.Lib.RefCount

open Heap

universe u

variable {V : Type u} {handles : V → List Nat} {H : Heap V} {L L' : Nat → Nat}

/-- Every count is the number of references to its buffer. -/
def Exact (handles : V → List Nat) (H : Heap V) (L : Nat → Nat) : Prop :=
  ∀ g, held handles H g + L g = H.refs g

theorem weight_set (handles : V → List Nat) (H : Heap V) (h : Nat) (b : Buffer V)
    (hlt : h < H.length) :
    weight handles (H.set h b) + ((H.elements h).flatMap handles).length
      = weight handles H + (b.elements.flatMap handles).length := by
  have hH : H = H.take h ++ H[h] :: H.drop (h + 1) := by
    rw [← List.drop_eq_getElem_cons hlt, List.take_append_drop]
  have helements : H.elements h = H[h].elements := by
    rw [elements, List.getElem?_eq_getElem hlt]
    rfl
  rw [helements, List.set_eq_take_append_cons_drop, if_pos hlt]
  unfold weight
  conv_rhs => rw [hH]
  simp only [List.flatMap_append, List.flatMap_cons, List.length_append]
  omega

namespace Exact

theorem unique (h : Exact handles H L) (h' : Exact handles H L') : L = L' := by
  funext g
  have := h g
  have := h' g
  omega

theorem congr (h : Exact handles H L) (hL : L = L') : Exact handles H L' := hL ▸ h

theorem lt_length (h : Exact handles H L) {g : Nat} (hg : 0 < L g) : g < H.length := by
  refine lt_length_of_refs (Nat.lt_of_lt_of_le hg ?_)
  have := h g
  omega

theorem retain (h : Exact handles H L) {hs : List Nat} (hlt : ∀ g ∈ hs, g < H.length) :
    Exact handles (H.retain hs) (tally hs + L) := by
  intro g
  have hg := h g
  rw [held_retain, Pi.add_apply]
  by_cases hin : g < H.length
  · rw [refs_retain H hs g hin]
    omega
  have hrefs : refs (H.retain hs) g = 0 := by
    rw [refs, List.getElem?_eq_none (by rw [length_retain]; omega)]
    rfl
  have hzero : H.refs g = 0 := by
    rw [refs, List.getElem?_eq_none (by omega)]
    rfl
  have htally : tally hs g = 0 := by
    by_contra hne
    exact hin (hlt g (tally_pos.1 (Nat.pos_of_ne_zero hne)))
  omega

private theorem releaseFuel (n : Nat) (hs : List Nat) (hn : hs.length + weight handles H ≤ n)
    (h : Exact handles H (tally hs + L)) :
    Exact handles (Heap.releaseFuel handles n hs H) L ∧
      (Heap.releaseFuel handles n hs H).length = H.length := by
  induction n generalizing hs H with
  | zero =>
    obtain rfl : hs = [] := List.length_eq_zero_iff.1 (by omega)
    rw [tally_nil, zero_add] at h
    exact ⟨h, rfl⟩
  | succ n ih =>
    cases hs with
    | nil =>
      rw [tally_nil, zero_add] at h
      exact ⟨h, rfl⟩
    | cons r rest =>
      have hr := h r
      rw [tally_cons] at hr
      simp only [Pi.add_apply, tally_singleton, if_true] at hr
      have hlt : r < H.length := lt_length_of_refs (by omega)
      have hb : H[r]? = some H[r] := List.getElem?_eq_getElem hlt
      have hrefs : H.refs r = H[r].refs := by
        rw [refs, hb]
        rfl
      have helements : H.elements r = H[r].elements := by
        rw [elements, hb]
        rfl
      rw [Heap.releaseFuel, hb]
      simp only [List.length_cons] at hn
      dsimp only
      by_cases hlast : H[r].refs ≤ 1
      · -- the last reference: the buffer goes, and its elements are to be released
        rw [if_pos hlast]
        have hheld := held_set handles H r ⟨0, []⟩ hlt
        have hweight := weight_set handles H r ⟨0, []⟩ hlt
        rw [helements] at hheld hweight
        simp only [List.flatMap_nil, List.length_nil] at hweight
        have hnext := ih (H := H.set r ⟨0, []⟩) (H[r].elements.flatMap handles ++ rest)
          (by rw [List.length_append]; omega) ?_
        · rwa [List.length_set] at hnext
        intro g
        have hg := h g
        have hheld := congrFun hheld g
        rw [tally_cons] at hg
        simp only [List.flatMap_nil, tally_nil, tally_append, Pi.add_apply, Pi.zero_apply,
          tally_singleton] at hheld hg ⊢
        rw [refs_set]
        by_cases hrg : r = g
        · subst hrg
          rw [if_pos ⟨rfl, hlt⟩]
          simp only [if_true] at hg
          show _ = 0
          omega
        · rw [if_neg fun hx => hrg hx.1]
          simp only [if_neg hrg] at hg
          omega
      · rw [if_neg hlast]
        have hheld := held_set handles H r ⟨H[r].refs - 1, H[r].elements⟩ hlt
        have hweight := weight_set handles H r ⟨H[r].refs - 1, H[r].elements⟩ hlt
        rw [helements] at hheld hweight
        dsimp only at hheld hweight
        have hnext := ih (H := H.set r ⟨H[r].refs - 1, H[r].elements⟩) rest (by omega) ?_
        · rwa [List.length_set] at hnext
        intro g
        have hg := h g
        have hheld := congrFun hheld g
        rw [tally_cons] at hg
        simp only [Pi.add_apply, tally_singleton] at hheld hg ⊢
        rw [refs_set]
        by_cases hrg : r = g
        · subst hrg
          rw [if_pos ⟨rfl, hlt⟩]
          simp only [if_true] at hg
          show _ = H[r].refs - 1
          omega
        · rw [if_neg fun hx => hrg hx.1]
          simp only [if_neg hrg] at hg
          omega

theorem release {hs : List Nat} (h : Exact handles H (tally hs + L)) :
    Exact handles (H.release handles hs) L ∧ (H.release handles hs).length = H.length :=
  releaseFuel _ hs (Nat.le_refl _) h

theorem alloc {vs : List V} (h : Exact handles H (tally (vs.flatMap handles) + L)) :
    Exact handles (H.alloc vs).2 (tally [(H.alloc vs).1] + L) := by
  intro g
  have hg := h g
  have hheld : held handles (H ++ [⟨1, vs⟩]) = held handles H + tally (vs.flatMap handles) := by
    rw [held_append]
    simp [held]
  have hnew : H.refs H.length = 0 := by
    rw [refs, List.getElem?_eq_none (Nat.le_refl _)]
    rfl
  simp only [Heap.alloc, hheld, refs_append, Pi.add_apply, tally_singleton] at hg ⊢
  by_cases hgl : H.length = g
  · subst hgl
    simp only [if_true]
    omega
  · rw [if_neg hgl, if_neg (Ne.symm hgl)]
    omega

end Exact

end Nomo.Lib.RefCount
