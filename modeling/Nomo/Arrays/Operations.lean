import Nomo.Arrays.Uniqueness

/-!
# The operations of an array

Every helper that writes to an array first makes its buffer unique and then works on it with the
buffer opened: the elements are *loose*, each a reference of its own, until the buffer is closed over
those that it holds in the end.  What is loose and does not go back is what the helper returns.
-/

namespace Nomo.Arrays

open Nomo.Lib.Allocation Nomo.Lib.RefCount Nomo.Lib.RefCount.Heap

variable {α : Type} {m m' m₀ : Memory (Word α)} {K K' K₀ : Ghost α} {D : Nat → Prop}
  {L : Nat → Nat} {t : ElementType} {w : Word α} {v : Seen α} {p : Nat} {P : String → Prop}
  {array : ArrayHandle} {elements : List (Seen α)}

/-! ## Working on an opened buffer -/

/-- A word with what is seen through it. -/
abbrev Loose (α : Type) := Word α × Seen α

/-- The references of loose words. -/
def looseBlocks (loose : List (Loose α)) : List Nat := loose.flatMap fun x => x.1.blocks

/-- The cells that hold loose words. -/
def looseCells (loose : List (Loose α)) : List (Option (Word α)) := loose.map fun x => some x.1

/-- At work on the opened block `p`, since the program was at `m₀`: what its cells are, and which
words are loose. -/
structure Works (t : ElementType) (D : Nat → Prop) (L : Nat → Nat) (m₀ : Memory (Word α))
    (K₀ : Ghost α) (p : Nat) (cells : List (Option (Word α))) (loose : List (Loose α))
    (m : Memory (Word α)) (K : Ghost α) : Prop where
  apart : ¬ D p
  tracks : Tracks m K fun q => q = p ∨ D q
  counted : Counted K (tally (looseBlocks loose) + L)
  sees : ∀ x ∈ loose, Sees K (capacity m) t x.1 x.2
  keeps : Keeps L m₀ K₀ m K
  opened : ∀ q, D q → m[q]? = m₀[q]?
  block : m[p]? = some (some ⟨1, cells⟩)

section

variable {cells : List (Option (Word α))} {loose : List (Loose α)}

theorem looseBlocks_perm {loose₁ loose₂ : List (Loose α)} (h : loose₁.Perm loose₂) :
    tally (looseBlocks loose₁) = tally (looseBlocks loose₂) :=
  tally_perm (h.flatMap_right _)

theorem looseCells_prefix_iff {buffer : List (Loose α)} :
    looseCells buffer <+: cells ↔
      ∀ (i : Nat) (hi : i < buffer.length), cells[i]? = some (some buffer[i].1) := by
  rw [List.prefix_iff_getElem?]
  simp [looseCells]

theorem Works.perm {loose' : List (Loose α)} (h : Works t D L m₀ K₀ p cells loose m K)
    (hperm : loose.Perm loose') : Works t D L m₀ K₀ p cells loose' m K where
  apart := h.apart
  tracks := h.tracks
  counted := looseBlocks_perm hperm ▸ h.counted
  sees := fun x hx => h.sees x (hperm.mem_iff.2 hx)
  keeps := h.keeps
  opened := h.opened
  block := h.block

theorem Works.start (hT : Tracks m K D) (hC : Counted K (tally array.blocks + L))
    (hs : Holds K (capacity m) (Sees K (capacity m) t) array elements) (hp : array.data = some p)
    (hone : K.refs p = 1) :
    ∃ K' cells loose, Works t D L m K p cells loose m K' ∧ looseCells loose <+: cells ∧
      loose.map Prod.snd = elements ∧ cells.length = array.cap := by
  obtain ⟨-, hdata⟩ := hs
  rw [hp] at hdata
  obtain ⟨hrefs, -, hcap, hall⟩ := hdata
  obtain ⟨b, hb, hD, hcount, hcells⟩ := hT.block hrefs
  have hC : Counted K (tally [p] + L) := by
    have hblocks : array.blocks = [p] := by
      rw [ArrayHandle.blocks, hp]
      rfl
    rwa [hblocks] at hC
  obtain ⟨hT₁, hC₁, hkeeps⟩ := open_spec hT hC hone hb b.count
  have hself : m.set p (some { b with count := b.count }) = m := by
    rw [← (List.getElem?_eq_some_iff.1 hb).2]
    exact List.set_getElem_self _
  rw [hself] at hT₁ hkeeps
  have hb : m[p]? = some (some ⟨1, b.cells⟩) := by
    rw [hb, ← hone, ← hcount]
  have hfst : ((K.elements p).zip elements).map Prod.fst = K.elements p :=
    List.map_fst_zip hall.length_eq.le
  have hblocks : looseBlocks ((K.elements p).zip elements) = (K.elements p).flatMap Word.blocks := by
    rw [looseBlocks, ← List.flatMap_map, hfst]
  refine ⟨K.set p ⟨0, []⟩, b.cells, (K.elements p).zip elements,
    ⟨hD, hT₁, hblocks ▸ hC₁, ?_, ?_, fun _ _ => rfl, hb⟩, ?_, ?_, ?_⟩
  · intro x hx
    refine hkeeps t x.1 x.2 (fun q hq => ?_) ?_
    · have hmem : x.1 ∈ K.elements p := hfst ▸ List.mem_map_of_mem hx
      have : 0 < tally ((K.elements p).flatMap Word.blocks) q :=
        tally_pos.2 (List.mem_flatMap.2 ⟨x.1, hmem, hq⟩)
      simp only [Pi.add_apply]
      omega
    · exact (List.forall₂_iff_zip.1 hall).2 hx
  · refine hkeeps.mono fun q hq => ?_
    simp only [Pi.add_apply]
    omega
  · have hmap : looseCells ((K.elements p).zip elements) = (K.elements p).map some := by
      rw [looseCells, ← hfst, List.map_map]
      rw [hfst]
      rfl
    rwa [hmap]
  · exact List.map_snd_zip hall.length_eq.ge
  · rw [hcap, capacity_of hb]

theorem Works.load (h : Works t D L m₀ K₀ p cells loose m K) {i : Nat}
    (hw : cells[i]? = some (some w)) :
    Safely (load p i) (fun w' m' => w = w' ∧ m = m') P m :=
  safely_load h.block hw ⟨rfl, rfl⟩

theorem Works.store (h : Works t D L m₀ K₀ p cells loose m K) {i : Nat} (hi : i < cells.length)
    (w : Word α) :
    Safely (store p i w)
      (fun _ m' => Works t D L m₀ K₀ p (cells.set i (some w)) loose m' K) P m := by
  have hkeeps (L' : Nat → Nat) := write_spec L' ⟨1, cells.set i (some w)⟩ h.tracks
    h.counted (Or.inl rfl) h.block (by simp)
  refine safely_store h.block hi ⟨h.apart, (hkeeps L).1, h.counted, fun x hx => ?_,
    h.keeps.trans (hkeeps L).2, fun q hq => ?_, ?_⟩
  · exact (hkeeps fun _ => 1).2 t x.1 x.2 (fun _ _ => Nat.one_pos) (h.sees x hx)
  · have hqp : p ≠ q := by
      rintro rfl
      exact h.apart hq
    rw [List.getElem?_set_ne hqp, h.opened q hq]
  · exact List.getElem?_set_self (List.getElem?_eq_some_iff.1 h.block).1

theorem Works.retain (h : Works t D L m₀ K₀ p cells loose m K)
    (hs : Sees K (capacity m) t w v) :
    Safely (elementRetain t w)
      (fun w' m' => w = w' ∧ ∃ K', Works t D L m₀ K₀ p cells ((w, v) :: loose) m' K') P m := by
  refine (elementRetain_spec (fun _ => 1) h.tracks h.counted hs).weaken ?_
  rintro w' m' ⟨hw', K', hleaves⟩
  have hsum : tally (looseBlocks ((w, v) :: loose)) + L
      = tally w.blocks + (tally (looseBlocks loose) + L) := by
    rw [looseBlocks, List.flatMap_cons, tally_append, add_assoc]
    rfl
  refine ⟨hw'.symm, K', h.apart, hleaves.tracks, hsum ▸ hleaves.counted, fun x hx => ?_,
    h.keeps.trans (hleaves.keeps.mono fun _ _ => Nat.one_pos),
    fun q hq => (hleaves.opened q (Or.inr hq)).trans (h.opened q hq),
    (hleaves.opened p (Or.inl rfl)).trans h.block⟩
  rcases List.mem_cons.1 hx with rfl | hx
  · exact hleaves.keeps t w v (fun _ _ => Nat.one_pos) hs
  · exact hleaves.keeps t x.1 x.2 (fun _ _ => Nat.one_pos) (h.sees x hx)

theorem Works.release (h : Works t D L m₀ K₀ p cells ((w, v) :: loose) m K) :
    Safely (elementRelease t w)
      (fun _ m' => ∃ K', Works t D L m₀ K₀ p cells loose m' K') P m := by
  have hsum : tally (looseBlocks ((w, v) :: loose)) + L
      = tally w.blocks + (tally (looseBlocks loose) + L) := by
    rw [looseBlocks, List.flatMap_cons, tally_append, add_assoc]
    rfl
  refine (release_spec t m K _ _ w v P h.tracks (hsum ▸ h.counted)
    (h.sees _ (List.mem_cons_self ..))).weaken ?_
  rintro _ m' ⟨K', hreleases⟩
  refine ⟨K', h.apart, hreleases.tracks, hreleases.counted, fun x hx => ?_,
    h.keeps.trans (hreleases.keeps.mono fun q hq => ?_),
    fun q hq => (hreleases.opened q (Or.inr hq)).trans (h.opened q hq),
    (hreleases.opened p (Or.inl rfl)).trans h.block⟩
  · refine hreleases.keeps t x.1 x.2 (fun q hq => ?_) (h.sees x (List.mem_cons_of_mem _ hx))
    have : 0 < tally (looseBlocks loose) q := tally_pos.2 (List.mem_flatMap.2 ⟨x, hx, hq⟩)
    simp only [Pi.add_apply]
    omega
  · simp only [Pi.add_apply]
    omega

/-- From `m₀` an array has become one through which the given elements are seen, and the words of
`out` have been handed on. -/
def Becomes (t : ElementType) (D : Nat → Prop) (L : Nat → Nat) (m₀ : Memory (Word α)) (K₀ : Ghost α)
    (array : ArrayHandle) (elements : List (Seen α)) (out : List (Loose α)) (m : Memory (Word α)) :
    Prop :=
  ∃ K, Leaves D L m₀ K₀ (tally array.blocks + (tally (looseBlocks out) + L)) m K ∧
    Holds K (capacity m) (Sees K (capacity m) t) array elements ∧
      ∀ x ∈ out, Sees K (capacity m) t x.1 x.2

/-- Close the buffer over some of the loose words; the others are handed on. -/
theorem Works.finish (h : Works t D L m₀ K₀ p cells loose m K) (buffer out : List (Loose α))
    (hcells : looseCells buffer <+: cells) (hperm : loose.Perm (buffer ++ out))
    (hpos : 0 < cells.length) :
    Becomes t D L m₀ K₀ ⟨buffer.length, cells.length, some p⟩ (buffer.map Prod.snd) out m := by
  have h := h.perm hperm
  have hsum : tally (looseBlocks (buffer ++ out)) + L
      = tally ((buffer.map Prod.fst).flatMap Word.blocks) + (tally (looseBlocks out) + L) := by
    rw [looseBlocks, List.flatMap_append, tally_append, add_assoc, List.flatMap_map]
    rfl
  have hmap : (buffer.map Prod.fst).map some = looseCells buffer := by
    rw [List.map_map]
    rfl
  have hclose (L' : Nat → Nat) := close_spec L' h.tracks h.apart (hsum ▸ h.counted) h.block
    rfl (hmap ▸ hcells)
  have hlt : p < K.length := h.tracks.length ▸ (List.getElem?_eq_some_iff.1 h.block).1
  refine ⟨_, ⟨(hclose L).1, (hclose L).2.1, h.keeps.trans (hclose L).2.2, h.opened⟩,
    ⟨by simp, ?_, hpos, ?_, ?_⟩, fun x hx => ?_⟩
  · rw [refs_set, if_pos ⟨rfl, hlt⟩]
    exact Nat.one_pos
  · rw [capacity_of h.block]
  · rw [elements_set, if_pos ⟨rfl, hlt⟩, List.forall₂_map_left_iff, List.forall₂_map_right_iff,
      List.forall₂_same]
    intro x hx
    exact (hclose fun _ => 1).2.2 t x.1 x.2 (fun _ _ => Nat.one_pos)
      (h.sees x (List.mem_append_left _ hx))
  · exact (hclose fun _ => 1).2.2 t x.1 x.2 (fun _ _ => Nat.one_pos)
      (h.sees x (List.mem_append_right _ hx))

end

theorem Works.forget {cells : List (Option (Word α))} {loose : List (Loose α)}
    (h : Works .plain D L m₀ K₀ p cells loose m K) : Works .plain D L m₀ K₀ p cells [] m K where
  apart := h.apart
  tracks := h.tracks
  counted := by
    have hnone : looseBlocks loose = [] := by
      rw [looseBlocks, List.flatMap_eq_nil_iff]
      rintro ⟨w, v⟩ hx
      have hsees := h.sees _ hx
      cases w with
      | plain a => rfl
      | array handle => cases v <;> exact hsees.elim
    have hcounted := h.counted
    rwa [hnone] at hcounted
  sees := fun _ hx => nomatch hx
  keeps := h.keeps
  opened := h.opened
  block := h.block

theorem Works.releaseElements {cells : List (Option (Word α))} {loose : List (Loose α)}
    (hworks : Works t D L m₀ K₀ p cells loose m K) (hcells : looseCells loose <+: cells) (cap : Nat) :
    Safely (releaseElements t ⟨loose.length, cap, some p⟩)
      (fun _ m' => ∃ K', Works t D L m₀ K₀ p cells [] m' K') P m := by
  cases t with
  | plain => exact ⟨K, hworks.forget⟩
  | array inner =>
    rw [looseCells_prefix_iff] at hcells
    refine (safely_range (fun i m' => ∃ K', Works (.array inner) D L m₀ K₀ p cells (loose.drop i) m' K')
      ?_ ?_).weaken ?_
    · exact ⟨K, hworks⟩
    · rintro i hi m' ⟨K', hworks⟩
      rw [List.drop_eq_getElem_cons hi] at hworks
      refine Safely.bind (hworks.load (hcells i hi)) ?_
      rintro _ _ ⟨rfl, rfl⟩
      exact hworks.release
    · rintro _ m' ⟨K', hworks⟩
      rw [List.drop_length] at hworks
      exact ⟨K', hworks⟩

/-- Take a reference to an element, and release the one in the buffer: it is loose once. -/
theorem Works.takeElement {cells : List (Option (Word α))} {loose : List (Loose α)} {β : Type}
    {cap i : Nat} {f : Word α → Action (Word α) β} {Q : β → Memory (Word α) → Prop}
    (h : Works t D L m₀ K₀ p cells loose m K) (hcells : looseCells loose <+: cells)
    (hi : i < loose.length)
    (hf : ∀ m' K', Works t D L m₀ K₀ p cells loose m' K' → Safely (f loose[i].1) Q P m') :
    Safely (do
        let value ← elementAt ⟨loose.length, cap, some p⟩ i
        let value ← elementRetain t value
        let old ← elementAt ⟨loose.length, cap, some p⟩ i
        elementRelease t old
        f value) Q P m := by
  rw [looseCells_prefix_iff] at hcells
  refine Safely.bind (h.load (hcells i hi)) ?_
  rintro _ _ ⟨rfl, rfl⟩
  refine Safely.bind (h.retain (h.sees _ (List.getElem_mem hi))) ?_
  rintro _ m₁ ⟨rfl, K₁, h⟩
  refine Safely.bind (h.load (hcells i hi)) ?_
  rintro _ _ ⟨rfl, rfl⟩
  refine Safely.bind h.release ?_
  rintro _ m₂ ⟨K₂, h⟩
  exact hf m₂ K₂ h

section

variable {room : Memory (Word α) → Nat → Bool} (hT : Tracks m K D)
  (hC : Counted K (tally array.blocks + L))
  (hs : Holds K (capacity m) (Sees K (capacity m) t) array elements)

include hT hC hs

theorem makeUnique_start (needed : Nat) (hneeded : elements.length ≤ needed) (hpos : 0 < needed) :
    Safely (makeUnique room t array needed)
      (fun array' m' => ∃ p K' cells loose, Works t D L m K p cells loose m' K' ∧
        array' = ⟨loose.length, cells.length, some p⟩ ∧ looseCells loose <+: cells ∧
        loose.map Prod.snd = elements ∧ needed ≤ cells.length) (Refused room) m := by
  refine (makeUnique_spec room needed hT hC hs hneeded).weaken ?_
  rintro ⟨len, cap, data⟩ m' ⟨K', hleaves, hs', ⟨hdata, hzero⟩ | ⟨p, hdata, hone, hcap⟩⟩
  · omega
  obtain rfl : data = some p := hdata
  obtain ⟨K'', cells, loose, hworks, hcells, hloose, hlen⟩ :=
    Works.start hleaves.tracks hleaves.counted hs' rfl hone
  have hlen' : len = loose.length := by
    rw [← List.length_map Prod.snd, hloose]
    exact hs'.1
  obtain rfl : cells.length = cap := hlen
  refine ⟨p, K'', cells, loose, ⟨hworks.apart, hworks.tracks, hworks.counted, hworks.sees,
    hleaves.keeps.trans hworks.keeps, fun q hq => ?_, hworks.block⟩, by rw [hlen'], hcells, hloose,
    hcap⟩
  rw [hworks.opened q hq, hleaves.opened q hq]

/-! ## The operations -/

theorem arrayPush_spec (hv : Sees K (capacity m) t w v) (hw : ∀ q ∈ w.blocks, 0 < L q) :
    Safely (arrayPush room t array w)
      (fun array' m' => Becomes t D L m K array' (elements ++ [v]) [] m') (Refused room) m := by
  unfold arrayPush
  have hlen := hs.1
  refine Safely.bind (makeUnique_start hT hC hs (array.len + 1) (by omega) (by omega)) ?_
  rintro _ m₁ ⟨p, K₁, cells, loose, hworks, rfl, hcells, rfl, hneeded⟩
  rw [List.length_map] at hlen
  refine Safely.bind (hworks.retain (hworks.keeps t w v hw hv)) ?_
  rintro _ m₂ ⟨rfl, K₂, hworks⟩
  refine Safely.bind (hworks.store (i := loose.length) (by omega) w) ?_
  rintro _ m₃ hworks
  have hfinish := hworks.finish (loose ++ [(w, v)]) [] ?_ ?_ ?_
  · rw [List.length_append, List.length_set, List.map_append] at hfinish
    exact hfinish
  · rw [looseCells_prefix_iff] at hcells ⊢
    intro i hi
    rw [List.length_append, List.length_singleton] at hi
    rcases Nat.lt_or_eq_of_le (Nat.le_of_lt_succ hi) with hi | rfl
    · rw [List.getElem?_set_ne (by omega), hcells i hi, List.getElem_append_left hi]
    · rw [List.getElem?_set_self (by omega), List.getElem_concat_length]
      rfl
  · rw [List.append_nil]
    exact (List.perm_append_singleton _ _).symm
  · rw [List.length_set]
    omega

theorem arrayInsert_spec (index : Nat) (hv : Sees K (capacity m) t w v) (hw : ∀ q ∈ w.blocks, 0 < L q) :
    Safely (arrayInsert room t array index w)
      (fun array' m' => index ≤ elements.length ∧
        Becomes t D L m K array' (elements.insertIdx index v) [] m')
      (fun message => Refused room message ∨
        (elements.length < index ∧ message = "Array.insert index out of bounds")) m := by
  unfold arrayInsert
  have hlen := hs.1
  by_cases hindex : array.len < index
  · rw [if_pos hindex]
    exact Or.inr ⟨by omega, rfl⟩
  rw [if_neg hindex]
  refine Safely.bind ((makeUnique_start hT hC hs (array.len + 1) (by omega) (by omega)).mono
    (fun _ _ h => h) fun _ => Or.inl) ?_
  rintro _ m₁ ⟨p, K₁, cells, loose, hworks, rfl, hcells, rfl, hneeded⟩
  rw [List.length_map] at hlen ⊢
  rw [looseCells_prefix_iff] at hcells
  -- after `k` rounds the last `k` elements are one place further
  refine Safely.bind (Q := fun _ m' => ∃ cells', Works t D L m K p cells' loose m' K₁ ∧
      cells'.length = cells.length ∧ (∀ i < index, cells'[i]? = cells[i]?) ∧
      ∀ i, index < i → i ≤ loose.length → cells'[i]? = cells[i - 1]?)
    ((safely_range (fun k m' => ∃ cells', Works t D L m K p cells' loose m' K₁ ∧
      cells'.length = cells.length ∧ (∀ i < loose.length - k, cells'[i]? = cells[i]?) ∧
      ∀ i, loose.length - k < i → i ≤ loose.length → cells'[i]? = cells[i - 1]?) ?_ ?_).weaken ?_) ?_
  · exact ⟨cells, hworks, rfl, fun _ _ => rfl, fun i h1 h2 => by omega⟩
  · rintro k hk m' ⟨cells', hworks, hlength, hbelow, habove⟩
    have hk : k < loose.length - index := hk
    refine Safely.bind (hworks.load (i := loose.length - k - 1) (w := loose[loose.length - k - 1].1) ?_) ?_
    · rw [hbelow _ (by omega), hcells _ (by omega)]
    rintro _ _ ⟨rfl, rfl⟩
    refine (hworks.store (i := loose.length - k) (by omega) _).weaken ?_
    rintro _ m'' hworks
    refine ⟨_, hworks, by rw [List.length_set, hlength], fun i hi => ?_, fun i h1 h2 => ?_⟩
    · rw [List.getElem?_set_ne (by omega), hbelow i (by omega)]
    · by_cases hi : i = loose.length - k
      · subst hi
        rw [List.getElem?_set_self (by omega), hcells _ (by omega)]
      · rw [List.getElem?_set_ne (by omega), habove i (by omega) h2]
  · rintro _ m' ⟨cells', hworks, hlength, hbelow, habove⟩
    have hsub : loose.length - (loose.length - index) = index := by omega
    dsimp only at hbelow habove
    rw [hsub] at hbelow habove
    exact ⟨cells', hworks, hlength, hbelow, habove⟩
  rintro _ m₂ ⟨cells', hworks, hlength, hbelow, habove⟩
  refine Safely.bind (hworks.retain (hworks.keeps t w v hw hv)) ?_
  rintro _ m₃ ⟨rfl, K₃, hworks⟩
  refine Safely.bind (hworks.store (i := index) (by omega) w) ?_
  rintro _ m₄ hworks
  refine ⟨by omega, ?_⟩
  have hfinish := hworks.finish (loose.insertIdx index (w, v)) [] ?_ ?_ ?_
  · rw [List.length_insertIdx, if_pos (by omega), List.length_set, hlength, List.map_insertIdx]
      at hfinish
    exact hfinish
  · rw [looseCells_prefix_iff]
    intro i hi
    rw [List.length_insertIdx, if_pos (by omega)] at hi
    rw [List.getElem_insertIdx]
    split_ifs with h1 h2
    · rw [List.getElem?_set_ne (by omega), hbelow i h1, hcells i (by omega)]
    · subst h2
      rw [List.getElem?_set_self (by omega)]
    · rw [List.getElem?_set_ne (by omega), habove i (by omega) (by omega), hcells _ (by omega)]
  · rw [List.append_nil]
    exact (List.perm_insertIdx _ _ (by omega)).symm
  · rw [List.length_set]
    omega

theorem arrayClear_spec :
    Safely (arrayClear room t array) (fun array' m' => Becomes t D L m K array' [] [] m')
      (Refused room) m := by
  unfold arrayClear
  have hlen := hs.1
  rcases Nat.eq_zero_or_pos array.len with hzero | hpos
  · obtain rfl : elements = [] := List.length_eq_zero_iff.1 (by omega)
    refine Safely.bind (makeUnique_spec room array.len hT hC hs (by simp)) ?_
    rintro ⟨len, cap, data⟩ m₁ ⟨K₁, hleaves, hs₁, -⟩
    obtain rfl : len = 0 := hs₁.1
    have hloop : Safely (releaseElements t ⟨0, cap, data⟩) (fun _ m' => m₁ = m') (Refused room)
        m₁ := by
      cases t <;> exact rfl
    refine Safely.bind hloop ?_
    rintro _ _ rfl
    refine ⟨K₁, ?_, hs₁, fun _ hx => nomatch hx⟩
    rw [show looseBlocks ([] : List (Loose α)) = [] from rfl, tally_nil, zero_add]
    exact hleaves
  · refine Safely.bind (makeUnique_start hT hC hs array.len (by omega) hpos) ?_
    rintro _ m₁ ⟨p, K₁, cells, loose, hworks, rfl, hcells, rfl, hneeded⟩
    refine Safely.bind (hworks.releaseElements hcells _) ?_
    rintro _ m₂ ⟨K₂, hworks⟩
    exact hworks.finish [] [] List.nil_prefix .rfl (by omega)

theorem Becomes.refl :
    Becomes t D L m K array elements [] m := by
  refine ⟨K, ?_, hs, fun _ hx => nomatch hx⟩
  rw [show looseBlocks ([] : List (Loose α)) = [] from rfl, tally_nil, zero_add]
  exact Leaves.refl hT hC

theorem arrayPop_spec :
    Safely (arrayPop room t array)
      (fun r m' => ∃ out : Option (Loose α), r.2 = out.map Prod.fst ∧
        elements.getLast? = out.map Prod.snd ∧
        Becomes t D L m K r.1 elements.dropLast out.toList m') (Refused room) m := by
  unfold arrayPop
  have hlen := hs.1
  by_cases hzero : array.len = 0
  · rw [if_pos hzero]
    obtain rfl : elements = [] := List.length_eq_zero_iff.1 (by omega)
    exact ⟨none, rfl, rfl, Becomes.refl hT hC hs⟩
  rw [if_neg hzero]
  refine Safely.bind (makeUnique_start hT hC hs array.len (by omega) (by omega)) ?_
  rintro _ m₁ ⟨p, K₁, cells, loose, hworks, rfl, hcells, rfl, hneeded⟩
  rw [List.length_map] at hlen
  have hne : loose ≠ [] := List.ne_nil_of_length_pos (by omega)
  refine hworks.takeElement (i := loose.length - 1) hcells (by omega) fun m₂ K₂ hworks => ?_
  have hpos : loose.length - 1 < loose.length := by omega
  have hlast : loose[loose.length - 1] = loose.getLast hne :=
    (List.getLast_eq_getElem hne).symm
  refine ⟨some (loose.getLast hne), by rw [hlast]; rfl, ?_, ?_⟩
  · rw [List.getLast?_map, List.getLast?_eq_some_getLast hne]
  have hfinish := hworks.finish loose.dropLast [loose.getLast hne] ?_ ?_ ?_
  · rw [List.length_dropLast, List.map_dropLast] at hfinish
    exact hfinish
  · refine List.IsPrefix.trans ?_ hcells
    rw [looseCells, List.map_dropLast]
    exact List.dropLast_prefix _
  · rw [List.dropLast_append_getLast hne]
  · omega

theorem arrayRemove_spec (index : Nat) :
    Safely (arrayRemove room t array index)
      (fun r m' => ∃ out : Option (Loose α), r.2 = out.map Prod.fst ∧
        elements[index]? = out.map Prod.snd ∧
        Becomes t D L m K r.1 (elements.eraseIdx index) out.toList m') (Refused room) m := by
  unfold arrayRemove
  have hlen := hs.1
  by_cases hindex : array.len ≤ index
  · rw [if_pos hindex]
    refine ⟨none, rfl, List.getElem?_eq_none (by omega), ?_⟩
    rw [List.eraseIdx_of_length_le (by omega)]
    exact Becomes.refl hT hC hs
  rw [if_neg hindex]
  refine Safely.bind (makeUnique_start hT hC hs array.len (by omega) (by omega)) ?_
  rintro _ m₁ ⟨p, K₁, cells, loose, hworks, rfl, hcells, rfl, hneeded⟩
  rw [List.length_map] at hlen
  have hi : index < loose.length := by omega
  refine hworks.takeElement (i := index) hcells hi fun m₂ K₂ hworks => ?_
  rw [looseCells_prefix_iff] at hcells
  -- after `k` rounds `k` elements above the index are one place lower
  refine Safely.bind (Q := fun _ m' => ∃ cells', Works t D L m K p cells' loose m' K₂ ∧
      cells'.length = cells.length ∧ (∀ i < index, cells'[i]? = cells[i]?) ∧
      ∀ i, index ≤ i → i < loose.length - 1 → cells'[i]? = cells[i + 1]?)
    ((safely_range (fun k m' => ∃ cells', Works t D L m K p cells' loose m' K₂ ∧
      cells'.length = cells.length ∧ (∀ i < index, cells'[i]? = cells[i]?) ∧
      (∀ i, index ≤ i → i < index + k → cells'[i]? = cells[i + 1]?) ∧
      ∀ i, index + k ≤ i → cells'[i]? = cells[i]?) ?_ ?_).weaken ?_) ?_
  · exact ⟨cells, hworks, rfl, fun _ _ => rfl, fun i h1 h2 => by omega, fun _ _ => rfl⟩
  · rintro k hk m' ⟨cells', hworks, hlength, hbelow, hmoved, habove⟩
    have hk : k < loose.length - 1 - index := hk
    refine Safely.bind (hworks.load (i := index + k + 1) (w := loose[index + k + 1].1) ?_) ?_
    · rw [habove _ (by omega), hcells _ (by omega)]
    rintro _ _ ⟨rfl, rfl⟩
    refine (hworks.store (i := index + k) (by omega) _).weaken ?_
    rintro _ m'' hworks
    refine ⟨_, hworks, by rw [List.length_set, hlength], fun i hi => ?_, fun i h1 h2 => ?_,
      fun i h => ?_⟩
    · rw [List.getElem?_set_ne (by omega), hbelow i hi]
    · by_cases hi : i = index + k
      · subst hi
        rw [List.getElem?_set_self (by omega), hcells _ (by omega)]
      · rw [List.getElem?_set_ne (by omega), hmoved i h1 (by omega)]
    · rw [List.getElem?_set_ne (by omega), habove i (by omega)]
  · rintro _ m' ⟨cells', hworks, hlength, hbelow, hmoved, -⟩
    dsimp only at hmoved
    exact ⟨cells', hworks, hlength, hbelow, fun i h1 h2 => hmoved i h1 (by omega)⟩
  rintro _ m₃ ⟨cells', hworks, hlength, hbelow, hmoved⟩
  refine ⟨some loose[index], rfl, ?_, ?_⟩
  · rw [List.getElem?_map, List.getElem?_eq_getElem hi]
  have hfinish := hworks.finish (loose.eraseIdx index) [loose[index]] ?_ ?_ ?_
  · rw [List.length_eraseIdx, if_pos hi, hlength, ← List.eraseIdx_map] at hfinish
    exact hfinish
  · rw [looseCells_prefix_iff]
    intro i hi'
    rw [List.length_eraseIdx, if_pos hi] at hi'
    rw [List.getElem_eraseIdx]
    split_ifs with h
    · rw [hbelow i h, hcells i (by omega)]
    · rw [hmoved i (by omega) hi', hcells _ (by omega)]
  · refine List.Perm.trans ?_ (List.perm_append_singleton _ _).symm
    exact (List.getElem_cons_eraseIdx_perm hi).symm
  · omega

theorem arraySet_spec (index : Nat) (hv : Sees K (capacity m) t w v) (hw : ∀ q ∈ w.blocks, 0 < L q) :
    Safely (arraySet room t array index w)
      (fun array' m' => index < elements.length ∧
        Becomes t D L m K array' (elements.set index v) [] m')
      (fun message => Refused room message ∨
        (elements.length ≤ index ∧ message = "Array.set index out of bounds")) m := by
  unfold arraySet
  have hlen := hs.1
  by_cases hindex : array.len ≤ index
  · rw [if_pos hindex]
    exact Or.inr ⟨by omega, rfl⟩
  rw [if_neg hindex]
  refine Safely.bind ((makeUnique_start hT hC hs array.len (by omega) (by omega)).mono
    (fun _ _ h => h) fun _ => Or.inl) ?_
  rintro _ m₁ ⟨p, K₁, cells, loose, hworks, rfl, hcells, rfl, hneeded⟩
  rw [List.length_map] at hlen ⊢
  rw [looseCells_prefix_iff] at hcells
  have hi : index < loose.length := by omega
  have hworks := hworks.perm (List.getElem_cons_eraseIdx_perm hi).symm
  refine Safely.bind (hworks.load (hcells index hi)) ?_
  rintro _ _ ⟨rfl, rfl⟩
  refine Safely.bind hworks.release ?_
  rintro _ m₂ ⟨K₂, hworks⟩
  refine Safely.bind (hworks.retain (hworks.keeps t w v hw hv)) ?_
  rintro _ m₃ ⟨rfl, K₃, hworks⟩
  refine Safely.bind (hworks.store (i := index) (by omega) w) ?_
  rintro _ m₄ hworks
  refine ⟨hi, ?_⟩
  have hfinish := hworks.finish (loose.set index (w, v)) [] ?_ ?_ ?_
  · rw [List.length_set, List.length_set, List.map_set] at hfinish
    exact hfinish
  · rw [looseCells_prefix_iff]
    intro i hi'
    rw [List.length_set] at hi'
    rw [List.getElem_set]
    split_ifs with h
    · subst h
      rw [List.getElem?_set_self (by omega)]
    · rw [List.getElem?_set_ne h, hcells i hi']
  · rw [List.append_nil]
    exact (List.set_perm_cons_eraseIdx hi _).symm
  · rw [List.length_set]
    omega

end

variable {room : Memory (Word α) → Nat → Bool}

theorem arrayGet_spec (index : Nat) (hT : Tracks m K D) (hC : Counted K L)
    (hs : Holds K (capacity m) (Sees K (capacity m) t) array elements) :
    Safely (arrayGet t array index)
      (fun r m' => ∃ out : Option (Loose α), r = out.map Prod.fst ∧
        elements[index]? = out.map Prod.snd ∧
        ∃ K', Leaves D (fun _ => 1) m K (tally (looseBlocks out.toList) + L) m' K' ∧
          ∀ x ∈ out, Sees K' (capacity m') t x.1 x.2) P m := by
  unfold arrayGet
  have hlen := hs.1
  by_cases hindex : array.len ≤ index
  · rw [if_pos hindex]
    refine ⟨none, rfl, List.getElem?_eq_none (by omega), K, ?_, fun _ hx => nomatch hx⟩
    rw [show looseBlocks (none : Option (Loose α)).toList = [] from rfl, tally_nil, zero_add]
    exact Leaves.refl hT hC
  rw [if_neg hindex]
  have hi : index < elements.length := by omega
  refine Safely.bind (elementAt_spec hT hs hi) ?_
  rintro w _ ⟨rfl, hw⟩
  refine Safely.bind (elementRetain_spec (fun _ => 1) hT hC hw) ?_
  rintro w' m₁ ⟨hw', K₁, hleaves⟩
  subst w'
  refine ⟨some (w, elements[index]), rfl, List.getElem?_eq_getElem hi, K₁, ?_, ?_⟩
  · have hblocks : looseBlocks [(w, elements[index])] = w.blocks := List.append_nil _
    exact hblocks ▸ hleaves
  · intro x hx
    obtain rfl := Option.mem_some_iff.1 hx
    exact hleaves.keeps t w _ (fun _ _ => Nat.one_pos) hw

theorem arrayIndex_spec (index : Nat) (hT : Tracks m K D) (hC : Counted K L)
    (hs : Holds K (capacity m) (Sees K (capacity m) t) array elements) :
    Safely (arrayIndex t array index)
      (fun w m' => ∃ v, elements[index]? = some v ∧
        ∃ K', Leaves D (fun _ => 1) m K (tally w.blocks + L) m' K' ∧ Sees K' (capacity m') t w v)
      (fun message => elements[index]? = none ∧ message = "array index out of bounds") m := by
  unfold arrayIndex
  have hlen := hs.1
  by_cases hindex : array.len ≤ index
  · rw [if_pos hindex]
    exact ⟨List.getElem?_eq_none (by omega), rfl⟩
  rw [if_neg hindex]
  have hi : index < elements.length := by omega
  refine Safely.bind (elementAt_spec hT hs hi) ?_
  rintro w _ ⟨rfl, hw⟩
  refine (elementRetain_spec (fun _ => 1) hT hC hw).weaken ?_
  rintro w' m₁ ⟨hw', K₁, hleaves⟩
  subst w'
  exact ⟨elements[index], List.getElem?_eq_getElem hi, K₁, hleaves,
    hleaves.keeps t w _ (fun _ _ => Nat.one_pos) hw⟩

end Nomo.Arrays
