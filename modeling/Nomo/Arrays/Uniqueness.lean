import Nomo.Arrays.Release

/-!
# Copy on write

`_make_unique` leaves an array with a buffer of its own, with room for what is needed: the buffer it
had, when no other reference leads there, and otherwise a copy that has taken a reference to every
element.
-/

namespace Nomo.Arrays

open Nomo.Lib.Allocation Nomo.Lib.RefCount Nomo.Lib.RefCount.Heap

variable {α : Type} {m m' m₁ m₂ : Memory (Word α)} {K K' K₁ K₂ : Ghost α} {D D' : Nat → Prop}
  {L L' : Nat → Nat} {t : ElementType} {w : Word α} {v : Seen α} {p q : Nat}
  {P : String → Prop} {array : ArrayHandle} {elements : List (Seen α)}

/-! ## Capacities -/

theorem iterate_double (needed c k : Nat) (hc : 0 < c) :
    min needed (c + k) ≤ (fun c => if c < needed then c * 2 else c)^[k] c ∧
      c ≤ (fun c => if c < needed then c * 2 else c)^[k] c := by
  induction k with
  | zero => simp
  | succ k ih =>
    rw [Function.iterate_succ_apply']
    obtain ⟨h1, h2⟩ := ih
    generalize (fun c => if c < needed then c * 2 else c)^[k] c = d at h1 h2 ⊢
    split_ifs <;> omega

theorem needed_le_grownCapacity (cap needed : Nat) : needed ≤ grownCapacity cap needed := by
  unfold grownCapacity
  rcases Nat.eq_zero_or_pos needed with rfl | hneeded
  · exact Nat.zero_le _
  · have hpos : 0 < if cap < needed then (if cap = 0 then 4 else cap) else cap := by
      split_ifs <;> omega
    have := (iterate_double needed _ needed hpos).1
    omega

theorem cap_le_grownCapacity (cap needed : Nat) : cap ≤ grownCapacity cap needed := by
  unfold grownCapacity
  rcases Nat.eq_zero_or_pos cap with rfl | hcap
  · exact Nat.zero_le _
  · have hsame : (if cap < needed then (if cap = 0 then 4 else cap) else cap) = cap := by
      split_ifs <;> omega
    rw [hsame]
    exact (iterate_double needed cap needed hcap).2

/-! ## Reading and writing cells -/

/-- Reading an element of an array gives a word through which that element is seen. -/
theorem elementAt_spec (hT : Tracks m K D)
    (hs : Holds K (capacity m) (Sees K (capacity m) t) array elements) {i : Nat}
    (hi : i < elements.length) :
    Safely (elementAt array i)
      (fun w m' => m = m' ∧ Sees K (capacity m) t w elements[i]) P m := by
  obtain ⟨len, cap, data⟩ := array
  obtain ⟨-, hdata⟩ := hs
  cases data with
  | none =>
    rw [hdata.1] at hi
    exact absurd hi (Nat.not_lt_zero i)
  | some p =>
    obtain ⟨hrefs, -, -, hall⟩ := hdata
    obtain ⟨b, hb, -, -, cells, hcells⟩ := hT.block hrefs
    have hlt : i < (K.elements p).length := hall.length_eq ▸ hi
    refine safely_load hb (v := (K.elements p)[i]) ?_ ⟨rfl, ?_⟩
    · rw [← hcells, List.getElem?_append_left (by rwa [List.length_map]), List.getElem?_map,
        List.getElem?_eq_getElem hlt]
      rfl
    · exact (List.forall₂_iff_get.1 hall).2 i hlt hi

theorem write_spec (L' : Nat → Nat) (b' : Block (Word α)) {b : Block (Word α)} (hT : Tracks m K D) (hC : Counted K L) (hp : D p)
    (hb : m[p]? = some (some b)) (hlen : b'.cells.length = b.cells.length) :
    Tracks (m.set p (some b')) K D ∧ Keeps L' m K (m.set p (some b')) K := by
  refine ⟨hT.write hp b', Keeps.of_live hC fun q hq => ⟨hq, rfl, ?_⟩⟩
  by_cases hqp : q = p
  · subst hqp
    rw [capacity_of hb, capacity_of (List.getElem?_set_self (List.getElem?_eq_some_iff.1 hb).1), hlen]
  · exact capacity_set_ne m _ hqp

theorem allocate_spec (L' : Nat → Nat) (hT : Tracks m K D) (hC : Counted K L)
    (b : Block (Word α)) :
    Tracks (m ++ [some b]) (K ++ [⟨0, []⟩]) (fun q => q = m.length ∨ D q) ∧
      Counted (K ++ [⟨0, []⟩]) L ∧ Keeps L' m K (m ++ [some b]) (K ++ [⟨0, []⟩]) := by
  have hrefs (g : Nat) : refs (K ++ [⟨0, []⟩]) g = K.refs g := by
    rw [refs_append]
    split_ifs with hg
    · subst hg
      rw [refs, List.getElem?_eq_none (Nat.le_refl _)]
      rfl
    · rfl
  have helements (g : Nat) : Heap.elements (K ++ [⟨0, []⟩]) g = K.elements g := by
    unfold Heap.elements
    rcases Nat.lt_trichotomy g K.length with hg | rfl | hg
    · rw [List.getElem?_append_left hg]
    · rw [List.getElem?_concat_length, List.getElem?_eq_none (Nat.le_refl _)]
      rfl
    · rw [List.getElem?_eq_none (by simp; omega), List.getElem?_eq_none (by omega)]
  refine ⟨⟨by simp [hT.length], ?_, ?_, ?_⟩, ?_, ?_⟩
  · intro g c hc hD
    rw [hrefs, helements]
    rcases Nat.lt_trichotomy g m.length with hg | rfl | hg
    · rw [List.getElem?_append_left hg] at hc
      exact hT.live g c hc fun h => hD (Or.inr h)
    · exact absurd (Or.inl rfl) hD
    · rw [List.getElem?_eq_none (by simp; omega)] at hc
      cases hc
  · rintro g (rfl | hg)
    · exact ⟨b, List.getElem?_concat_length⟩
    · obtain ⟨c, hc⟩ := hT.opened g hg
      exact ⟨c, by rw [List.getElem?_append_left (List.getElem?_eq_some_iff.1 hc).1, hc]⟩
  · intro g hg
    rw [hrefs, helements]
    refine hT.rest g ?_
    rcases hg with (rfl | hg) | hg
    · exact Or.inr fun c hc => by simp at hc
    · exact Or.inl hg
    · refine Or.inr fun c hc => hg c ?_
      rw [List.getElem?_append_left (List.getElem?_eq_some_iff.1 hc).1, hc]
  · intro g
    have hheld : held Word.blocks (K ++ [⟨0, []⟩]) = held Word.blocks K := by
      rw [held_append]
      simp [held]
    rw [hheld, hrefs]
    exact hC g
  · refine Keeps.of_live hC fun g hg => ⟨hrefs g ▸ hg, helements g, ?_⟩
    unfold capacity
    rw [List.getElem?_append_left (hT.lt_length hg)]

/-! ## A buffer of one's own -/

/-- The panic of a program whose memory has refused a request. -/
def Refused (room : Memory (Word α) → Nat → Bool) (message : String) : Prop :=
  message = outOfMemory ∧ ∃ m n, room m n = false

/-- An array has a buffer to itself with room for `needed` elements, unless it needs none. -/
def Unique (K : Ghost α) (needed : Nat) (array : ArrayHandle) : Prop :=
  (array.data = none ∧ needed = 0) ∨
    ∃ p, array.data = some p ∧ K.refs p = 1 ∧ needed ≤ array.cap

/-- Copying the elements into a new block counts one more reference to each. -/
theorem copy_spec {cap : Nat} (hT : Tracks m K (fun q => q = p ∨ D q)) (hD : ¬ D p)
    (hC : Counted K (tally array.blocks + L))
    (hb : m[p]? = some (some ⟨0, List.replicate cap none⟩))
    (hs : Holds K (capacity m) (Sees K (capacity m) t) array elements) (hcap : elements.length ≤ cap) :
    Safely ((List.range elements.length).forM fun i => do
        let value ← elementAt array i
        let value ← elementRetain t value
        store p i value)
      (fun _ m' => ∃ K' ws, Tracks m' K' (fun q => q = p ∨ D q) ∧
        Counted K' (tally (ws.flatMap Word.blocks) + (tally array.blocks + L)) ∧
        Keeps (tally array.blocks + L) m K m' K' ∧ (∀ q, D q → m'[q]? = m[q]?) ∧
        List.Forall₂ (Sees K' (capacity m') t) ws elements ∧
        ∃ b, m'[p]? = some (some b) ∧ b.cells.length = cap ∧ ws.map some <+: b.cells) P m := by
  refine (safely_range (fun i m' => ∃ K' ws, Tracks m' K' (fun q => q = p ∨ D q) ∧
    Counted K' (tally (ws.flatMap Word.blocks) + (tally array.blocks + L)) ∧
    Keeps (tally array.blocks + L) m K m' K' ∧ (∀ q, D q → m'[q]? = m[q]?) ∧
    List.Forall₂ (Sees K' (capacity m') t) ws (elements.take i) ∧
    ∃ b, m'[p]? = some (some b) ∧ b.cells = ws.map some ++ List.replicate (cap - i) none)
    ?_ ?_).weaken ?_
  · refine ⟨K, [], hT, ?_, Keeps.refl, fun _ _ => rfl, by simp, _, hb, by simp⟩
    simpa using hC
  · rintro i hi m' ⟨K', ws, hT', hC', hkeeps, hopened, hall, b, hb', hcells⟩
    have hlen : ws.length = i := by
      rw [hall.length_eq, List.length_take]
      omega
    have hs' := hkeeps.holds (fun q hq => by
      have : 0 < tally array.blocks q := tally_pos.2 hq
      simp only [Pi.add_apply]
      omega) hs
    refine Safely.bind (elementAt_spec hT' hs' hi) ?_
    rintro w _ ⟨rfl, hw⟩
    refine Safely.bind (elementRetain_spec (fun _ => 1) hT' hC' hw) ?_
    rintro w' m'' ⟨hw', K'', h⟩
    subst w'
    have hb'' : m''[p]? = some (some b) := (h.opened p (Or.inl rfl)).trans hb'
    have hroom : i < b.cells.length := by
      rw [hcells]
      simp only [List.length_append, List.length_map, List.length_replicate]
      omega
    have hwrite := write_spec (fun _ => 1)
      { b with cells := b.cells.set i (some w) } h.tracks h.counted (Or.inl rfl) hb''
      (by simp)
    have hkept := h.keeps.trans hwrite.2
    refine safely_store hb'' hroom ⟨K'', ws ++ [w], hwrite.1, ?_, ?_, ?_, ?_, _,
      List.getElem?_set_self (List.getElem?_eq_some_iff.1 hb'').1, ?_⟩
    · have hsum : tally ((ws ++ [w]).flatMap Word.blocks) + (tally array.blocks + L)
          = tally w.blocks + (tally (ws.flatMap Word.blocks) + (tally array.blocks + L)) := by
        rw [List.flatMap_append, tally_append]
        simp only [List.flatMap_cons, List.flatMap_nil, List.append_nil]
        rw [← add_assoc, ← add_assoc, ← add_assoc, add_comm (tally w.blocks)]
      rw [hsum]
      exact h.counted
    · exact hkeeps.trans (hkept.mono fun _ _ => Nat.one_pos)
    · intro q hq
      have hqp : p ≠ q := by
        rintro rfl
        exact hD hq
      rw [List.getElem?_set_ne hqp, h.opened q (Or.inr hq), hopened q hq]
    · rw [List.take_succ_eq_append_getElem hi]
      refine List.rel_append (hkept.forall₂ (fun _ _ _ _ => Nat.one_pos) hall) (.cons ?_ .nil)
      exact hkept t w _ (fun _ _ => Nat.one_pos) hw
    · show b.cells.set i (some w) = _
      have hrep : List.replicate (cap - i) (none : Option (Word α))
          = none :: List.replicate (cap - (i + 1)) none := by
        rw [← List.replicate_succ]
        congr 1
        omega
      rw [hcells, hrep, List.set_append_right _ _ (by simp [hlen])]
      simp [hlen]
  · rintro _ m' ⟨K', ws, hT', hC', hkeeps, hopened, hall, b, hb', hcells⟩
    rw [List.take_length] at hall
    refine ⟨K', ws, hT', hC', hkeeps, hopened, hall, b, hb', ?_, ?_⟩
    · rw [hcells]
      simp only [List.length_append, List.length_map, List.length_replicate, hall.length_eq]
      omega
    · rw [hcells]
      exact List.prefix_append ..

theorem isUnique_spec {needed : Nat} (hT : Tracks m K D)
    (hs : Holds K (capacity m) (Sees K (capacity m) t) array elements) :
    Safely (isUnique array needed)
      (fun unique m₁ => m = m₁ ∧ (unique = true → Unique K needed array)) P m := by
  unfold isUnique
  cases hd : array.data with
  | none => exact ⟨rfl, fun h => nomatch h⟩
  | some p =>
    have hdata := hs.2
    rw [hd] at hdata
    obtain ⟨b, hb, -, hcount, -⟩ := hT.block hdata.1
    refine Safely.bind (Q := fun n m₁ => n = K.refs p ∧ m = m₁) (safely_countAt hb ⟨hcount, rfl⟩) ?_
    rintro _ _ ⟨rfl, rfl⟩
    refine ⟨rfl, fun h => Or.inr ⟨p, hd, ?_⟩⟩
    simpa using h

/-- What `_make_unique` does once it has its new block: it copies the elements and lets go of the old
buffer. -/
theorem copyOver_spec {room : Memory (Word α) → Nat → Bool} {cap needed : Nat} (hT : Tracks m K D)
    (hC : Counted K (tally array.blocks + L))
    (hs : Holds K (capacity m) (Sees K (capacity m) t) array elements) (hpos : 0 < cap)
    (hcap : elements.length ≤ cap) (hneeded : needed ≤ cap) :
    Safely (do
        (List.range array.len).forM fun i => do
          let value ← elementAt array i
          let value ← elementRetain t value
          store m.length i value
        let fits ← hasRoom room 1
        if !fits then panic outOfMemory
        else do
          setCount m.length 1
          arrayRelease t array
          pure ⟨array.len, cap, some m.length⟩)
      (fun array' m' => ∃ K', Leaves D L m K (tally array'.blocks + L) m' K' ∧
        Holds K' (capacity m') (Sees K' (capacity m') t) array' elements ∧ Unique K' needed array')
      (Refused room) (m ++ [some ⟨0, List.replicate cap none⟩]) := by
  have hD : ¬ D m.length := fun h => by
    obtain ⟨b, hb⟩ := hT.opened _ h
    simp at hb
  obtain ⟨hT₁, hC₁, hkeeps₁⟩ := allocate_spec (tally array.blocks + L) hT hC
    ⟨0, List.replicate cap none⟩
  have hkept (q) (hq : q ∈ array.blocks) : 0 < (tally array.blocks + L) q := by
    have : 0 < tally array.blocks q := tally_pos.2 hq
    simp only [Pi.add_apply]
    omega
  have hs₁ := hkeeps₁.holds hkept hs
  rw [hs.1]
  refine Safely.bind (copy_spec hT₁ hD hC₁ List.getElem?_concat_length hs₁ hcap) ?_
  rintro _ m₂ ⟨K₂, ws, hT₂, hC₂, hkeeps₂, hopened₂, hall₂, b, hb₂, hlen₂, hcells₂⟩
  refine Safely.bind (Q := fun fits m' => room m₂ 1 = fits ∧ m₂ = m') (safely_hasRoom ⟨rfl, rfl⟩) ?_
  rintro fits _ ⟨hfits, rfl⟩
  cases fits with
  | false => exact ⟨rfl, _, _, hfits⟩
  | true =>
    rw [if_neg (by decide)]
    have hlt₂ := (List.getElem?_eq_some_iff.1 hb₂).1
    refine Safely.bind (Q := fun _ m₃ => m₃ = m₂.set m.length (some { b with count := 1 }))
      (safely_setCount hb₂ rfl) ?_
    rintro _ _ rfl
    have hb₃ : (m₂.set m.length (some { b with count := 1 }))[m.length]?
        = some (some { b with count := 1 }) := List.getElem?_set_self hlt₂
    obtain ⟨hT₃, hkeeps₃⟩ := write_spec (fun _ => 1) { b with count := 1 } hT₂ hC₂
      (Or.inl rfl) hb₂ rfl
    obtain ⟨hT₄, hC₄, hkeeps₄⟩ := close_spec (fun _ => 1) hT₃ hD hC₂ hb₃ rfl hcells₂
    have hset : ∀ p, p ≠ m.length →
        (m₂.set m.length (some { b with count := 1 }))[p]? = m₂[p]? := fun p hp =>
      List.getElem?_set_ne (Ne.symm hp)
    generalize m₂.set m.length (some { b with count := 1 }) = m₃ at *
    have hclosed : Keeps (fun _ => 1) m₂ K₂ m₃ (K₂.set m.length ⟨1, ws⟩) :=
      hkeeps₃.trans hkeeps₄
    have hone : refs (K₂.set m.length ⟨1, ws⟩) m.length = 1 := by
      rw [refs_set, if_pos ⟨rfl, hT₂.length ▸ hlt₂⟩]
    have helements : Heap.elements (K₂.set m.length ⟨1, ws⟩) m.length = ws := by
      rw [elements_set, if_pos ⟨rfl, hT₂.length ▸ hlt₂⟩]
    have hnew : Holds (K₂.set m.length ⟨1, ws⟩) (capacity m₃)
        (Sees (K₂.set m.length ⟨1, ws⟩) (capacity m₃) t) ⟨elements.length, cap, some m.length⟩ elements := by
      refine ⟨rfl, by omega, hpos, ?_, ?_⟩
      · rw [capacity_of hb₃]
        exact hlen₂.symm
      · rw [helements]
        exact hclosed.forall₂ (fun _ _ _ _ => Nat.one_pos) hall₂
    generalize K₂.set m.length ⟨1, ws⟩ = K₄ at *
    rw [← add_assoc, add_comm (tally [m.length]), add_assoc] at hC₄
    have hold : Sees K₄ (capacity m₃) (.array t) (.array array) (.array elements) :=
      hclosed.holds (fun _ _ => Nat.one_pos) (hkeeps₂.holds hkept hs₁)
    refine Safely.bind (release_spec (.array t) _ _ _ _ (.array array) _ _ hT₄ hC₄ hold) ?_
    rintro _ m₅ ⟨K₅, h⟩
    have hnewref : ∀ q ∈ ArrayHandle.blocks ⟨elements.length, cap, some m.length⟩,
        0 < (tally [m.length] + L) q := by
      intro q hq
      obtain rfl : q = m.length := by simpa [ArrayHandle.blocks] using hq
      simp only [Pi.add_apply, tally_singleton, if_true]
      omega
    refine ⟨K₅, ⟨h.tracks, h.counted, ?_, fun p hp => ?_⟩, h.keeps.holds hnewref hnew,
      Or.inr ⟨m.length, rfl, ?_, hneeded⟩⟩
    · have hL (q) (hq : 0 < L q) : 0 < (tally array.blocks + L) q := by
        simp only [Pi.add_apply]
        omega
      refine (hkeeps₁.mono hL).trans ((hkeeps₂.mono hL).trans
        ((hclosed.mono fun _ _ => Nat.one_pos).trans (h.keeps.mono fun q hq => ?_)))
      simp only [Pi.add_apply]
      omega
    · have hlt : p < m.length := by
        obtain ⟨c, hc⟩ := hT.opened p hp
        exact (List.getElem?_eq_some_iff.1 hc).1
      rw [h.opened p hp, hset p (Nat.ne_of_lt hlt), hopened₂ p hp, List.getElem?_append_left hlt]
    · have hle := h.refs_le m.length
      have hcount := h.counted m.length
      simp only [Pi.add_apply, tally_singleton, if_true] at hcount
      omega

/-- **Copy on write.** `_make_unique` gives a handle through which the same elements are seen, with
a buffer of its own; nothing that anyone else refers to has changed. -/
theorem makeUnique_spec (room : Memory (Word α) → Nat → Bool) (needed : Nat) (hT : Tracks m K D)
    (hC : Counted K (tally array.blocks + L))
    (hs : Holds K (capacity m) (Sees K (capacity m) t) array elements)
    (hneeded : elements.length ≤ needed) :
    Safely (makeUnique room t array needed)
      (fun array' m' => ∃ K', Leaves D L m K (tally array'.blocks + L) m' K' ∧
        Holds K' (capacity m') (Sees K' (capacity m') t) array' elements ∧ Unique K' needed array')
      (Refused room) m := by
  unfold makeUnique
  by_cases hzero : grownCapacity array.cap needed = 0
  · have h1 := needed_le_grownCapacity array.cap needed
    have h2 := cap_le_grownCapacity array.cap needed
    dsimp only
    rw [if_pos hzero]
    refine ⟨K, Leaves.refl hT hC, hs, Or.inl ⟨?_, by omega⟩⟩
    have hdata := hs.2
    cases hd : array.data with
    | none => rfl
    | some p =>
      rw [hd] at hdata
      omega
  · dsimp only
    rw [if_neg hzero]
    refine Safely.bind (isUnique_spec hT hs) ?_
    rintro unique _ ⟨rfl, hunique⟩
    cases unique with
    | true => exact ⟨K, Leaves.refl hT hC, hs, hunique rfl⟩
    | false =>
      rw [if_neg (by decide)]
      refine Safely.bind (Q := fun data m₁ => data = none ∧ (∃ m n, room m n = false) ∨
          data = some m.length ∧ m₁ = m ++ [some ⟨0, List.replicate (grownCapacity array.cap needed) none⟩])
        (safely_allocate (Or.inr ⟨rfl, rfl⟩) fun h => Or.inl ⟨rfl, _, _, h⟩) ?_
      rintro _ _ (⟨rfl, hroom⟩ | ⟨rfl, rfl⟩)
      · exact ⟨rfl, hroom⟩
      · exact copyOver_spec hT hC hs (Nat.pos_of_ne_zero hzero)
          (hneeded.trans (needed_le_grownCapacity _ _)) (needed_le_grownCapacity _ _)

end Nomo.Arrays
