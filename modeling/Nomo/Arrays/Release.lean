import Nomo.Arrays.Ownership

/-!
# Retaining and releasing

What `_retain` and `_release` do to counts and contents, for elements nested to any depth, and how a
buffer is opened, so that a helper can move its elements about, and closed again.
-/

namespace Nomo.Arrays

open Nomo.Lib.Allocation Nomo.Lib.RefCount Nomo.Lib.RefCount.Heap

variable {α : Type} {m m' m₁ m₂ : Memory (Word α)} {K K' K₁ K₂ : Ghost α} {D D' : Nat → Prop}
  {L L' : Nat → Nat} {t : ElementType} {w : Word α} {v : Seen α} {p q : Nat}
  {P : String → Prop}

/-! ## One buffer of the ghost -/

theorem elements_set (K : Ghost α) (p q : Nat) (b : Buffer (Word α)) :
    elements (K.set p b) q = if p = q ∧ p < K.length then b.elements else K.elements q := by
  unfold elements
  rw [List.getElem?_set]
  by_cases hq : p = q
  · subst hq
    by_cases hl : p < K.length
    all_goals simp [hl]
  · simp [hq]

theorem capacity_set_ne (m : Memory (Word α)) (b : Option (Block (Word α))) (h : q ≠ p) :
    capacity (m.set p b) q = capacity m q := by
  unfold capacity
  rw [List.getElem?_set_ne (Ne.symm h)]

theorem capacity_of {b : Block (Word α)} (hb : m[p]? = some (some b)) :
    capacity m p = b.cells.length := by
  unfold capacity
  rw [hb]

theorem Tracks.update (D' : Nat → Prop) (x : Option (Block (Word α))) (buffer : Buffer (Word α))
    (hT : Tracks m K D) (hp : p < m.length) (hD : ∀ q, q ≠ p → (D' q ↔ D q))
    (hlive : ¬ D' p → ∀ b, x = some b →
      buffer.refs = b.count ∧ 0 < b.count ∧ buffer.elements.map some <+: b.cells)
    (hopened : D' p → ∃ b, x = some b) (hrest : D' p ∨ x = none → buffer = ⟨0, []⟩) :
    Tracks (m.set p x) (K.set p buffer) D' where
  length := by simp [hT.length]
  live := by
    intro q b hb hq
    have hlt : p < K.length := hT.length ▸ hp
    rw [refs_set, elements_set]
    by_cases hpq : p = q
    · subst hpq
      rw [List.getElem?_set_self hp] at hb
      rw [if_pos ⟨rfl, hlt⟩, if_pos ⟨rfl, hlt⟩]
      exact hlive hq b (Option.some.inj hb)
    · rw [List.getElem?_set_ne hpq] at hb
      rw [if_neg fun h => hpq h.1, if_neg fun h => hpq h.1]
      exact hT.live q b hb fun h => hq ((hD q (Ne.symm hpq)).2 h)
  opened := by
    intro q hq
    by_cases hpq : p = q
    · subst hpq
      obtain ⟨b, rfl⟩ := hopened hq
      exact ⟨b, List.getElem?_set_self hp⟩
    · rw [List.getElem?_set_ne hpq]
      exact hT.opened q ((hD q (Ne.symm hpq)).1 hq)
  rest := by
    intro q hq
    have hlt : p < K.length := hT.length ▸ hp
    rw [refs_set, elements_set]
    by_cases hpq : p = q
    · subst hpq
      rw [if_pos ⟨rfl, hlt⟩, if_pos ⟨rfl, hlt⟩]
      rw [List.getElem?_set_self hp] at hq
      have hbuffer : buffer = ⟨0, []⟩ := by
        refine hrest (hq.imp_right fun h => ?_)
        cases x with
        | none => rfl
        | some b => exact absurd rfl (h b)
      rw [hbuffer]
      exact ⟨rfl, rfl⟩
    · rw [if_neg fun h => hpq h.1, if_neg fun h => hpq h.1]
      rw [List.getElem?_set_ne hpq] at hq
      exact hT.rest q (hq.imp_left (hD q (Ne.symm hpq)).1)

/-- Writing to an opened block changes nothing that the ghost speaks of. -/
theorem Tracks.write (hT : Tracks m K D) (hp : D p) (b : Block (Word α)) :
    Tracks (m.set p (some b)) K D := by
  obtain ⟨c, hc⟩ := hT.opened p hp
  have hlt : p < m.length := (List.getElem?_eq_some_iff.1 hc).1
  have hsame : K.set p ⟨0, []⟩ = K := by
    obtain ⟨h1, h2⟩ := hT.rest p (Or.inl hp)
    have hK : p < K.length := hT.length ▸ hlt
    apply List.ext_getElem?
    intro i
    rw [List.getElem?_set]
    by_cases hi : p = i
    · subst hi
      rw [refs, List.getElem?_eq_getElem hK] at h1
      rw [elements, List.getElem?_eq_getElem hK] at h2
      simp only [Option.elim_some] at h1 h2
      rw [if_pos rfl, if_pos hK, List.getElem?_eq_getElem hK, ← h1, ← h2]
    · rw [if_neg hi]
  have := hT.update D (some b) ⟨0, []⟩ hlt (fun q _ => Iff.rfl)
    (fun h => absurd hp h) (fun _ => ⟨b, rfl⟩) fun _ => rfl
  rwa [hsame] at this

theorem Counted.update {buffer : Buffer (Word α)} (hC : Counted K L) (hp : p < K.length)
    (h : ∀ g, tally (buffer.elements.flatMap Word.blocks) g + L' g + (if p = g then K.refs p else 0)
      = tally ((K.elements p).flatMap Word.blocks) g + L g + if p = g then buffer.refs else 0) :
    Counted (K.set p buffer) L' := by
  intro g
  have hheld := congrFun (held_set Word.blocks K p buffer hp) g
  have hg := hC g
  have hx := h g
  simp only [Pi.add_apply] at hheld
  rw [refs_set]
  by_cases hpg : p = g
  · subst hpg
    rw [if_pos ⟨rfl, hp⟩]
    simp only [if_true] at hx
    omega
  · rw [if_neg fun h => hpg h.1]
    simp only [if_neg hpg] at hx
    omega

/-! ## Retaining -/

/-- What is left when an action ends: the ghost, the references, what is still seen, and that opened
blocks were not touched. -/
structure Leaves (D : Nat → Prop) (L₀ : Nat → Nat) (m : Memory (Word α)) (K : Ghost α)
    (L : Nat → Nat) (m' : Memory (Word α)) (K' : Ghost α) : Prop where
  tracks : Tracks m' K' D
  counted : Counted K' L
  keeps : Keeps L₀ m K m' K'
  opened : ∀ p, D p → m'[p]? = m[p]?

theorem Leaves.refl {L₀ : Nat → Nat} (hT : Tracks m K D) (hC : Counted K L) :
    Leaves D L₀ m K L m K := ⟨hT, hC, Keeps.refl, fun _ _ => rfl⟩

theorem increment_spec {L₀ : Nat → Nat} (hT : Tracks m K D) (hC : Counted K L)
    (hp : 0 < K.refs p) :
    Safely (increment p) (fun _ m' => ∃ K', Leaves D L₀ m K (tally [p] + L) m' K') P m := by
  obtain ⟨b, hb, hD, hcount, hcells⟩ := hT.block hp
  refine safely_increment hb ⟨K.set p ⟨K.refs p + 1, K.elements p⟩, ?_, ?_, ?_, ?_⟩
  · refine hT.update _ _ _ (hT.lt_length hp) (fun _ _ => Iff.rfl) (fun _ c hc => ?_)
      (fun h => absurd h hD) fun h => (h.elim hD fun h => nomatch h).elim
    cases hc
    exact ⟨by rw [hcount], by simp, hcells⟩
  · refine hC.update (hT.length ▸ hT.lt_length hp) fun g => ?_
    simp only [Pi.add_apply, tally_singleton]
    split_ifs <;> omega
  · refine Keeps.of_live hC fun q hq => ?_
    rw [refs_set, elements_set]
    by_cases hpq : p = q
    · subst hpq
      have hlt := hT.length ▸ hT.lt_length hp
      rw [if_pos ⟨rfl, hlt⟩, if_pos ⟨rfl, hlt⟩]
      refine ⟨by simp, rfl, ?_⟩
      rw [capacity_of hb, capacity_of (List.getElem?_set_self (hT.lt_length hp))]
    · rw [if_neg fun h => hpq h.1, if_neg fun h => hpq h.1]
      exact ⟨hq, rfl, capacity_set_ne m _ (Ne.symm hpq)⟩
  · intro q hq
    exact List.getElem?_set_ne (by rintro rfl; exact hD hq)

/-- `emit_array_element_retain_expr` copies a word and counts the reference. -/
theorem elementRetain_spec (L₀ : Nat → Nat) (hT : Tracks m K D) (hC : Counted K L)
    (hs : Sees K (capacity m) t w v) :
    Safely (elementRetain t w)
      (fun w' m' => w' = w ∧ ∃ K', Leaves D L₀ m K (tally w.blocks + L) m' K') P m := by
  have hnone (w : Word α) : w.blocks = [] → Leaves D L₀ m K (tally w.blocks + L) m K := by
    intro hw
    rw [hw, tally_nil, zero_add]
    exact Leaves.refl hT hC
  cases t with
  | plain =>
    cases w with
    | plain a => exact ⟨rfl, K, hnone _ rfl⟩
    | array handle => cases v <;> exact hs.elim
  | array element =>
    cases w with
    | plain a => cases v <;> exact hs.elim
    | array handle =>
      obtain ⟨len, cap, data⟩ := handle
      cases data with
      | none => exact ⟨rfl, K, hnone _ rfl⟩
      | some p =>
        have hp : 0 < K.refs p := hs.refs_pos (by simp [Word.blocks, ArrayHandle.blocks])
        refine Safely.bind (Q := fun handle m' => handle = ⟨len, cap, some p⟩ ∧
          ∃ K', Leaves D L₀ m K (tally [p] + L) m' K') ?_ ?_
        · exact Safely.bind (increment_spec hT hC hp) fun _ _ h => ⟨rfl, h⟩
        · rintro _ m' ⟨rfl, h⟩
          exact ⟨rfl, h⟩

/-! ## Opening and closing a buffer -/

/-- Open a buffer that one reference is left to: its elements become references of their own. -/
theorem open_spec {b : Block (Word α)} (hT : Tracks m K D) (hC : Counted K (tally [p] + L))
    (hone : K.refs p = 1) (hb : m[p]? = some (some b)) (c : Nat) :
    Tracks (m.set p (some { b with count := c })) (K.set p ⟨0, []⟩) (fun q => q = p ∨ D q) ∧
      Counted (K.set p ⟨0, []⟩) (tally ((K.elements p).flatMap Word.blocks) + L) ∧
      Keeps (tally ((K.elements p).flatMap Word.blocks) + L) m K
        (m.set p (some { b with count := c })) (K.set p ⟨0, []⟩) := by
  have hlt : p < m.length := (List.getElem?_eq_some_iff.1 hb).1
  have hcount := hC p
  simp only [Pi.add_apply, tally_singleton, if_true] at hcount
  have hheld : held Word.blocks K p = 0 := by omega
  have hself : tally ((K.elements p).flatMap Word.blocks) p = 0 := by
    by_contra hne
    have hmem := tally_pos.1 (Nat.pos_of_ne_zero hne)
    obtain ⟨w, hw, hq⟩ := List.mem_flatMap.1 hmem
    have := held_pos hw hq
    omega
  refine ⟨?_, ?_, ?_⟩
  · refine hT.update _ _ _ hlt (fun q hq => ?_) (fun h => absurd (Or.inl rfl) h) (fun _ => ⟨_, rfl⟩)
      fun _ => rfl
    simp [hq]
  · refine hC.update (hT.length ▸ hlt) fun g => ?_
    simp only [List.flatMap_nil, tally_nil, Pi.add_apply, Pi.zero_apply, tally_singleton]
    split_ifs with h
    · subst h
      omega
    · omega
  · refine Keeps.of_apart hheld (by simp only [Pi.add_apply]; omega) fun q hqp hq => ?_
    rw [refs_set, elements_set, if_neg fun h => hqp h.1.symm, if_neg fun h => hqp h.1.symm]
    exact ⟨hq, rfl, capacity_set_ne m _ hqp⟩

theorem close_spec (L' : Nat → Nat) {b : Block (Word α)} {ws : List (Word α)}
    (hT : Tracks m K (fun q => q = p ∨ D q)) (hD : ¬ D p)
    (hC : Counted K (tally (ws.flatMap Word.blocks) + L)) (hb : m[p]? = some (some b))
    (hone : b.count = 1) (hcells : ws.map some <+: b.cells) :
    Tracks m (K.set p ⟨1, ws⟩) D ∧ Counted (K.set p ⟨1, ws⟩) (tally [p] + L) ∧
      Keeps L' m K m (K.set p ⟨1, ws⟩) := by
  have hlt : p < m.length := (List.getElem?_eq_some_iff.1 hb).1
  obtain ⟨hrefs, helements⟩ := hT.rest p (Or.inl (Or.inl rfl))
  refine ⟨?_, ?_, ?_⟩
  · have := hT.update D (some b) ⟨1, ws⟩ hlt (fun q hq => by simp [hq])
      (fun _ c hc => by cases hc; exact ⟨hone.symm, by omega, hcells⟩) (fun h => absurd h hD)
      fun h => (h.elim hD fun h => nomatch h).elim
    have hself : m.set p (some b) = m := by
      rw [← (List.getElem?_eq_some_iff.1 hb).2]
      exact List.set_getElem_self hlt
    rwa [hself] at this
  · refine hC.update (hT.length ▸ hlt) fun g => ?_
    rw [helements, hrefs]
    simp only [List.flatMap_nil, tally_nil, Pi.add_apply, Pi.zero_apply, tally_singleton]
    split_ifs <;> omega
  · refine Keeps.of_live hC fun q hq => ?_
    have hqp : p ≠ q := by
      rintro rfl
      omega
    rw [refs_set, elements_set, if_neg fun h => hqp h.1, if_neg fun h => hqp h.1]
    exact ⟨hq, rfl, rfl⟩

theorem free_spec (L' : Nat → Nat) (hT : Tracks m K (fun q => q = p ∨ D q)) (hD : ¬ D p) (hC : Counted K L) :
    Tracks (m.set p none) K D ∧ Keeps L' m K (m.set p none) K := by
  obtain ⟨b, hb⟩ := hT.opened p (Or.inl rfl)
  have hlt : p < m.length := (List.getElem?_eq_some_iff.1 hb).1
  obtain ⟨hrefs, helements⟩ := hT.rest p (Or.inl (Or.inl rfl))
  constructor
  · refine ⟨by simp [hT.length], ?_, ?_, ?_⟩
    · intro q c hc hq
      have hpq : p ≠ q := by
        rintro rfl
        rw [List.getElem?_set_self hlt] at hc
        exact nomatch Option.some.inj hc
      rw [List.getElem?_set_ne hpq] at hc
      exact hT.live q c hc fun h => h.elim (Ne.symm hpq) hq
    · intro q hq
      have hpq : p ≠ q := by
        rintro rfl
        exact hD hq
      rw [List.getElem?_set_ne hpq]
      exact hT.opened q (Or.inr hq)
    · intro q hq
      by_cases hpq : p = q
      · subst hpq
        exact ⟨hrefs, helements⟩
      · rw [List.getElem?_set_ne hpq] at hq
        exact hT.rest q (hq.imp_left Or.inr)
  · refine Keeps.of_live hC fun q hq => ⟨hq, rfl, capacity_set_ne m _ ?_⟩
    rintro rfl
    omega

/-! ## Releasing -/

/-- What is left when references are given up: no count has grown. -/
structure Releases (D : Nat → Prop) (m : Memory (Word α)) (K : Ghost α) (L : Nat → Nat)
    (m' : Memory (Word α)) (K' : Ghost α) : Prop extends Leaves D L m K L m' K' where
  refs_le : ∀ g, K'.refs g ≤ K.refs g

/-- What a release of a word does, whatever else the program refers to. -/
def ReleaseSpec (t : ElementType) : Prop :=
  ∀ (m : Memory (Word α)) (K : Ghost α) (D : Nat → Prop) (L : Nat → Nat) (w : Word α) (v : Seen α)
    (P : String → Prop), Tracks m K D → Counted K (tally w.blocks + L) → Sees K (capacity m) t w v →
    Safely (elementRelease t w) (fun _ m' => ∃ K', Releases D m K L m' K') P m

theorem releaseElements_spec (ht : ReleaseSpec (α := α) t) {ws : List (Word α)} {vs : List (Seen α)}
    {b : Block (Word α)} (load : Nat → Action (Word α) (Word α)) (hT : Tracks m K D)
    (hC : Counted K (tally (ws.flatMap Word.blocks) + L)) (hp : D p) (hb : m[p]? = some (some b))
    (hall : List.Forall₂ (Sees K (capacity m) t) ws vs)
    (hload : ∀ i w m' Q,
      ws[i]? = some w → m'[p]? = some (some b) → Q w m' → Safely (load i) Q P m') :
    Safely ((List.range ws.length).forM fun i => do
        let w ← load i
        elementRelease t w)
      (fun _ m' => ∃ K', Releases D m K L m' K') P m := by
  -- the elements that are left are still referred to, so they are seen as before
  let rest (i : Nat) : Nat → Nat := tally ((ws.drop i).flatMap Word.blocks) + L
  refine (safely_range (fun i m' => ∃ K', Tracks m' K' D ∧ Counted K' (rest i) ∧
    Keeps (rest i) m K m' K' ∧ (∀ p, D p → m'[p]? = m[p]?) ∧ ∀ g, K'.refs g ≤ K.refs g) ?_ ?_).weaken
    ?_
  · refine ⟨K, hT, ?_, Keeps.refl, fun _ _ => rfl, fun _ => Nat.le_refl _⟩
    simpa [rest] using hC
  · rintro i hi m' ⟨K', hT', hC', hkeeps, hopened, hle⟩
    have hw : ws[i]? = some ws[i] := List.getElem?_eq_getElem hi
    have hdrop : ws.drop i = ws[i] :: ws.drop (i + 1) := List.drop_eq_getElem_cons hi
    have hrest : rest i = tally ws[i].blocks + rest (i + 1) := by
      simp only [rest, hdrop, List.flatMap_cons, tally_append, add_assoc]
    have hvs : i < vs.length := hall.length_eq ▸ hi
    have hsees : Sees K' (capacity m') t ws[i] vs[i] := by
      refine hkeeps t ws[i] vs[i] (fun q hq => ?_) (List.forall₂_iff_get.1 hall |>.2 i hi hvs)
      rw [hrest]
      have : 0 < tally ws[i].blocks q := tally_pos.2 hq
      simp only [Pi.add_apply]
      omega
    refine Safely.bind (Q := fun w m₁ => w = ws[i] ∧ m' = m₁)
      (hload i ws[i] m' _ hw ((hopened p hp).trans hb) ⟨rfl, rfl⟩) ?_
    rintro _ _ ⟨rfl, rfl⟩
    refine (ht m' K' D (rest (i + 1)) ws[i] vs[i] P hT' (hrest ▸ hC') hsees).weaken ?_
    rintro _ m'' ⟨K'', h⟩
    refine ⟨K'', h.tracks, h.counted, (hkeeps.mono fun q hq => ?_).trans h.keeps,
      fun p hp => (h.opened p hp).trans (hopened p hp), fun g => (h.refs_le g).trans (hle g)⟩
    rw [hrest]
    simp only [Pi.add_apply]
    omega
  · rintro _ m' ⟨K', hT', hC', hkeeps, hopened, hle⟩
    have hrest : rest ws.length = L := by simp [rest]
    rw [hrest] at hC' hkeeps
    exact ⟨K', ⟨hT', hC', hkeeps, hopened⟩, hle⟩

/-- Take one from the count of a buffer; when nothing refers to it any more, its elements are
released and it is freed. -/
theorem dropReference_spec {array : ArrayHandle} {elements : List (Seen α)}
    {releaseElements : Nat → Action (Word α) PUnit} (hT : Tracks m K D)
    (hC : Counted K (tally array.blocks + L))
    (hs : Holds K (capacity m) (Sees K (capacity m) t) array elements)
    (hrelease : ∀ p m₁ K₁ b,
      array.data = some p → Tracks m₁ K₁ (fun q => q = p ∨ D q) → m₁[p]? = some (some b) →
      (K.elements p).map some <+: b.cells →
      Counted K₁ (tally ((K.elements p).flatMap Word.blocks) + L) →
      List.Forall₂ (Sees K₁ (capacity m₁) t) (K.elements p) elements →
      Safely (releaseElements p)
        (fun _ m' => ∃ K', Releases (fun q => q = p ∨ D q) m₁ K₁ L m' K') P m₁) :
    Safely (dropReference array releaseElements) (fun _ m' => ∃ K', Releases D m K L m' K') P m := by
  unfold dropReference
  obtain ⟨len, cap, data⟩ := array
  cases data with
  | none =>
    have hL : tally (ArrayHandle.mk len cap none).blocks + L = L := by
      simp [ArrayHandle.blocks]
    rw [hL] at hC
    exact ⟨K, Leaves.refl hT hC, fun _ => Nat.le_refl _⟩
  | some p =>
    obtain ⟨-, hrefs, -, -, hall⟩ := hs
    have hC : Counted K (tally [p] + L) := hC
    obtain ⟨b, hb, hD, hcount, hcells⟩ := hT.block hrefs
    have hlt := hT.lt_length hrefs
    have hKlt : p < K.length := hT.length ▸ hlt
    refine Safely.bind (Q := fun n m₁ => n = b.count - 1 ∧
      m₁ = m.set p (some { b with count := b.count - 1 }))
      (safely_decrement hb (by omega) ⟨rfl, rfl⟩) ?_
    rintro _ _ ⟨rfl, rfl⟩
    by_cases hone : b.count - 1 = 0
    · rw [if_neg (not_not.2 hone)]
      obtain ⟨hT₁, hC₁, hkeeps₁⟩ := open_spec (D := D) hT hC (by omega) hb (b.count - 1)
      have hall₁ := hkeeps₁.forall₂ (fun w hw q hq => by
        have : 0 < tally ((K.elements p).flatMap Word.blocks) q :=
          tally_pos.2 (List.mem_flatMap.2 ⟨w, hw, hq⟩)
        simp only [Pi.add_apply]
        omega) hall
      refine Safely.bind (hrelease p _ _ _ rfl hT₁ (List.getElem?_set_self hlt) hcells hC₁ hall₁) ?_
      rintro _ m' ⟨K', h⟩
      have hfree := free_spec L h.tracks hD h.counted
      obtain ⟨c, hc⟩ := h.tracks.opened p (Or.inl rfl)
      refine safely_free hc ⟨K', ⟨hfree.1, h.counted, ?_, ?_⟩, ?_⟩
      · refine (hkeeps₁.mono fun q hq => ?_).trans (h.keeps.trans hfree.2)
        simp only [Pi.add_apply]
        omega
      · intro q hq
        have hqp : p ≠ q := by
          rintro rfl
          exact hD hq
        rw [List.getElem?_set_ne hqp, h.opened q (Or.inr hq), List.getElem?_set_ne hqp]
      · intro g
        refine (h.refs_le g).trans ?_
        rw [refs_set]
        split_ifs
        · exact Nat.zero_le _
        · exact Nat.le_refl _
    · rw [if_pos hone]
      refine ⟨K.set p ⟨K.refs p - 1, K.elements p⟩, ⟨?_, ?_, ?_, ?_⟩, ?_⟩
      · refine hT.update _ _ _ hlt (fun _ _ => Iff.rfl) (fun _ c hc => ?_) (fun h => absurd h hD)
          fun h => (h.elim hD (Option.some_ne_none _)).elim
        cases hc
        exact ⟨by rw [hcount], by show 0 < b.count - 1; omega, hcells⟩
      · refine hC.update hKlt fun g => ?_
        simp only [Pi.add_apply, tally_singleton]
        split_ifs with h
        · subst h
          omega
        · omega
      · refine Keeps.of_live hC fun q hq => ?_
        rw [refs_set, elements_set]
        by_cases hpq : p = q
        · subst hpq
          rw [if_pos ⟨rfl, hKlt⟩, if_pos ⟨rfl, hKlt⟩]
          refine ⟨by show 0 < K.refs p - 1; omega, rfl, ?_⟩
          rw [capacity_of hb, capacity_of (List.getElem?_set_self hlt)]
        · rw [if_neg fun h => hpq h.1, if_neg fun h => hpq h.1]
          exact ⟨hq, rfl, capacity_set_ne m _ (Ne.symm hpq)⟩
      · intro q hq
        exact List.getElem?_set_ne (by rintro rfl; exact hD hq)
      · intro g
        rw [refs_set]
        split_ifs with h
        · rw [← h.1]
          exact Nat.sub_le _ _
        · exact Nat.le_refl _

theorem blocks_plain {C : Nat → Nat} {ws : List (Word α)} {vs : List (Seen α)}
    (h : List.Forall₂ (Sees K C .plain) ws vs) : ws.flatMap Word.blocks = [] := by
  induction h with
  | nil => rfl
  | cons hx _ ih =>
    rw [List.flatMap_cons, ih, List.append_nil]
    cases ‹Word α› with
    | plain a => rfl
    | array handle => cases ‹Seen α› <;> exact hx.elim

/-- **Release.** Whatever else the program refers to, a release gives up exactly one reference: the
counts are right again, and what the other references see has not changed. -/
theorem release_spec (t : ElementType) : ReleaseSpec (α := α) t := by
  induction t with
  | plain =>
    intro m K D L w v P hT hC hs
    cases w with
    | plain a =>
      have hL : tally (Word.plain a).blocks + L = L := by simp [Word.blocks]
      rw [hL] at hC
      exact ⟨K, Leaves.refl hT hC, fun _ => Nat.le_refl _⟩
    | array handle => cases v <;> exact hs.elim
  | array element ih =>
    intro m K D L w v P hT hC hs
    cases w with
    | plain a => cases v <;> exact hs.elim
    | array handle =>
      cases v with
      | plain b => exact hs.elim
      | array elements =>
        cases element with
        | plain =>
          refine dropReference_spec hT hC hs fun p m₁ K₁ b _ hT₁ _ _ hC₁ hall => ?_
          rw [blocks_plain hall, tally_nil, zero_add] at hC₁
          exact ⟨K₁, Leaves.refl hT₁ hC₁, fun _ => Nat.le_refl _⟩
        | array inner =>
          refine dropReference_spec hT hC hs fun p m₁ K₁ b hdata hT₁ hb hcells hC₁ hall => ?_
          have hlen : handle.len = (K.elements p).length := hs.1.trans hall.length_eq.symm
          rw [hlen]
          have hspec := releaseElements_spec (P := P) ih (load p) hT₁ hC₁ (Or.inl rfl) hb hall
            (fun i w m' Q hw hb' hQ => by
              refine safely_load hb' ?_ hQ
              obtain ⟨cells, hcells⟩ := hcells
              rw [← hcells, List.getElem?_append_left (by
                rw [List.length_map]
                exact (List.getElem?_eq_some_iff.1 hw).1), List.getElem?_map, hw]
              rfl)
          exact hspec

end Nomo.Arrays
