import Nomo.Arrays.Operations

/-!
# Arrays are lists

A program of array operations, run on the helpers and run on plain lists.  A program keeps its values
in slots; what an operation gives back goes into a new slot, and a slot is empty once its value has
been released.
-/

namespace Nomo.Arrays

open Nomo.Lib.Allocation Nomo.Lib.RefCount Nomo.Lib.RefCount.Heap

variable {α : Type}

/-! ## Programs -/

/-- A variable: a value of a type, unless it has been released. -/
abbrev Slot (β : Type) := Option (ElementType × β)

/-- An operation, with the slots of its arguments. -/
inductive Op (α : Type) where
  | literal (a : α)
  | new (element : ElementType)
  | retain (x : Nat)
  | release (x : Nat)
  | push (x value : Nat)
  | insert (x index value : Nat)
  | set (x index value : Nat)
  | remove (x index : Nat)
  | pop (x : Nat)
  | clear (x : Nat)
  | index (x index : Nat)
  | get (x index : Nat)
deriving Repr, DecidableEq

/-- The value of a slot, if it has the given type. -/
def valueAt {β : Type} (slots : List (Slot β)) (t : ElementType) (x : Nat) : Option β :=
  match slots[x]? with
  | some (some (t', value)) => if t' = t then some value else none
  | _ => none

/-- The array in a slot, with the type of its elements. -/
def arrayAt (slots : List (Slot (Word α))) (x : Nat) : Option (ElementType × ArrayHandle) :=
  match slots[x]? with
  | some (some (.array t, .array array)) => some (t, array)
  | _ => none

/-- Work with the array in a slot. -/
def withArray {β : Type} (slots : List (Slot (Word α))) (x : Nat)
    (f : ElementType → ArrayHandle → Action (Word α) β) : Action (Word α) β :=
  match arrayAt slots x with
  | none => fault
  | some (t, array) => f t array

/-- Work with the array in a slot and an element for it in another. -/
def withValue {β : Type} (slots : List (Slot (Word α))) (x y : Nat)
    (f : ElementType → ArrayHandle → Word α → Action (Word α) β) : Action (Word α) β :=
  withArray slots x fun t array =>
    match valueAt slots t y with
    | none => fault
    | some w => f t array w

/-- Put an array back into its slot. -/
def putArray (slots : List (Slot (Word α))) (x : Nat) (t : ElementType) (array : ArrayHandle) :
    List (Slot (Word α)) := slots.set x (some (.array t, .array array))

/-- One operation, by the helper that the generator calls for it. -/
def step (room : Memory (Word α) → Nat → Bool) (slots : List (Slot (Word α))) :
    Op α → Action (Word α) (List (Slot (Word α)))
  | .literal a => pure (slots ++ [some (.plain, .plain a)])
  | .new t => pure (slots ++ [some (.array t, .array arrayNew)])
  | .retain x =>
    match slots[x]? with
    | some (some (t, w)) => do
      let w ← elementRetain t w
      pure (slots ++ [some (t, w)])
    | _ => fault
  | .release x =>
    match slots[x]? with
    | some (some (t, w)) => do
      elementRelease t w
      pure (slots.set x none)
    | _ => fault
  | .push x y => withValue slots x y fun t array w => do
    let array ← arrayPush room t array w
    pure (putArray slots x t array)
  | .insert x index y => withValue slots x y fun t array w => do
    let array ← arrayInsert room t array index w
    pure (putArray slots x t array)
  | .set x index y => withValue slots x y fun t array w => do
    let array ← arraySet room t array index w
    pure (putArray slots x t array)
  | .remove x index => withArray slots x fun t array => do
    let (array, out) ← arrayRemove room t array index
    pure (putArray slots x t array ++ [out.map (t, ·)])
  | .pop x => withArray slots x fun t array => do
    let (array, out) ← arrayPop room t array
    pure (putArray slots x t array ++ [out.map (t, ·)])
  | .clear x => withArray slots x fun t array => do
    let array ← arrayClear room t array
    pure (putArray slots x t array)
  | .index x index => withArray slots x fun t array => do
    let w ← arrayIndex t array index
    pure (slots ++ [some (t, w)])
  | .get x index => withArray slots x fun t array => do
    let out ← arrayGet t array index
    pure (slots ++ [out.map (t, ·)])

/-- A run of a program. -/
def run (room : Memory (Word α) → Nat → Bool) (slots : List (Slot (Word α))) :
    List (Op α) → Action (Word α) (List (Slot (Word α)))
  | [] => pure slots
  | op :: ops => do
    let slots ← step room slots op
    run room slots ops

/-! ## The same on lists -/

/-- Why a program has no value: it is ill-typed or uses a released slot, or it panics. -/
inductive Wrong where
  | misuse
  | panic (message : String)
deriving Repr, DecidableEq

/-- The list in a slot, with the type of its elements. -/
def elementsAt (slots : List (Slot (Seen α))) (x : Nat) : Option (ElementType × List (Seen α)) :=
  match slots[x]? with
  | some (some (.array t, .array elements)) => some (t, elements)
  | _ => none

/-- Work with the list in a slot. -/
def withElements {β : Type} (slots : List (Slot (Seen α))) (x : Nat)
    (f : ElementType → List (Seen α) → Except Wrong β) : Except Wrong β :=
  match elementsAt slots x with
  | none => .error .misuse
  | some (t, elements) => f t elements

/-- Work with the list in a slot and an element for it in another. -/
def withElement {β : Type} (slots : List (Slot (Seen α))) (x y : Nat)
    (f : ElementType → List (Seen α) → Seen α → Except Wrong β) : Except Wrong β :=
  withElements slots x fun t elements =>
    match valueAt slots t y with
    | none => .error .misuse
    | some v => f t elements v

/-- Put a list back into its slot. -/
def putElements (slots : List (Slot (Seen α))) (x : Nat) (t : ElementType)
    (elements : List (Seen α)) : List (Slot (Seen α)) := slots.set x (some (.array t, .array elements))

/-- One operation on lists. -/
def pureStep (slots : List (Slot (Seen α))) : Op α → Except Wrong (List (Slot (Seen α)))
  | .literal a => .ok (slots ++ [some (.plain, .plain a)])
  | .new t => .ok (slots ++ [some (.array t, .array [])])
  | .retain x =>
    match slots[x]? with
    | some (some (t, v)) => .ok (slots ++ [some (t, v)])
    | _ => .error .misuse
  | .release x =>
    match slots[x]? with
    | some (some _) => .ok (slots.set x none)
    | _ => .error .misuse
  | .push x y => withElement slots x y fun t elements v =>
    .ok (putElements slots x t (elements ++ [v]))
  | .insert x index y => withElement slots x y fun t elements v =>
    if index ≤ elements.length then .ok (putElements slots x t (elements.insertIdx index v))
    else .error (.panic "Array.insert index out of bounds")
  | .set x index y => withElement slots x y fun t elements v =>
    if index < elements.length then .ok (putElements slots x t (elements.set index v))
    else .error (.panic "Array.set index out of bounds")
  | .remove x index => withElements slots x fun t elements =>
    .ok (putElements slots x t (elements.eraseIdx index) ++ [elements[index]?.map (t, ·)])
  | .pop x => withElements slots x fun t elements =>
    .ok (putElements slots x t elements.dropLast ++ [elements.getLast?.map (t, ·)])
  | .clear x => withElements slots x fun t _ => .ok (putElements slots x t [])
  | .index x index => withElements slots x fun t elements =>
    match elements[index]? with
    | none => .error (.panic "array index out of bounds")
    | some v => .ok (slots ++ [some (t, v)])
  | .get x index => withElements slots x fun t elements =>
    .ok (slots ++ [elements[index]?.map (t, ·)])

/-- The slot whose value an operation changes, if it changes one. -/
def Op.target : Op α → Option Nat
  | .release x | .push x _ | .insert x _ _ | .set x _ _ | .remove x _ | .pop x | .clear x => some x
  | .literal _ | .new _ | .retain _ | .index _ _ | .get _ _ => none

/-- A run on lists. -/
def pureRun (slots : List (Slot (Seen α))) : List (Op α) → Except Wrong (List (Slot (Seen α)))
  | [] => .ok slots
  | op :: ops =>
    match pureStep slots op with
    | .error e => .error e
    | .ok slots => pureRun slots ops

/-! ## The two states -/

/-- The buffers that slots refer to. -/
def slotBlocks (slots : List (Slot (Word α))) : List Nat :=
  slots.flatMap fun slot => slot.elim [] fun x => x.2.blocks

/-- What is seen through a slot. -/
def SlotSees (K : Ghost α) (C : Nat → Nat) : Slot (Word α) → Slot (Seen α) → Prop
  | none, none => True
  | some (t, w), some (t', v) => t = t' ∧ Sees K C t w v
  | _, _ => False

/-- The memory and the slots of a program are as its lists say: every count is the number of live
references to its buffer, from slots and from elements, and every slot is seen as its list. -/
def Reflects (m : Memory (Word α)) (slots : List (Slot (Word α))) (s : List (Slot (Seen α))) : Prop :=
  ∃ K, Tracks m K (fun _ => False) ∧ Counted K (tally (slotBlocks slots)) ∧
    List.Forall₂ (SlotSees K (capacity m)) slots s

section

variable {m m' : Memory (Word α)} {K K' : Ghost α} {L : Nat → Nat} {t : ElementType} {w : Word α}
  {v : Seen α} {x y : Nat} {slots : List (Slot (Word α))} {s : List (Slot (Seen α))}
  {array : ArrayHandle} {elements : List (Seen α)}

theorem forall₂_set {β γ : Type} {R : β → γ → Prop} {l : List β} {l' : List γ} {b : β} {c : γ}
    (h : List.Forall₂ R l l') (x : Nat) (hx : R b c) : List.Forall₂ R (l.set x b) (l'.set x c) := by
  induction h generalizing x with
  | nil => exact .nil
  | cons hy h ih =>
    cases x with
    | zero => exact .cons hx h
    | succ x => exact .cons hy (ih x)

theorem tally_slotBlocks_set (hx : x < slots.length) (slot : Slot (Word α)) :
    tally (slotBlocks (slots.set x slot))
      = tally (slot.elim [] fun y => y.2.blocks) + tally (slotBlocks (slots.set x none)) := by
  rw [List.set_eq_take_append_cons_drop, if_pos hx, List.set_eq_take_append_cons_drop, if_pos hx]
  simp only [slotBlocks, List.flatMap_append, List.flatMap_cons, tally_append, Option.elim_none,
    tally_nil, zero_add]
  rw [add_left_comm]

theorem tally_slotBlocks (hx : slots[x]? = some (some (t, w))) :
    tally (slotBlocks slots) = tally w.blocks + tally (slotBlocks (slots.set x none)) := by
  obtain ⟨hlt, hget⟩ := List.getElem?_eq_some_iff.1 hx
  have hset : slots.set x (some (t, w)) = slots := by rw [← hget, List.set_getElem_self]
  have hsum := tally_slotBlocks_set hlt (some (t, w))
  rwa [hset] at hsum

theorem slotBlocks_pos (hy : slots[y]? = some (some (t, w))) {q : Nat} (hq : q ∈ w.blocks) :
    0 < tally (slotBlocks slots) q :=
  tally_pos.2 (List.mem_flatMap.2 ⟨_, List.mem_of_getElem? hy, hq⟩)

theorem Keeps.slotSees (h : Keeps L m K m' K') (hL : ∀ q ∈ slotBlocks slots, 0 < L q)
    (hs : List.Forall₂ (SlotSees K (capacity m)) slots s) :
    List.Forall₂ (SlotSees K' (capacity m')) slots s := by
  induction hs with
  | nil => exact .nil
  | @cons slot v slots s hx _ ih =>
    refine .cons ?_ (ih fun q hq => hL q (List.mem_append_right _ hq))
    rcases slot with _ | ⟨t, w⟩ <;> rcases v with _ | ⟨t', v⟩
    · exact hx
    · exact hx
    · exact hx
    · exact ⟨hx.1, h t w v (fun q hq => hL q (List.mem_append_left _ hq)) hx.2⟩

/-! ## Slots of the two states -/

theorem slot_of_seen (hs : List.Forall₂ (SlotSees K (capacity m)) slots s)
    (hx : s[x]? = some (some (t, v))) :
    ∃ w, slots[x]? = some (some (t, w)) ∧ Sees K (capacity m) t w v := by
  obtain ⟨hlt, hget⟩ := List.getElem?_eq_some_iff.1 hx
  have hlt' : x < slots.length := hs.length_eq ▸ hlt
  have hsees := (List.forall₂_iff_get.1 hs).2 x hlt' hlt
  rw [List.get_eq_getElem, List.get_eq_getElem, hget] at hsees
  rw [List.getElem?_eq_getElem hlt']
  rcases hslot : slots[x] with _ | ⟨t', w⟩ <;> rw [hslot] at hsees
  · exact hsees.elim
  · obtain ⟨rfl, hsees⟩ := hsees
    exact ⟨w, rfl, hsees⟩

theorem array_ne (t : ElementType) : ElementType.array t ≠ t := by
  induction t with
  | plain => exact fun h => nomatch h
  | array t ih => exact fun h => ih (ElementType.array.inj h)

theorem elementsAt_eq_some (h : elementsAt s x = some (t, elements)) :
    s[x]? = some (some (.array t, .array elements)) := by
  unfold elementsAt at h
  split at h
  · cases h
    assumption
  · cases h

theorem valueAt_eq_some {β : Type} {slots : List (Slot β)} {value : β} :
    valueAt slots t y = some value ↔ slots[y]? = some (some (t, value)) := by
  unfold valueAt
  constructor
  · intro h
    split at h
    · split_ifs at h with ht
      cases h
      subst ht
      assumption
    · cases h
  · intro h
    rw [h]
    simp

theorem arrayAt_of_seen (hs : List.Forall₂ (SlotSees K (capacity m)) slots s)
    (hx : elementsAt s x = some (t, elements)) :
    ∃ array, slots[x]? = some (some (.array t, .array array)) ∧
      arrayAt slots x = some (t, array) ∧
        Holds K (capacity m) (Sees K (capacity m) t) array elements := by
  obtain ⟨w, hw, hsees⟩ := slot_of_seen hs (elementsAt_eq_some hx)
  cases w with
  | plain a => exact hsees.elim
  | array array =>
    refine ⟨array, hw, ?_, hsees⟩
    unfold arrayAt
    rw [hw]

/-- The word that the helpers are given, where the lists have a value: it is not the array that it
is put into. -/
theorem valueAt_of_seen (hs : List.Forall₂ (SlotSees K (capacity m)) slots s)
    (hx : slots[x]? = some (some (.array t, .array array))) (hy : valueAt s t y = some v) :
    ∃ w, valueAt slots t y = some w ∧ Sees K (capacity m) t w v ∧
      ∀ q ∈ w.blocks, 0 < tally (slotBlocks (slots.set x none)) q := by
  obtain ⟨w, hw, hsees⟩ := slot_of_seen hs (valueAt_eq_some.1 hy)
  refine ⟨w, valueAt_eq_some.2 hw, hsees, fun q hq => ?_⟩
  have hxy : x ≠ y := by
    rintro rfl
    rw [hx] at hw
    simp only [Option.some.injEq, Prod.mk.injEq] at hw
    exact array_ne t hw.1
  refine slotBlocks_pos (y := y) (t := t) (w := w) ?_ hq
  rwa [List.getElem?_set_ne hxy]

theorem Becomes.put {out : List (Loose α)} (hs : List.Forall₂ (SlotSees K (capacity m)) slots s)
    (hx : x < slots.length)
    (h : Becomes t (fun _ => False) (tally (slotBlocks (slots.set x none))) m K array elements out
      m') :
    ∃ K', Tracks m' K' (fun _ => False) ∧
      Counted K' (tally (looseBlocks out) + tally (slotBlocks (putArray slots x t array))) ∧
        List.Forall₂ (SlotSees K' (capacity m')) (putArray slots x t array)
          (putElements s x t elements) ∧ ∀ y ∈ out, Sees K' (capacity m') t y.1 y.2 := by
  obtain ⟨K', hleaves, hholds, hout⟩ := h
  refine ⟨K', hleaves.tracks, ?_, ?_, hout⟩
  · have hsum : tally (looseBlocks out) + tally (slotBlocks (putArray slots x t array))
        = tally array.blocks + (tally (looseBlocks out) + tally (slotBlocks (slots.set x none))) := by
      rw [putArray, tally_slotBlocks_set hx, add_left_comm]
      rfl
    exact hsum ▸ hleaves.counted
  · have hrest := hleaves.keeps.slotSees (fun q hq => tally_pos.2 hq)
      (forall₂_set (b := none) (c := none) hs x trivial)
    have hslot : SlotSees K' (capacity m') (some (.array t, .array array))
        (some (.array t, .array elements)) := ⟨rfl, hholds⟩
    have hput := forall₂_set hrest x hslot
    rwa [List.set_set, List.set_set] at hput

theorem Becomes.reflects (hs : List.Forall₂ (SlotSees K (capacity m)) slots s)
    {slot : Slot (Word α)} (hx : slots[x]? = some slot)
    (h : Becomes t (fun _ => False) (tally (slotBlocks (slots.set x none))) m K array elements []
      m') : Reflects m' (putArray slots x t array) (putElements s x t elements) := by
  obtain ⟨K', hT, hC, hs', -⟩ := h.put hs (List.getElem?_eq_some_iff.1 hx).1
  refine ⟨K', hT, ?_, hs'⟩
  rwa [show looseBlocks ([] : List (Loose α)) = [] from rfl, tally_nil, zero_add] at hC

theorem reflects_result (hT : Tracks m K fun _ => False) (out : Option (Loose α))
    (hC : Counted K (tally (looseBlocks out.toList) + tally (slotBlocks slots)))
    (hs : List.Forall₂ (SlotSees K (capacity m)) slots s)
    (hout : ∀ y ∈ out.toList, Sees K (capacity m) t y.1 y.2) :
    Reflects m (slots ++ [(out.map Prod.fst).map (t, ·)]) (s ++ [(out.map Prod.snd).map (t, ·)]) := by
  refine ⟨K, hT, ?_, List.rel_append hs (.cons ?_ .nil)⟩
  · have hsum : tally (slotBlocks (slots ++ [(out.map Prod.fst).map (t, ·)]))
        = tally (looseBlocks out.toList) + tally (slotBlocks slots) := by
      rw [slotBlocks, List.flatMap_append, tally_append, add_comm]
      cases out <;> rfl
    exact hsum ▸ hC
  · cases out with
    | none => trivial
    | some y => exact ⟨rfl, hout y (by simp)⟩

theorem reflects_one (hT : Tracks m K fun _ => False) {w : Word α} {v : Seen α}
    (hC : Counted K (tally w.blocks + tally (slotBlocks slots)))
    (hs : List.Forall₂ (SlotSees K (capacity m)) slots s) (hsees : Sees K (capacity m) t w v) :
    Reflects m (slots ++ [some (t, w)]) (s ++ [some (t, v)]) := by
  refine reflects_result hT (some (w, v)) ?_ hs ?_
  · have hblocks : looseBlocks [(w, v)] = w.blocks := List.append_nil _
    exact hblocks.symm ▸ hC
  · intro y hy
    obtain rfl := List.mem_singleton.1 hy
    exact hsees

end

/-! ## Refinement -/

/-- An action does what the lists say: it ends with their state, or panics as they do; it may also
run out of memory, if a request is refused. -/
def Agrees (room : Memory (Word α) → Nat → Bool) (m : Memory (Word α))
    (x : Action (Word α) (List (Slot (Word α)))) : Except Wrong (List (Slot (Seen α))) → Prop
  | .ok s => Safely x (fun slots m' => Reflects m' slots s) (Refused room) m
  | .error (.panic message) => Safely x (fun _ _ => False) (fun e => Refused room e ∨ e = message) m
  | .error .misuse => True

section

variable {room : Memory (Word α) → Nat → Bool} {m : Memory (Word α)} {slots : List (Slot (Word α))}
  {s : List (Slot (Seen α))} {K : Ghost α}

theorem agrees_withArray {x : Nat} {f : ElementType → ArrayHandle → Action (Word α) (List (Slot (Word α)))}
    {g : ElementType → List (Seen α) → Except Wrong (List (Slot (Seen α)))}
    (hs : List.Forall₂ (SlotSees K (capacity m)) slots s)
    (h : ∀ t array elements, slots[x]? = some (some (.array t, .array array)) →
      Holds K (capacity m) (Sees K (capacity m) t) array elements →
      Agrees room m (f t array) (g t elements)) :
    Agrees room m (withArray slots x f) (withElements s x g) := by
  unfold withElements withArray
  cases hx : elementsAt s x with
  | none => trivial
  | some y =>
    obtain ⟨t, elements⟩ := y
    obtain ⟨array, harray, hat, hholds⟩ := arrayAt_of_seen hs hx
    rw [hat]
    exact h t array elements harray hholds

theorem agrees_withValue {x y : Nat}
    {f : ElementType → ArrayHandle → Word α → Action (Word α) (List (Slot (Word α)))}
    {g : ElementType → List (Seen α) → Seen α → Except Wrong (List (Slot (Seen α)))}
    (hs : List.Forall₂ (SlotSees K (capacity m)) slots s)
    (h : ∀ t array elements w v, slots[x]? = some (some (.array t, .array array)) →
      Holds K (capacity m) (Sees K (capacity m) t) array elements → Sees K (capacity m) t w v →
      (∀ q ∈ w.blocks, 0 < tally (slotBlocks (slots.set x none)) q) →
      Agrees room m (f t array w) (g t elements v)) :
    Agrees room m (withValue slots x y f) (withElement s x y g) := by
  refine agrees_withArray hs fun t array elements harray hholds => ?_
  cases hy : valueAt s t y with
  | none => trivial
  | some v =>
    obtain ⟨w, hw, hsees, hblocks⟩ := valueAt_of_seen hs harray hy
    rw [hw]
    exact h t array elements w v harray hholds hsees hblocks

theorem step_agrees (op : Op α) (h : Reflects m slots s) :
    Agrees room m (step room slots op) (pureStep s op) := by
  obtain ⟨K, hT, hC, hs⟩ := h
  cases op with
  | literal a =>
    exact reflects_one (t := .plain) hT ((zero_add (tally (slotBlocks slots))).symm ▸ hC) hs rfl
  | new t =>
    exact reflects_one (t := .array t) hT ((zero_add (tally (slotBlocks slots))).symm ▸ hC) hs
      ⟨rfl, rfl, rfl⟩
  | retain x =>
    show Agrees room m (step room slots (.retain x)) (pureStep s (.retain x))
    rw [pureStep]
    split
    next t v hx =>
      obtain ⟨w, hw, hsees⟩ := slot_of_seen hs hx
      rw [step, hw]
      refine Safely.bind (elementRetain_spec (fun _ => 1) hT hC hsees) ?_
      rintro w' m' ⟨hw', K', hleaves⟩
      subst w'
      exact reflects_one hleaves.tracks hleaves.counted (hleaves.keeps.slotSees (fun _ _ => Nat.one_pos) hs)
        (hleaves.keeps _ _ _ (fun _ _ => Nat.one_pos) hsees)
    next => trivial
  | release x =>
    rw [pureStep]
    split
    next y hx =>
      obtain ⟨t, v⟩ := y
      obtain ⟨w, hw, hsees⟩ := slot_of_seen hs hx
      rw [step, hw]
      rw [tally_slotBlocks hw] at hC
      refine Safely.bind (release_spec t m K _ _ w v _ hT hC hsees) ?_
      rintro _ m' ⟨K', hreleases⟩
      exact ⟨K', hreleases.tracks, hreleases.counted, hreleases.keeps.slotSees (fun q hq => tally_pos.2 hq)
          (forall₂_set (b := none) (c := none) hs x trivial)⟩
    next => trivial
  | push x y =>
    refine agrees_withValue hs fun t array elements w v harray hholds hsees hblocks => ?_
    rw [tally_slotBlocks harray] at hC
    refine Safely.bind (arrayPush_spec hT hC hholds hsees hblocks) ?_
    rintro array' m' hbecomes
    exact hbecomes.reflects hs harray
  | insert x index y =>
    refine agrees_withValue hs fun t array elements w v harray hholds hsees hblocks => ?_
    rw [tally_slotBlocks harray] at hC
    have hspec : Safely (arrayInsert room t array index w) _ _ m := arrayInsert_spec hT hC hholds index hsees hblocks
    split_ifs with hindex
    · refine Safely.bind (hspec.mono (fun _ _ h => h) fun message h =>
        h.resolve_right fun h => absurd h.1 (by omega)) ?_
      rintro array' m' ⟨-, hbecomes⟩
      exact hbecomes.reflects hs harray
    · refine Safely.bind (hspec.mono (fun _ _ h => h) fun message h => h.imp_right And.right) ?_
      rintro array' m' ⟨hle, -⟩
      exact absurd hle hindex
  | set x index y =>
    refine agrees_withValue hs fun t array elements w v harray hholds hsees hblocks => ?_
    rw [tally_slotBlocks harray] at hC
    have hspec : Safely (arraySet room t array index w) _ _ m := arraySet_spec hT hC hholds index hsees hblocks
    split_ifs with hindex
    · refine Safely.bind (hspec.mono (fun _ _ h => h) fun message h =>
        h.resolve_right fun h => absurd h.1 (by omega)) ?_
      rintro array' m' ⟨-, hbecomes⟩
      exact hbecomes.reflects hs harray
    · refine Safely.bind (hspec.mono (fun _ _ h => h) fun message h => h.imp_right And.right) ?_
      rintro array' m' ⟨hlt, -⟩
      exact absurd hlt hindex
  | remove x index =>
    refine agrees_withArray hs fun t array elements harray hholds => ?_
    rw [tally_slotBlocks harray] at hC
    refine Safely.bind (arrayRemove_spec hT hC hholds index) ?_
    rintro ⟨array', _⟩ m' ⟨out, rfl, hout, hbecomes⟩
    obtain ⟨K', hT', hC', hs', hsees⟩ := hbecomes.put hs (List.getElem?_eq_some_iff.1 harray).1
    rw [hout]
    exact reflects_result hT' out hC' hs' hsees
  | pop x =>
    refine agrees_withArray hs fun t array elements harray hholds => ?_
    rw [tally_slotBlocks harray] at hC
    refine Safely.bind (arrayPop_spec hT hC hholds) ?_
    rintro ⟨array', _⟩ m' ⟨out, rfl, hout, hbecomes⟩
    obtain ⟨K', hT', hC', hs', hsees⟩ := hbecomes.put hs (List.getElem?_eq_some_iff.1 harray).1
    rw [hout]
    exact reflects_result hT' out hC' hs' hsees
  | clear x =>
    refine agrees_withArray hs fun t array elements harray hholds => ?_
    rw [tally_slotBlocks harray] at hC
    refine Safely.bind (arrayClear_spec hT hC hholds) ?_
    rintro array' m' hbecomes
    exact hbecomes.reflects hs harray
  | index x index =>
    refine agrees_withArray hs fun t array elements harray hholds => ?_
    have hspec := arrayIndex_spec index hT hC hholds
    cases hindex : elements[index]? with
    | none =>
      refine Safely.bind (hspec.mono (fun _ _ h => h) fun message h => Or.inr h.2) ?_
      rintro w m' ⟨v, hv, -⟩
      rw [hindex] at hv
      exact nomatch hv
    | some v =>
      refine Safely.bind (hspec.mono (fun _ _ h => h) fun message h => ?_) ?_
      · rw [hindex] at h
        exact nomatch h.1
      rintro w m' ⟨v', hv', K', hleaves, hsees⟩
      obtain rfl : v = v' := Option.some.inj (hindex.symm.trans hv')
      exact reflects_one hleaves.tracks hleaves.counted
        (hleaves.keeps.slotSees (fun _ _ => Nat.one_pos) hs) hsees
  | get x index =>
    refine agrees_withArray hs fun t array elements harray hholds => ?_
    refine Safely.bind (arrayGet_spec index hT hC hholds) ?_
    rintro _ m' ⟨out, rfl, hout, K', hleaves, hsees⟩
    rw [hout]
    exact reflects_result hleaves.tracks out hleaves.counted
      (hleaves.keeps.slotSees (fun _ _ => Nat.one_pos) hs) fun y hy => hsees y (by simpa using hy)

theorem run_agrees (ops : List (Op α)) (h : Reflects m slots s) :
    Agrees room m (run room slots ops) (pureRun s ops) := by
  induction ops generalizing m slots s with
  | nil => exact h
  | cons op ops ih =>
    have hstep : Agrees room m (step room slots op) (pureStep s op) := step_agrees op h
    rw [pureRun]
    cases hpure : pureStep s op with
    | error e =>
      rw [hpure] at hstep
      cases e with
      | misuse => trivial
      | panic message => exact Safely.bind hstep fun _ _ h => h.elim
    | ok s' =>
      rw [hpure] at hstep
      show Agrees room m (step room slots op >>= fun slots => run room slots ops) (pureRun s' ops)
      cases hrest : pureRun s' ops with
      | ok s'' =>
        refine Safely.bind hstep fun slots' m' h' => ?_
        have := ih h'
        rwa [hrest] at this
      | error e =>
        cases e with
        | misuse => trivial
        | panic message =>
          refine Safely.bind (hstep.mono (fun _ _ h => h) fun _ => Or.inl) fun slots' m' h' => ?_
          have := ih h'
          rwa [hrest] at this

theorem pureStep_other {op : Op α} {s' : List (Slot (Seen α))} (h : pureStep s op = .ok s') {y : Nat}
    (hy : y < s.length) (htarget : op.target ≠ some y) : s'[y]? = s[y]? := by
  have happend (slot : Slot (Seen α)) : (s ++ [slot])[y]? = s[y]? := List.getElem?_append_left hy
  have hset (x : Nat) (slot : Slot (Seen α)) (hx : some x ≠ some y) : (s.set x slot)[y]? = s[y]? :=
    List.getElem?_set_ne fun h => hx (congrArg some h)
  have hboth (x : Nat) (slot slot' : Slot (Seen α)) (hx : some x ≠ some y) :
      (s.set x slot ++ [slot'])[y]? = s[y]? := by
    rw [List.getElem?_append_left (by rwa [List.length_set]), hset x slot hx]
  have helements {x : Nat} {g : ElementType → List (Seen α) → Except Wrong (List (Slot (Seen α)))}
      (h : withElements s x g = .ok s') : ∃ t elements, g t elements = .ok s' := by
    unfold withElements at h
    split at h
    · cases h
    · exact ⟨_, _, h⟩
  have helement {x z : Nat}
      {g : ElementType → List (Seen α) → Seen α → Except Wrong (List (Slot (Seen α)))}
      (h : withElement s x z g = .ok s') : ∃ t elements v, g t elements v = .ok s' := by
    obtain ⟨t, elements, h⟩ := helements h
    split at h
    · cases h
    · exact ⟨t, elements, _, h⟩
  cases op with
  | literal a | new t =>
    cases h
    exact happend _
  | retain x =>
    rw [pureStep] at h
    split at h
    · cases h
      exact happend _
    · cases h
  | release x =>
    rw [pureStep] at h
    split at h
    · cases h
      exact hset x _ htarget
    · cases h
  | push x z =>
    obtain ⟨t, elements, v, h⟩ := helement h
    cases h
    exact hset x _ htarget
  | insert x index z | set x index z =>
    obtain ⟨t, elements, v, h⟩ := helement h
    split_ifs at h
    cases h
    exact hset x _ htarget
  | remove x index | pop x =>
    obtain ⟨t, elements, h⟩ := helements h
    cases h
    exact hboth x _ _ htarget
  | clear x =>
    obtain ⟨t, elements, h⟩ := helements h
    cases h
    exact hset x _ htarget
  | index x index =>
    obtain ⟨t, elements, h⟩ := helements h
    split at h
    · cases h
    · cases h
      exact happend _
  | get x index =>
    obtain ⟨t, elements, h⟩ := helements h
    cases h
    exact happend _

theorem reflects_nil : Reflects ([] : Memory (Word α)) [] [] :=
  ⟨[], ⟨rfl, fun _ _ h => by simp at h, fun _ h => h.elim, fun _ _ => ⟨rfl, rfl⟩⟩, fun _ => rfl, .nil⟩

/-- **Copy-on-write arrays are lists.** Whatever program runs on the helpers, with whatever memory,
it ends in a state that reflects that of its run on lists, or panics as that does, unless a request
for memory is refused: it never faults, every count is the number of live references, an operation
changes what is seen through its own slot only, and an index outside the bounds touches no element. -/
theorem run_refines_lists (room : Memory (Word α) → Nat → Bool) (ops : List (Op α)) :
    Agrees room [] (run room [] ops) (pureRun [] ops) ∧
      (∀ (op : Op α) (s s' : List (Slot (Seen α))), pureStep s op = .ok s' →
        ∀ y < s.length, op.target ≠ some y → s'[y]? = s[y]?) ∧
      ∀ (t : ElementType) (array : ArrayHandle) (index : Nat) (w : Word α), array.len ≤ index →
        arrayIndex t array index = (panic "array index out of bounds" : Action (Word α) (Word α)) ∧
          arraySet room t array index w = panic "Array.set index out of bounds" ∧
          arrayGet t array index = (pure none : Action (Word α) (Option (Word α))) ∧
          arrayRemove room t array index = pure (array, none) ∧
          arrayInsert room t array (index + 1) w = panic "Array.insert index out of bounds" :=
  ⟨run_agrees ops reflects_nil, fun _ _ _ h _ hy htarget => pureStep_other h hy htarget,
    fun _ _ _ _ h => ⟨if_pos h, if_pos h, if_pos h, if_pos h, if_pos (Nat.lt_succ_of_le h)⟩⟩

/-- A program that shares an array as an element and writes to it through another handle. -/
def sharingProgram : List (Op Nat) :=
  [.literal 7, .new .plain, .push 1 0, .new (.array .plain), .push 2 1, .retain 2, .index 2 0,
    .push 4 0, .set 3 0 4, .release 1]

/-- With memory enough it leaves the shared array as it was. -/
theorem run_refines_lists_shared :
    ∃ slots m, run (fun _ _ => true) [] sharingProgram [] = .ok (slots, m) ∧
      Reflects m slots [some (.plain, .plain 7), none,
        some (.array (.array .plain), .array [.array [.plain 7]]),
        some (.array (.array .plain), .array [.array [.plain 7, .plain 7]]),
        some (.array .plain, .array [.plain 7, .plain 7])] := by
  have h := (run_refines_lists (fun _ _ => true) sharingProgram).1
  have hpure : pureRun [] sharingProgram = .ok [some (.plain, .plain 7), none,
      some (.array (.array .plain), .array [.array [.plain 7]]),
      some (.array (.array .plain), .array [.array [.plain 7, .plain 7]]),
      some (.array .plain, .array [.plain 7, .plain 7])] := by
    simp [sharingProgram, pureRun, pureStep, withElement, withElements, elementsAt, valueAt, putElements]
  rw [hpure] at h
  unfold Agrees Safely at h
  rcases hrun : run (fun _ _ => true) [] sharingProgram [] with (message | _) | ⟨slots, m⟩ <;>
    rw [hrun] at h
  · obtain ⟨-, _, _, hroom⟩ := h
    exact nomatch hroom
  · exact h.elim
  · exact ⟨slots, m, rfl, h⟩

end

end Nomo.Arrays
