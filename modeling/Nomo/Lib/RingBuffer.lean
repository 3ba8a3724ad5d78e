import Mathlib

/-!
# Ring buffers

A ring buffer over a fixed block of slots, as C code writes one: a `head`
index, a `tail` index and a `count`, all advanced modulo the number of slots.
`contents` reads the ring as the queue it stands for. Under the representation
invariant `WF` a `push` appends at the back of that queue (`contents_push`) and
a `pop` takes its first element (`contents_pop`), so a ring whose `count` never
exceeds its capacity is a bounded FIFO.
-/

namespace Nomo.Lib

universe u

variable {α : Type u}

/-- A ring buffer: the slots, and the three counters of the C representation. -/
structure RingBuffer (α : Type u) where
  slots : List (Option α)
  head : Nat
  tail : Nat
  count : Nat
deriving Repr, DecidableEq

namespace RingBuffer

/-- An empty ring over `n` zeroed slots. -/
def empty (n : Nat) : RingBuffer α :=
  { slots := List.replicate n none, head := 0, tail := 0, count := 0 }

/-- The number of slots of a ring. -/
def capacity (r : RingBuffer α) : Nat := r.slots.length

/-- Store `x` in the tail slot and advance the tail. -/
def push (r : RingBuffer α) (x : α) : RingBuffer α :=
  { r with
    slots := r.slots.set r.tail (some x)
    tail := (r.tail + 1) % r.slots.length
    count := r.count + 1 }

/-- The element in the head slot. -/
def front (r : RingBuffer α) : Option α := (r.slots[r.head]?).join

/-- Clear the head slot and advance the head. -/
def pop (r : RingBuffer α) : RingBuffer α :=
  { r with
    slots := r.slots.set r.head none
    head := (r.head + 1) % r.slots.length
    count := r.count - 1 }

/-- Start an empty ring again at its first slot. -/
def rewind (r : RingBuffer α) : RingBuffer α := { r with head := 0, tail := 0, count := 0 }

/-- The slot that holds the `i`-th queued element. -/
def index (r : RingBuffer α) (i : Nat) : Nat := (r.head + i) % r.slots.length

/-- The queue a ring stands for, front first. -/
def contents (r : RingBuffer α) : List α :=
  (List.range r.count).filterMap fun i => (r.slots[r.index i]?).join

/-- The representation invariant: the indices are in range and agree with the
count, and every slot between head and tail is filled. -/
structure WF (r : RingBuffer α) : Prop where
  pos : 0 < r.slots.length
  count_le : r.count ≤ r.slots.length
  head_lt : r.head < r.slots.length
  tail_eq : r.tail = (r.head + r.count) % r.slots.length
  filled : ∀ i < r.count, ∃ x, r.slots[r.index i]? = some (some x)

@[simp] theorem capacity_push (r : RingBuffer α) (x : α) :
    (r.push x).capacity = r.capacity := by
  simp [capacity, push]

@[simp] theorem capacity_pop (r : RingBuffer α) : r.pop.capacity = r.capacity := by
  simp [capacity, pop]

@[simp] theorem count_push (r : RingBuffer α) (x : α) : (r.push x).count = r.count + 1 := rfl

@[simp] theorem count_pop (r : RingBuffer α) : r.pop.count = r.count - 1 := rfl

/-- Two queue positions below the capacity share a slot only when they are
equal. -/
theorem index_inj {r : RingBuffer α} (h : r.head < r.slots.length) {i j : Nat}
    (hi : i < r.slots.length) (hj : j < r.slots.length)
    (hij : r.index i = r.index j) : i = j := by
  simp only [index] at hij
  rcases Nat.lt_or_ge (r.head + i) r.slots.length with hi' | hi' <;>
    rcases Nat.lt_or_ge (r.head + j) r.slots.length with hj' | hj'
  · rw [Nat.mod_eq_of_lt hi', Nat.mod_eq_of_lt hj'] at hij
    omega
  · rw [Nat.mod_eq_of_lt hi', Nat.mod_eq_sub_mod hj', Nat.mod_eq_of_lt (by omega)] at hij
    omega
  · rw [Nat.mod_eq_of_lt hj', Nat.mod_eq_sub_mod hi', Nat.mod_eq_of_lt (by omega)] at hij
    omega
  · rw [Nat.mod_eq_sub_mod hi', Nat.mod_eq_of_lt (by omega), Nat.mod_eq_sub_mod hj',
      Nat.mod_eq_of_lt (by omega)] at hij
    omega

theorem index_lt {r : RingBuffer α} (h : 0 < r.slots.length) (i : Nat) :
    r.index i < r.slots.length :=
  Nat.mod_lt _ h

theorem wf_empty {n : Nat} (hn : 0 < n) : (empty n : RingBuffer α).WF where
  pos := by simpa [empty] using hn
  count_le := Nat.zero_le _
  head_lt := by simpa [empty] using hn
  tail_eq := by simp [empty]
  filled := fun i hi => absurd hi (Nat.not_lt_zero i)

theorem length_contents {r : RingBuffer α} (h : r.WF) : r.contents.length = r.count := by
  have hsome (i) (hi : i ∈ List.range r.count) : ((r.slots[r.index i]?).join).isSome := by
    obtain ⟨x, hx⟩ := h.filled i (List.mem_range.mp hi)
    rw [hx]
    rfl
  unfold contents
  rw [List.length_filterMap_eq_countP, List.countP_eq_length.mpr hsome, List.length_range]

theorem wf_push {r : RingBuffer α} (h : r.WF) (hroom : r.count < r.slots.length) (x : α) :
    (r.push x).WF := by
  have htail : r.tail = r.index r.count := h.tail_eq
  refine { pos := by simpa [push] using h.pos, count_le := by simpa [push] using Nat.succ_le_of_lt hroom,
           head_lt := by simpa [push] using h.head_lt, tail_eq := ?_, filled := ?_ }
  · show (r.tail + 1) % r.slots.length
      = (r.head + (r.count + 1)) % (r.slots.set r.tail (some x)).length
    rw [List.length_set, h.tail_eq, Nat.mod_add_mod, Nat.add_assoc]
  intro i hi
  have hidx : (r.push x).index i = r.index i := by simp [index, push]
  rw [hidx]
  show ∃ y, (r.slots.set r.tail (some x))[r.index i]? = some (some y)
  by_cases hic : i = r.count
  · refine ⟨x, ?_⟩
    rw [hic, ← htail, List.getElem?_set_self (htail ▸ index_lt h.pos _)]
  have hne : r.tail ≠ r.index i := by
    rw [htail]
    intro heq
    exact hic (index_inj h.head_lt hroom (by simp at hi; omega) heq).symm
  rw [List.getElem?_set_ne hne]
  exact h.filled i (by simp at hi; omega)

/-- **A push appends at the back of the queue.** -/
theorem contents_push {r : RingBuffer α} (h : r.WF) (hroom : r.count < r.slots.length) (x : α) :
    (r.push x).contents = r.contents ++ [x] := by
  have htail : r.tail = r.index r.count := h.tail_eq
  unfold contents
  rw [count_push, List.range_succ, List.filterMap_append]
  congr 1
  · refine List.filterMap_congr fun i hi => ?_
    have hi' : i < r.count := List.mem_range.mp hi
    have hidx : (r.push x).index i = r.index i := by simp [index, push]
    have hne : r.tail ≠ r.index i := by
      rw [htail]
      intro heq
      have := index_inj h.head_lt hroom (by omega) heq
      omega
    rw [hidx]
    show ((r.slots.set r.tail (some x))[r.index i]?).join = _
    rw [List.getElem?_set_ne hne]
  · have hidx : (r.push x).index r.count = r.tail := by simp [index, push, h.tail_eq]
    have hlt : r.tail < r.slots.length := htail ▸ index_lt h.pos _
    have hslot : (r.push x).slots[r.tail]? = some (some x) :=
      List.getElem?_set_self hlt
    rw [List.filterMap_cons, hidx, hslot]
    rfl

theorem wf_pop {r : RingBuffer α} (h : r.WF) (hne : 0 < r.count) : r.pop.WF := by
  refine { pos := by simpa [pop] using h.pos, count_le := by have := h.count_le; simp [pop]; omega,
           head_lt := by simpa [pop] using Nat.mod_lt _ h.pos, tail_eq := ?_, filled := ?_ }
  · show r.tail
      = ((r.head + 1) % r.slots.length + (r.count - 1)) % (r.slots.set r.head none).length
    rw [List.length_set, Nat.mod_add_mod, h.tail_eq]
    congr 1
    omega
  intro i hi
  have hi' : i + 1 < r.count := by simp at hi; omega
  have hidx : r.pop.index i = r.index (i + 1) := by
    show ((r.head + 1) % r.slots.length + i) % (r.slots.set r.head none).length = _
    rw [List.length_set, Nat.mod_add_mod, index]
    congr 1
    omega
  have hhead : r.head = r.index 0 := by
    simp [index, Nat.mod_eq_of_lt h.head_lt]
  have hsep : r.head ≠ r.index (i + 1) := by
    rw [hhead]
    intro heq
    have hle := h.count_le
    have := index_inj h.head_lt h.pos (by omega) heq
    omega
  rw [hidx]
  show ∃ y, (r.slots.set r.head none)[r.index (i + 1)]? = some (some y)
  rw [List.getElem?_set_ne hsep]
  exact h.filled (i + 1) hi'

theorem front_isSome {r : RingBuffer α} (h : r.WF) (hne : 0 < r.count) : ∃ x, r.front = some x := by
  obtain ⟨x, hx⟩ := h.filled 0 hne
  refine ⟨x, ?_⟩
  have hidx : r.index 0 = r.head := by simp [index, Nat.mod_eq_of_lt h.head_lt]
  rw [front, ← hidx, hx]
  rfl

/-- **A pop takes the first element of the queue.** -/
theorem contents_pop {r : RingBuffer α} (h : r.WF) (hne : 0 < r.count) {x : α}
    (hx : r.front = some x) : r.contents = x :: r.pop.contents := by
  obtain ⟨n, hn⟩ : ∃ n, r.count = n + 1 := ⟨r.count - 1, by omega⟩
  have hidx : r.index 0 = r.head := by simp [index, Nat.mod_eq_of_lt h.head_lt]
  have hfront : (r.slots[r.index 0]?).join = some x := by
    rw [hidx]
    exact hx
  unfold contents
  rw [hn, List.range_succ_eq_map, List.filterMap_cons, hfront, List.filterMap_map]
  have hpc : r.pop.count = n := by simp [hn]
  rw [hpc]
  show x :: _ = x :: _
  congr 1
  refine List.filterMap_congr fun i hi => ?_
  have hi' : i < n := List.mem_range.mp hi
  have hpidx : r.pop.index i = r.index (i + 1) := by
    show ((r.head + 1) % r.slots.length + i) % (r.slots.set r.head none).length = _
    rw [List.length_set, Nat.mod_add_mod, index]
    congr 1
    omega
  have hsep : r.head ≠ r.index (i + 1) := by
    intro heq
    have hle := h.count_le
    have := index_inj h.head_lt h.pos (by omega) (hidx.trans heq)
    omega
  rw [hpidx]
  show ((r.slots)[r.index (i + 1)]?).join = ((r.slots.set r.head none)[r.index (i + 1)]?).join
  rw [List.getElem?_set_ne hsep]

/-! ## Rewinding and refilling -/

@[simp] theorem capacity_rewind (r : RingBuffer α) : r.rewind.capacity = r.capacity := rfl

theorem wf_rewind {r : RingBuffer α} (h : r.WF) : r.rewind.WF where
  pos := h.pos
  count_le := Nat.zero_le _
  head_lt := h.pos
  tail_eq := by simp [rewind]
  filled := fun i hi => absurd hi (Nat.not_lt_zero i)

@[simp] theorem contents_rewind (r : RingBuffer α) : r.rewind.contents = [] := rfl

/-- Elements that find room are appended at the back of the queue, in their order. -/
theorem foldl_push {r : RingBuffer α} (h : r.WF) {xs : List α} (hroom : r.count + xs.length ≤ r.capacity) :
    (xs.foldl push r).WF ∧ (xs.foldl push r).contents = r.contents ++ xs ∧
      (xs.foldl push r).capacity = r.capacity := by
  induction xs generalizing r with
  | nil => exact ⟨h, by simp, rfl⟩
  | cons x xs ih =>
    have hlength : (x :: xs).length = xs.length + 1 := rfl
    have hone : r.count < r.slots.length := by
      unfold capacity at hroom
      omega
    have hrest : (r.push x).count + xs.length ≤ (r.push x).capacity := by
      rw [count_push, capacity_push]
      omega
    obtain ⟨hwf, hcontents, hcapacity⟩ := ih (wf_push h hone x) hrest
    refine ⟨hwf, ?_, ?_⟩
    · rw [List.foldl_cons, hcontents, contents_push h hone, List.append_assoc, List.singleton_append]
    · rw [List.foldl_cons, hcapacity, capacity_push]

end RingBuffer

end Nomo.Lib
