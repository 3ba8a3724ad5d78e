import Mathlib

/-!
# Memory with explicit faults

Blocks of cells, each with a count beside it, as a C program gets them from `malloc`.  Whatever C
leaves undefined is a *fault* here: to use a block that has been freed, to read a cell that has not
been written, to reach past the end of a block, to take one from a count of zero.  An action either
returns, or panics with a message (which ends the program), or faults.

`Safely x Q P m` says that the action `x`, started in the memory `m`, does not fault: it returns with
a value and a memory for which `Q` holds, or it panics with a message for which `P` holds.
-/

namespace Nomo.Lib.Allocation

/-- A block: the count kept beside it, and its cells, `none` where nothing has been written yet. -/
structure Block (V : Type) where
  count : Nat
  cells : List (Option V)
deriving Repr, DecidableEq

/-- A memory; a block is named by its position, and `none` stands where a block has been freed. -/
abbrev Memory (V : Type) := List (Option (Block V))

/-- Why an action does not return. -/
inductive Halt where
  | panic (message : String)
  | fault
deriving Repr, DecidableEq

/-- An action on a memory. -/
def Action (V α : Type) := Memory V → Except Halt (α × Memory V)

variable {V α β : Type}

instance : Monad (Action V) := inferInstanceAs (Monad (StateT (Memory V) (Except Halt)))

/-! ## Actions -/

/-- End the program with a message. -/
def panic (message : String) : Action V α := fun _ => .error (.panic message)

/-- What C leaves undefined. -/
def fault : Action V α := fun _ => .error .fault

/-- The block at an address. -/
def blockAt (p : Nat) : Action V (Block V) := fun m =>
  match m[p]? with
  | some (some b) => .ok (b, m)
  | _ => .error .fault

/-- Overwrite the block at an address. -/
def putBlock (p : Nat) (b : Block V) : Action V Unit := fun m => .ok ((), m.set p (some b))

/-- The count beside a block. -/
def countAt (p : Nat) : Action V Nat := do
  let b ← blockAt p
  pure b.count

/-- Add one to the count beside a block. -/
def increment (p : Nat) : Action V Unit := do
  let b ← blockAt p
  putBlock p { b with count := b.count + 1 }

/-- Set the count beside a block. -/
def setCount (p n : Nat) : Action V Unit := do
  let b ← blockAt p
  putBlock p { b with count := n }

/-- Take one from the count beside a block. -/
def decrement (p : Nat) : Action V Nat := do
  let b ← blockAt p
  if b.count = 0 then fault
  else do
    putBlock p { b with count := b.count - 1 }
    pure (b.count - 1)

/-- Read a cell of a block. -/
def load (p i : Nat) : Action V V := do
  let b ← blockAt p
  match b.cells[i]? with
  | some (some v) => pure v
  | _ => fault

/-- Write a cell of a block. -/
def store (p i : Nat) (v : V) : Action V Unit := do
  let b ← blockAt p
  if i < b.cells.length then putBlock p { b with cells := b.cells.set i (some v) } else fault

/-- Free a block. -/
def free (p : Nat) : Action V Unit := do
  let _ ← blockAt p
  fun m => .ok ((), m.set p none)

/-- A new block of unwritten cells with a count of zero, unless the memory has no room for it. -/
def allocate (room : Memory V → Nat → Bool) (n : Nat) : Action V (Option Nat) := fun m =>
  if room m n then .ok (some m.length, m ++ [some ⟨0, List.replicate n none⟩]) else .ok (none, m)

/-- Whether the memory has room for something that is not itself kept in it. -/
def hasRoom (room : Memory V → Nat → Bool) (n : Nat) : Action V Bool := fun m => .ok (room m n, m)

/-! ## Safety -/

/-- From `m` there is no fault: `Q` holds of what is returned, `P` of the message of a panic. -/
def Safely (x : Action V α) (Q : α → Memory V → Prop) (P : String → Prop) (m : Memory V) : Prop :=
  match x m with
  | .ok (a, m') => Q a m'
  | .error (.panic message) => P message
  | .error .fault => False

variable {x : Action V α} {Q Q' : α → Memory V → Prop} {P P' : String → Prop} {m : Memory V}

theorem Safely.mono (h : Safely x Q P m) (hQ : ∀ a m', Q a m' → Q' a m')
    (hP : ∀ message, P message → P' message) : Safely x Q' P' m := by
  unfold Safely at h ⊢
  rcases hx : x m with (message | _) | ⟨a, m'⟩ <;> rw [hx] at h
  · exact hP message h
  · exact h
  · exact hQ a m' h

theorem Safely.weaken (h : Safely x Q P m) (hQ : ∀ a m', Q a m' → Q' a m') : Safely x Q' P m :=
  h.mono hQ fun _ hp => hp

theorem Safely.bind {f : α → Action V β} {R : β → Memory V → Prop} (h : Safely x Q P m)
    (hf : ∀ a m', Q a m' → Safely (f a) R P m') : Safely (x >>= f) R P m := by
  have hbind : (x >>= f) m = match x m with
      | .ok (a, m') => f a m'
      | .error e => .error e := by
    show Except.bind (x m) (fun v => f v.1 v.2) = _
    rcases x m with e | ⟨a, m'⟩ <;> rfl
  unfold Safely at h ⊢
  rw [hbind]
  rcases hx : x m with (message | _) | ⟨a, m'⟩ <;> rw [hx] at h
  · exact h
  · exact h
  · exact hf a m' h

theorem safely_blockAt {p : Nat} {b : Block V} {Q : Block V → Memory V → Prop}
    (hb : m[p]? = some (some b)) (hQ : Q b m) : Safely (blockAt p) Q P m := by
  unfold Safely blockAt
  rw [hb]
  exact hQ

theorem safely_blockAt_bind {p : Nat} {b : Block V} {f : Block V → Action V α}
    (hb : m[p]? = some (some b)) (h : Safely (f b) Q P m) : Safely (blockAt p >>= f) Q P m :=
  Safely.bind (Q := fun c m' => c = b ∧ m' = m) (safely_blockAt hb ⟨rfl, rfl⟩) <| by
    rintro _ _ ⟨rfl, rfl⟩
    exact h

theorem safely_countAt {p : Nat} {b : Block V} {Q : Nat → Memory V → Prop}
    (hb : m[p]? = some (some b)) (hQ : Q b.count m) : Safely (countAt p) Q P m :=
  safely_blockAt_bind hb hQ

theorem safely_increment {p : Nat} {b : Block V} {Q : Unit → Memory V → Prop}
    (hb : m[p]? = some (some b)) (hQ : Q () (m.set p (some { b with count := b.count + 1 }))) :
    Safely (increment p) Q P m :=
  safely_blockAt_bind hb hQ

theorem safely_setCount {p n : Nat} {b : Block V} {Q : Unit → Memory V → Prop}
    (hb : m[p]? = some (some b)) (hQ : Q () (m.set p (some { b with count := n }))) :
    Safely (setCount p n) Q P m :=
  safely_blockAt_bind hb hQ

theorem safely_decrement {p : Nat} {b : Block V} {Q : Nat → Memory V → Prop}
    (hb : m[p]? = some (some b)) (hpos : 0 < b.count)
    (hQ : Q (b.count - 1) (m.set p (some { b with count := b.count - 1 }))) :
    Safely (decrement p) Q P m :=
  safely_blockAt_bind hb <| by
    rw [if_neg (by omega)]
    exact hQ

theorem safely_load {p i : Nat} {b : Block V} {v : V} {Q : V → Memory V → Prop}
    (hb : m[p]? = some (some b)) (hv : b.cells[i]? = some (some v)) (hQ : Q v m) :
    Safely (load p i) Q P m :=
  safely_blockAt_bind hb <| by
    rw [hv]
    exact hQ

theorem safely_store {p i : Nat} {b : Block V} {v : V} {Q : Unit → Memory V → Prop}
    (hb : m[p]? = some (some b)) (hi : i < b.cells.length)
    (hQ : Q () (m.set p (some { b with cells := b.cells.set i (some v) }))) :
    Safely (store p i v) Q P m :=
  safely_blockAt_bind hb <| by
    rw [if_pos hi]
    exact hQ

theorem safely_free {p : Nat} {b : Block V} {Q : Unit → Memory V → Prop}
    (hb : m[p]? = some (some b)) (hQ : Q () (m.set p none)) : Safely (free p) Q P m :=
  safely_blockAt_bind hb hQ

theorem safely_allocate {room : Memory V → Nat → Bool} {n : Nat} {Q : Option Nat → Memory V → Prop}
    (hsome : Q (some m.length) (m ++ [some ⟨0, List.replicate n none⟩]))
    (hnone : room m n = false → Q none m) : Safely (allocate room n) Q P m := by
  unfold Safely allocate
  split_ifs with h
  · exact hsome
  · exact hnone (by simpa using h)

theorem safely_hasRoom {room : Memory V → Nat → Bool} {n : Nat} {Q : Bool → Memory V → Prop}
    (hQ : Q (room m n) m) : Safely (hasRoom room n) Q P m := hQ

theorem safely_range {f : Nat → Action V PUnit} {n : Nat} (I : Nat → Memory V → Prop) (h0 : I 0 m)
    (hstep : ∀ i < n, ∀ m, I i m → Safely (f i) (fun _ m' => I (i + 1) m') P m) :
    Safely ((List.range n).forM f) (fun _ m' => I n m') P m := by
  have hloop : ∀ k start, start + k = n → ∀ m, I start m →
      Safely ((List.range' start k).forM f) (fun _ m' => I n m') P m := by
    intro k
    induction k with
    | zero =>
      intro start hk m hm
      have hn : start = n := by omega
      subst hn
      exact hm
    | succ k ih =>
      intro start hk m hm
      rw [List.range'_succ]
      refine Safely.bind (hstep start (by omega) m hm) fun _ m' hm' => ?_
      exact ih (start + 1) (by omega) m' hm'
  rw [List.range_eq_range']
  exact hloop n 0 (by omega) m h0

end Nomo.Lib.Allocation
