import Mathlib.Data.List.Basic
import Mathlib.Tactic

/-!
# Moves in a tree

A move goes up to the parent or down to a named child.  A location is the list of the names on the way
to it, the last one first; the root has no parent, and a move up from it stays there.

`reduce` shortens a list of moves: a move down and the move up after it cancel out.  From the root the
moves up that are left over do nothing, and `reduce true` drops them.  Either way the moves lead where
they led before (`walk_reduce`), and what is left is normal: moves up first, then moves down.
-/

namespace Nomo.Lib

/-- A move. -/
inductive Move (α : Type) where
  | up
  | down (name : α)
deriving DecidableEq, Repr

namespace Moves

variable {α : Type} {rooted : Bool}

/-- Where a move leads. -/
def step : List α → Move α → List α
  | location, .down name => name :: location
  | [], .up => []
  | _ :: parent, .up => parent

/-- Where moves lead, one after the other. -/
def walk (location : List α) (moves : List (Move α)) : List α := moves.foldl step location

/-- One more move after the moves that are left, the last one first. -/
def push (rooted : Bool) : List (Move α) → Move α → List (Move α)
  | .down _ :: before, .up => before
  | before, .up => if rooted then before else .up :: before
  | before, .down name => .down name :: before

/-- The moves that are left. -/
def reduce (rooted : Bool) (moves : List (Move α)) : List (Move α) :=
  (moves.foldl (push rooted) []).reverse

/-- Moves up, none from the root, and then moves down; the last one first. -/
def Normal (rooted : Bool) (moves : List (Move α)) : Prop :=
  ∃ (names : List α) (ups : Nat),
    moves = names.map .down ++ List.replicate ups .up ∧ (rooted = true → ups = 0)

@[simp] theorem push_down (before : List (Move α)) (name : α) :
    push rooted before (.down name) = .down name :: before := by
  cases before with
  | nil => rfl
  | cons move before => cases move <;> rfl

theorem walk_append (location : List α) (moves more : List (Move α)) :
    walk location (moves ++ more) = walk (walk location moves) more := List.foldl_append ..

theorem reduce_append (moves more : List (Move α)) :
    reduce rooted (moves ++ more) = (more.foldl (push rooted) (reduce rooted moves).reverse).reverse := by
  simp only [reduce, List.foldl_append, List.reverse_reverse]

theorem mem_push {before : List (Move α)} {move m : Move α} (h : m ∈ push rooted before move) :
    m ∈ before ∨ m = move := by
  unfold push at h
  split at h
  · exact .inl (List.mem_cons_of_mem _ h)
  · split at h
    · exact .inl h
    · exact (List.mem_cons.1 h).symm
  · exact (List.mem_cons.1 h).symm

theorem reduce_append_down (moves : List (Move α)) (names : List α) :
    reduce rooted (moves ++ names.map .down) = reduce rooted moves ++ names.map .down := by
  have hall : ∀ before, (names.map .down).foldl (push rooted) before
      = (names.map .down).reverse ++ before := by
    induction names with
    | nil => exact fun _ => rfl
    | cons name names ih =>
      intro before
      rw [List.map_cons, List.foldl_cons, ih, push_down]
      simp
  rw [reduce_append, hall]
  simp

theorem mem_reduce {moves : List (Move α)} {m : Move α} (h : m ∈ reduce rooted moves) : m ∈ moves := by
  have hfoldl : ∀ before, m ∈ moves.foldl (push rooted) before → m ∈ before ∨ m ∈ moves := by
    clear h
    induction moves with
    | nil => exact fun _ => .inl
    | cons move moves ih =>
      intro before hm
      rcases ih (push rooted before move) hm with hm | hm
      · rcases mem_push hm with hm | rfl
        · exact .inl hm
        · exact .inr (List.mem_cons_self ..)
      · exact .inr (List.mem_cons_of_mem _ hm)
  exact (hfoldl [] (List.mem_reverse.1 h)).resolve_left (by simp)

/-! ## Normal moves -/

theorem normal_nil : Normal rooted ([] : List (Move α)) := ⟨[], 0, rfl, fun _ => rfl⟩

theorem normal_push {before : List (Move α)} (h : Normal rooted before) (move : Move α) :
    Normal rooted (push rooted before move) := by
  obtain ⟨names, ups, rfl, hups⟩ := h
  cases move with
  | down name => exact ⟨name :: names, ups, push_down _ _, hups⟩
  | up =>
    cases names with
    | cons name names => exact ⟨names, ups, rfl, hups⟩
    | nil =>
      cases rooted with
      | true =>
        obtain rfl := hups rfl
        exact ⟨[], 0, rfl, fun _ => rfl⟩
      | false => exact ⟨[], ups + 1, by cases ups <;> rfl, by simp⟩

theorem normal_foldl (moves : List (Move α)) {before : List (Move α)} (h : Normal rooted before) :
    Normal rooted (moves.foldl (push rooted) before) := by
  induction moves generalizing before with
  | nil => exact h
  | cons move moves ih => exact ih (normal_push h move)

variable (rooted) in
theorem normal_reduce (moves : List (Move α)) : Normal rooted (reduce rooted moves).reverse := by
  rw [reduce, List.reverse_reverse]
  exact normal_foldl moves normal_nil

theorem reduce_of_normal {moves : List (Move α)} (h : Normal rooted moves.reverse) :
    reduce rooted moves = moves := by
  obtain ⟨names, ups, hmoves, hups⟩ := h
  obtain rfl : moves = List.replicate ups .up ++ names.reverse.map .down := by
    rw [← List.reverse_reverse moves, hmoves]
    simp
  have hup : ∀ n k, (List.replicate n Move.up).foldl (push false) (List.replicate k (.up : Move α))
      = List.replicate (n + k) .up := by
    intro n
    induction n with
    | zero => exact fun k => by simp
    | succ n ih =>
      intro k
      have hpush : push false (List.replicate k (.up : Move α)) .up = List.replicate (k + 1) .up := by
        cases k <;> rfl
      rw [List.replicate_succ, List.foldl_cons, hpush, ih, Nat.add_right_comm, ← Nat.add_assoc]
  have hups' : (List.replicate ups Move.up).foldl (push rooted) ([] : List (Move α))
      = List.replicate ups .up := by
    cases rooted with
    | true =>
      obtain rfl := hups rfl
      rfl
    | false => exact hup ups 0
  rw [reduce_append_down, reduce, hups', List.reverse_replicate]

theorem reduce_reduce (moves : List (Move α)) : reduce rooted (reduce rooted moves) = reduce rooted moves :=
  reduce_of_normal (normal_reduce _ moves)

/-! ## Where they lead -/

theorem walk_push {location : List α} (hrooted : rooted = true → location = []) {before : List (Move α)}
    (h : Normal rooted before) (move : Move α) :
    walk location (push rooted before move).reverse = step (walk location before.reverse) move := by
  obtain ⟨names, ups, rfl, hups⟩ := h
  have hsnoc : ∀ (before : List (Move α)) move,
      walk location (move :: before).reverse = step (walk location before.reverse) move := by
    intro before move
    rw [List.reverse_cons, walk_append]
    rfl
  cases move with
  | down name =>
    rw [push_down, hsnoc]
  | up =>
    cases names with
    | cons name names =>
      rw [List.map_cons, List.cons_append, hsnoc]
      rfl
    | nil =>
      cases rooted with
      | true =>
        obtain rfl := hups rfl
        obtain rfl := hrooted rfl
        rfl
      | false =>
        rw [← hsnoc]
        cases ups <;> rfl

/-- **The moves that are left lead where the moves led**, from any location, or from the root. -/
theorem walk_reduce {location : List α} (hrooted : rooted = true → location = [])
    (moves : List (Move α)) : walk location (reduce rooted moves) = walk location moves := by
  have hall : ∀ before, Normal rooted before → walk location (moves.foldl (push rooted) before).reverse
        = walk (walk location before.reverse) moves := by
    induction moves with
    | nil => exact fun _ _ => rfl
    | cons move moves ih =>
      intro before hbefore
      rw [List.foldl_cons, ih _ (normal_push hbefore move), walk_push hrooted hbefore]
      rfl
  exact hall [] normal_nil

end Moves

end Nomo.Lib
