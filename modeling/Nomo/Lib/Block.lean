import Mathlib.Data.List.Basic
import Mathlib.Data.List.Infix
import Mathlib.Tactic

/-!
# Blocks of memory

A block is what `malloc` returns: cells, each of which holds a value or has not been written yet.  To
read outside the block, or a cell without a value, is `none`, and so is to write outside.

`Holds block values` says that a block starts with these values.  Writing at the end of what a block
holds adds to it (`write_of_holds`), and a block that holds a list holds every prefix of it
(`Holds.mono`), so that a program that cuts its buffer back just forgets what is behind.
-/

namespace Nomo.Lib

/-- Cells. -/
abbrev Block (α : Type) := List (Option α)

namespace Block

variable {α : Type} {block : Block α} {values more : List α} {start len : Nat}

/-- A fresh block. -/
def malloc (len : Nat) : Block α := List.replicate len none

/-- Read a cell. -/
def load (block : Block α) (i : Nat) : Option α := block[i]?.join

/-- Read cells that follow each other. -/
def read (block : Block α) (start len : Nat) : Option (List α) :=
  if start + len ≤ block.length then ((block.drop start).take len).mapM id else none

/-- Write values to cells that follow each other. -/
def write (block : Block α) (start : Nat) (values : List α) : Option (Block α) :=
  if start + values.length ≤ block.length then
    some (block.take start ++ values.map some ++ block.drop (start + values.length))
  else none

/-- Write a cell. -/
def store (block : Block α) (i : Nat) (value : α) : Option (Block α) := write block i [value]

/-- The block starts with these values. -/
def Holds (block : Block α) (values : List α) : Prop := values.map some <+: block

theorem holds_nil : Holds block [] := List.nil_prefix

theorem holds_map : Holds (values.map some) values := List.prefix_rfl

theorem Holds.mono (h : Holds block values) (hmore : more <+: values) : Holds block more :=
  (hmore.map some).trans h

theorem load_of_holds (h : Holds block values) {i : Nat} (hi : i < values.length) :
    load block i = some values[i] := by
  obtain ⟨rest, rfl⟩ := h
  rw [load, List.getElem?_append_left (by simpa using hi)]
  simp [hi]

variable (values more) in
theorem load_append (h : Holds block (values ++ more)) {a : α} (ha : more.head? = some a) :
    load block values.length = some a := by
  obtain ⟨rest, rfl⟩ := List.head?_eq_some_iff.1 ha
  rw [load_of_holds h (by simp)]
  simp

theorem read_of_holds (before values after : List α) (h : Holds block (before ++ values ++ after)) :
    read block before.length values.length = some values := by
  obtain ⟨rest, rfl⟩ := h
  have hmap (values : List α) : (values.map some).mapM id = some values := by
    induction values with
    | nil => rfl
    | cons value values ih => simp [ih]
  rw [read, if_pos (by simp)]
  simpa using hmap values

theorem length_write {block' : Block α} (h : write block start values = some block') :
    block'.length = block.length := by
  rw [write] at h
  split at h
  · cases h
    simp
    omega
  · cases h

theorem eq_of_write_nil {block' : Block α} (h : write block start [] = some block') : block' = block := by
  rw [write] at h
  split at h
  · cases h
    simp
  · cases h

variable (more) in
theorem write_of_holds (h : Holds block values) (hroom : values.length + more.length ≤ block.length) :
    ∃ block', write block values.length more = some block' ∧ Holds block' (values ++ more) ∧
      block'.length = block.length := by
  refine ⟨_, if_pos hroom, ?_, length_write (if_pos hroom)⟩
  obtain ⟨rest, rfl⟩ := h
  refine ⟨rest.drop more.length, ?_⟩
  simp [List.drop_append]

theorem store_of_holds (h : Holds block values) (hroom : values.length < block.length) (a : α) :
    ∃ block', store block values.length a = some block' ∧ Holds block' (values ++ [a]) ∧
      block'.length = block.length :=
  write_of_holds _ h hroom

@[simp] theorem length_malloc : (malloc len : Block α).length = len := List.length_replicate

end Block

end Nomo.Lib
