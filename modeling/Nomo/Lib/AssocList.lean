import Mathlib.Data.List.Basic
import Mathlib.Tactic
import Mathlib.Data.List.Nodup

/-!
# Insertion-ordered association lists

A finite map as the list of its entries in the order in which their keys were first inserted.  Keys are
compared by a `==` that is an equivalence and need not be equality, so an entry keeps the key it was
inserted with.  `get_set` and `get_remove` are the laws of a map; they hold of a list in which no two
keys are equal (`Distinct`), and `set` and `remove` keep it such a list.
-/

namespace Nomo.Lib

/-! ## Lists -/

/-- A function that goes through a list is one on its elements. -/
theorem flatMap_of_cons {α β : Type*} {f : List α → List β} {g : α → List β} (hnil : f [] = [])
    (hcons : ∀ a as, f (a :: as) = g a ++ f as) (as : List α) : f as = as.flatMap g := by
  induction as with
  | nil => exact hnil
  | cons a as ih => rw [hcons, ih, List.flatMap_cons]

/-- The same for a function that gives one element for each. -/
theorem map_of_cons {α β : Type*} {f : List α → List β} {g : α → β} (hnil : f [] = [])
    (hcons : ∀ a as, f (a :: as) = g a :: f as) (as : List α) : f as = as.map g := by
  rw [List.map_eq_flatMap, ← flatMap_of_cons hnil hcons]

theorem eq_of_count_le_one {α β : Type} [DecidableEq α] (l : List (α × β)) (a : α) (b b' : β)
    (hc : (l.map Prod.fst).count a ≤ 1) (h : (a, b) ∈ l) (h' : (a, b') ∈ l) : b = b' := by
  obtain ⟨before, after, rfl⟩ := List.append_of_mem h
  simp only [List.map_append, List.map_cons, List.count_append, List.count_cons_self] at hc
  have hnot : ∀ part : List (α × β), (part.map Prod.fst).count a = 0 → (a, b') ∉ part :=
    fun part hzero hmem => List.count_eq_zero.1 hzero (List.mem_map_of_mem hmem)
  rcases List.mem_append.1 h' with hmem | hmem
  · exact absurd hmem (hnot _ (by omega))
  · rcases List.mem_cons.1 hmem with heq | hmem
    · exact (Prod.mk.inj heq).2.symm
    · exact absurd hmem (hnot _ (by omega))

namespace AssocList

variable {K V : Type} [BEq K] {entries : List (K × V)} {key key' : K} {value : V}

/-- The value of a key. -/
def get (entries : List (K × V)) (key : K) : Option V :=
  match entries with
  | [] => none
  | entry :: rest => if entry.1 == key then some entry.2 else get rest key

/-- Replace the value of a key in place, or append the entry. -/
def set (entries : List (K × V)) (key : K) (value : V) : List (K × V) :=
  match entries with
  | [] => [(key, value)]
  | entry :: rest => if entry.1 == key then (entry.1, value) :: rest else entry :: set rest key value

/-- Remove the entry of a key; the others keep their order. -/
def remove (entries : List (K × V)) (key : K) : List (K × V) :=
  match entries with
  | [] => []
  | entry :: rest => if entry.1 == key then rest else entry :: remove rest key

/-- No two keys are equal. -/
def Distinct (entries : List (K × V)) : Prop :=
  (entries.map Prod.fst).Pairwise fun k k' => (k == k') = false

section

-- The equations of these definitions are generated once, before the proofs that need them.
attribute [local simp] get set remove

end

theorem distinct_nil : Distinct ([] : List (K × V)) := List.Pairwise.nil

theorem get_eq_none : get entries key = none ↔ ∀ k ∈ entries.map Prod.fst, (k == key) = false := by
  induction entries with
  | nil => simp [get]
  | cons entry rest ih =>
    rw [get, List.map_cons, List.forall_mem_cons]
    by_cases h : entry.1 == key
    · simp [h]
    · simp [h, ih]

/-! ## Keys -/

theorem keys_set : (set entries key value).map Prod.fst =
    if (get entries key).isSome then entries.map Prod.fst else entries.map Prod.fst ++ [key] := by
  induction entries with
  | nil => rfl
  | cons entry rest ih =>
    rw [set, get]
    by_cases h : entry.1 == key
    · simp [h]
    · simp only [h, if_false, List.map_cons, ih, Bool.false_eq_true]
      split <;> simp

theorem remove_sublist : (remove entries key).Sublist entries := by
  induction entries with
  | nil => exact .slnil
  | cons entry rest ih =>
    rw [remove]
    split
    · exact List.sublist_cons_self ..
    · exact ih.cons_cons _

theorem distinct_remove (h : Distinct entries) : Distinct (remove entries key) :=
  h.sublist (remove_sublist.map Prod.fst)

theorem distinct_set (h : Distinct entries) : Distinct (set entries key value) := by
  rw [Distinct, keys_set]
  split
  · exact h
  · rename_i hnone
    rw [Option.not_isSome_iff_eq_none, get_eq_none] at hnone
    exact List.pairwise_append.2 ⟨h, List.pairwise_singleton .., fun k hk k' hk' =>
      (List.mem_singleton.1 hk') ▸ hnone k hk⟩

/-! ## The laws of a map -/

variable [EquivBEq K]

/-- **After a `set`** the key has the new value and every other key has the value it had. -/
theorem get_set : get (set entries key value) key' =
    if key == key' then some value else get entries key' := by
  induction entries with
  | nil => rfl
  | cons entry rest ih =>
    rw [set]
    by_cases h : entry.1 == key
    · rw [if_pos h, get, get, BEq.congr_left h]
      split <;> rfl
    rw [if_neg h, get, get, ih]
    by_cases h' : entry.1 == key'
    · have hne : ¬ key == key' := fun heq => h (BEq.trans h' (BEq.symm heq))
      simp [h', hne]
    · simp [h']

/-- **After a `remove`** the key has no value and every other key has the value it had. -/
theorem get_remove (h : Distinct entries) : get (remove entries key) key' =
    if key == key' then none else get entries key' := by
  induction entries with
  | nil => simp [remove, get]
  | cons entry rest ih =>
    rw [Distinct, List.map_cons, List.pairwise_cons] at h
    rw [remove]
    by_cases hkey : entry.1 == key
    · rw [if_pos hkey]
      by_cases hkey' : key == key'
      · rw [if_pos hkey', get_eq_none]
        intro k hk
        rw [← BEq.congr_right hkey', ← BEq.congr_right hkey, BEq.comm]
        exact h.1 k hk
      · rw [if_neg hkey', get, if_neg fun heq => hkey' (BEq.trans (BEq.symm hkey) heq)]
    · rw [if_neg hkey, get, get, ih h.2]
      by_cases hkey' : entry.1 == key'
      · have hne : ¬ key == key' := fun heq => hkey (BEq.trans hkey' (BEq.symm heq))
        simp [hkey', hne]
      · simp [hkey']

end AssocList

/-!
## Lists of entries with a key

A registry kept as a list: an entry is found, changed and removed by its key. Where no two entries share
a key, what is found afterwards is what a map from keys to entries would give.
-/

namespace Keyed

variable {α κ : Type} [DecidableEq κ] {key : α → κ} {entries : List α} {entry : α} {k k' : κ}

/-- The entry with a key. -/
def find (key : α → κ) (entries : List α) (k : κ) : Option α := entries.find? fun entry => key entry = k

/-- The entries without the first one that has the key. -/
def remove (key : α → κ) (entries : List α) (k : κ) : List α :=
  entries.eraseP fun entry => key entry = k

/-- The entries with a change of those that have the key. -/
def modify (key : α → κ) (entries : List α) (k : κ) (f : α → α) : List α :=
  entries.map fun entry => if key entry = k then f entry else entry

/-! ## Finding -/

@[simp] theorem find_nil : find key [] k = none := rfl

theorem find_cons :
    find key (entry :: entries) k = if key entry = k then some entry else find key entries k := by
  unfold find
  rw [List.find?_cons]
  by_cases h : key entry = k
  all_goals simp [h]

theorem mem_of_find (h : find key entries k = some entry) : entry ∈ entries :=
  List.mem_of_find?_eq_some h

theorem key_of_find (h : find key entries k = some entry) : key entry = k := by
  simpa using List.find?_some h

theorem find_eq_none : find key entries k = none ↔ k ∉ entries.map key := by
  simp [find]

/-! ## Changing -/

theorem find_modify {f : α → α} (hf : ∀ entry, key (f entry) = key entry) :
    find key (modify key entries k f) k' =
      if k' = k then (find key entries k').map f else find key entries k' := by
  induction entries with
  | nil => simp [modify]
  | cons entry entries ih =>
    have hcons : modify key (entry :: entries) k f =
        (if key entry = k then f entry else entry) :: modify key entries k f := rfl
    rw [hcons, find_cons, find_cons, ih]
    by_cases hk : key entry = k
    · by_cases hk' : k = k'
      · subst hk'
        simp [hk, hf]
      · have hne : ¬ k' = k := fun h => hk' h.symm
        simp [hk, hf, hk', hne]
    · by_cases hk' : key entry = k'
      · have hne : ¬ k' = k := fun h => hk (hk'.trans h)
        simp [hk', hne]
      · simp [hk, hk']

@[simp] theorem map_modify {f : α → α} (hf : ∀ entry, key (f entry) = key entry) :
    (modify key entries k f).map key = entries.map key := by
  unfold modify
  rw [List.map_map]
  refine List.map_congr_left fun entry _ => ?_
  by_cases h : key entry = k
  · simp [h, hf]
  · simp [h]

@[simp] theorem length_modify {f : α → α} : (modify key entries k f).length = entries.length :=
  List.length_map ..

theorem mem_modify {f : α → α} (h : entry ∈ modify key entries k f) :
    entry ∈ entries ∨ ∃ before ∈ entries, key before = k ∧ entry = f before := by
  obtain ⟨before, hmem, rfl⟩ := List.mem_map.mp h
  by_cases hk : key before = k
  · exact .inr ⟨before, hmem, hk, if_pos hk⟩
  · rw [if_neg hk]
    exact .inl hmem

/-! ## Removing -/

/-- Without two entries of one key, what is removed is found no more, and nothing else is. -/
theorem find_remove (hnodup : (entries.map key).Nodup) :
    find key (remove key entries k) k' = if k' = k then none else find key entries k' := by
  induction entries with
  | nil => simp [remove]
  | cons entry entries ih =>
    rw [List.map_cons, List.nodup_cons] at hnodup
    by_cases hk : key entry = k
    · have hcons : remove key (entry :: entries) k = entries := by simp [remove, hk]
      rw [hcons, find_cons, hk]
      by_cases hk' : k = k'
      · subst hk'
        rw [if_pos rfl, find_eq_none, ← hk]
        exact hnodup.1
      · have hne : ¬ k' = k := fun h => hk' h.symm
        rw [if_neg hk', if_neg hne]
    · have hcons : remove key (entry :: entries) k = entry :: remove key entries k := by
        simp [remove, hk]
      rw [hcons, find_cons, find_cons, ih hnodup.2]
      by_cases hk' : key entry = k'
      · have hne : ¬ k' = k := fun h => hk (hk'.trans h)
        rw [if_pos hk', if_neg hne, if_pos hk']
      · rw [if_neg hk', if_neg hk']

theorem nodup_remove (hnodup : (entries.map key).Nodup) : ((remove key entries k).map key).Nodup :=
  hnodup.sublist (List.eraseP_sublist.map key)

theorem mem_of_mem_remove (h : entry ∈ remove key entries k) : entry ∈ entries :=
  List.mem_of_mem_eraseP h

theorem length_remove (h : (find key entries k).isSome) :
    (remove key entries k).length + 1 = entries.length := by
  obtain ⟨entry, hentry⟩ := Option.isSome_iff_exists.mp h
  have hlength : (remove key entries k).length = entries.length - 1 :=
    List.length_eraseP_of_mem (mem_of_find hentry) (by simpa using key_of_find hentry)
  have hpos := List.length_pos_of_mem (mem_of_find hentry)
  omega

end Keyed

end Nomo.Lib
