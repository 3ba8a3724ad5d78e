import Mathlib

/-!
# Indexes

An index lists under every place the keys that were put there: a map of sets, of which some may be
empty. `Lists` is what an index says; each operation has one lemma about it.
-/

namespace Nomo.Lib

open Std (TreeMap TreeSet TransOrd LawfulEqOrd)

variable {A K : Type} [Ord A] [Ord K]

/-- Sets of keys under places. -/
abbrev Index (A K : Type) [Ord A] [Ord K] := TreeMap A (TreeSet K)

namespace Index

/-- The keys under a place. -/
def at' (index : Index A K) (place : A) : TreeSet K := (index[place]?).getD ∅

/-- One more key under a place. -/
def add (index : Index A K) (place : A) (key : K) : Index A K :=
  index.insert place ((index.at' place).insert key)

/-- A key is taken from a place. -/
def remove (index : Index A K) (place : A) (key : K) : Index A K :=
  index.modify place (·.erase key)

/-- Places without keys are dropped. -/
def prune (index : Index A K) : Index A K := index.filter fun _ keys => !keys.isEmpty

/-- The key is under the place. -/
def Lists (index : Index A K) (place : A) (key : K) : Prop :=
  ∃ keys, index[place]? = some keys ∧ key ∈ keys

set_option linter.unusedSectionVars false

variable {index : Index A K} [TransOrd A] [LawfulEqOrd A] [TransOrd K] [LawfulEqOrd K]

theorem mem_at' {place : A} {key : K} : key ∈ index.at' place ↔ index.Lists place key := by
  unfold at' Lists
  cases index[place]? with
  | none | some keys => simp

@[simp] theorem lists_empty {place : A} {key : K} : ¬ (∅ : Index A K).Lists place key := by
  rintro ⟨keys, hkeys, -⟩
  simp at hkeys

@[simp] theorem lists_add {place other : A} {key k : K} :
    (index.add place key).Lists other k ↔ (place = other ∧ key = k) ∨ index.Lists other k := by
  unfold Lists add
  rw [TreeMap.getElem?_insert]
  by_cases hplace : place = other
  · subst hplace
    simp only [Std.ReflCmp.compare_self, if_true, Option.some.injEq, exists_eq_left', TreeSet.mem_insert,
      Std.compare_eq_iff_eq, true_and]
    rw [mem_at', Lists]
  · rw [if_neg (by simpa using hplace)]
    simp [hplace]

@[simp] theorem lists_remove {place other : A} {key k : K} :
    (index.remove place key).Lists other k ↔ index.Lists other k ∧ ¬ (place = other ∧ key = k) := by
  unfold Lists remove
  rw [TreeMap.getElem?_modify]
  by_cases hplace : place = other
  · subst hplace
    simp only [Std.ReflCmp.compare_self, if_true, Option.map_eq_some_iff, true_and]
    constructor
    · rintro ⟨_, ⟨keys, hkeys, rfl⟩, hmem⟩
      rw [TreeSet.mem_erase] at hmem
      exact ⟨⟨keys, hkeys, hmem.2⟩, by simpa using hmem.1⟩
    · rintro ⟨⟨keys, hkeys, hmem⟩, hne⟩
      refine ⟨_, ⟨keys, hkeys, rfl⟩, ?_⟩
      rw [TreeSet.mem_erase]
      exact ⟨by simpa using hne, hmem⟩
  · rw [if_neg (by simpa using hplace)]
    simp [hplace]

@[simp] theorem lists_erase {place other : A} {k : K} :
    Lists (TreeMap.erase index place) other k ↔ place ≠ other ∧ index.Lists other k := by
  unfold Lists
  rw [TreeMap.getElem?_erase]
  by_cases hplace : place = other
  · simp [hplace]
  · rw [if_neg (by simpa using hplace)]
    simp [hplace]

@[simp] theorem lists_prune {place : A} {key : K} :
    index.prune.Lists place key ↔ index.Lists place key := by
  unfold Lists prune
  rw [TreeMap.getElem?_filter']
  constructor
  · rintro ⟨keys, hkeys, hmem⟩
    obtain ⟨hkeys, -⟩ := Option.filter_eq_some_iff.mp hkeys
    exact ⟨keys, hkeys, hmem⟩
  · rintro ⟨keys, hkeys, hmem⟩
    refine ⟨keys, Option.filter_eq_some_iff.mpr ⟨hkeys, ?_⟩, hmem⟩
    have hnonempty := TreeSet.isEmpty_eq_false_iff_exists_mem.mpr ⟨key, hmem⟩
    simp [hnonempty]

/-- Every place has a key. -/
def NoEmpty (index : Index A K) : Prop := 
  ∀ (place : A) (keys : TreeSet K), index[place]? = some keys → keys.isEmpty = false

theorem noEmpty_prune : index.prune.NoEmpty := by
  rintro place keys hkeys
  unfold prune at hkeys
  rw [TreeMap.getElem?_filter'] at hkeys
  obtain ⟨-, hkeep⟩ := Option.filter_eq_some_iff.mp hkeys
  simpa using hkeep

theorem noEmpty_empty : (∅ : Index A K).NoEmpty := by
  rintro place keys hkeys
  simp at hkeys

theorem NoEmpty.add (h : index.NoEmpty) (place : A) (key : K) : (index.add place key).NoEmpty := by
  rintro other keys hkeys
  unfold Index.add at hkeys
  rw [TreeMap.getElem?_insert] at hkeys
  split_ifs at hkeys with hplace
  · cases hkeys
    exact TreeSet.isEmpty_insert
  · exact h other keys hkeys

/-- To take a place away makes an index smaller, or there was nothing under it. -/
theorem size_erase (index : Index A K) (place : A) : TreeMap.size (TreeMap.erase index place) < TreeMap.size index ∨
    (TreeMap.size (TreeMap.erase index place) = TreeMap.size index ∧ index.at' place = ∅) := by
  rw [TreeMap.size_erase]
  by_cases hplace : TreeMap.contains index place = true
  · rw [if_pos hplace]
    have hpos : 0 < TreeMap.size index := by
      refine Nat.pos_of_ne_zero fun hzero => ?_
      have hempty : TreeMap.isEmpty index = true := by simp [TreeMap.isEmpty_eq_size_eq_zero, hzero]
      rw [TreeMap.isEmpty_iff_forall_contains] at hempty
      rw [hempty place] at hplace
      cases hplace
    left
    omega
  · right
    rw [if_neg hplace]
    have hnone : index[place]? = none := TreeMap.getElem?_eq_none (by simpa using hplace)
    exact ⟨rfl, by rw [at', hnone]; rfl⟩

end Index

end Nomo.Lib

/-!
## Maps that are written once

A map to which a key is given a value, or an error if it has another value already. Writing a list of
entries succeeds exactly if no key is given two values, in whatever order the entries come.
-/

namespace Nomo.Lib.WriteOnce

universe u v w

variable {K : Type u} {V : Type v} [LinearOrder K] [DecidableEq V]

/-- Give a key a value, unless it has another. -/
def put (map : Std.TreeMap K V) (key : K) (value : V) (message : String) :
    Except String (Std.TreeMap K V) :=
  match map[key]? with
  | some existing => if existing ≠ value then .error message else .ok map
  | none => .ok (map.insert key value)

/-- The map has the entries of a list, and no others. -/
def Has {α : Type w} (key : α → K) (value : α → V) (entries : List α) (map : Std.TreeMap K V) : Prop :=
  ∀ k v, map[k]? = some v ↔ ∃ entry ∈ entries, key entry = k ∧ value entry = v

variable {α : Type w} {key : α → K} {value : α → V} {entries : List α} {map : Std.TreeMap K V}

omit [DecidableEq V] in
theorem has_nil : Has key value [] ∅ := by
  intro k v
  simp

omit [DecidableEq V] in
theorem Has.agree (h : Has key value entries map) {a b : α} (ha : a ∈ entries) (hb : b ∈ entries)
    (hkey : key a = key b) : value a = value b := by
  have hfound := (h (key a) (value a)).2 ⟨a, ha, rfl, rfl⟩
  have hfound' := (h (key a) (value b)).2 ⟨b, hb, hkey.symm, rfl⟩
  rw [hfound] at hfound'
  exact Option.some.inj hfound'

/-- **Writing an entry** adds it. -/
theorem Has.put (h : Has key value entries map) {entry : α} {message : String}
    {map' : Std.TreeMap K V} (hput : put map (key entry) (value entry) message = .ok map') :
    Has key value (entries ++ [entry]) map' := by
  unfold WriteOnce.put at hput
  intro k v
  simp only [List.mem_append, List.mem_singleton, or_and_right, exists_or, exists_eq_left]
  cases hfind : map[key entry]? with
  | some existing =>
    rw [hfind] at hput
    simp only [ne_eq, ite_not] at hput
    split_ifs at hput with heq
    cases hput
    rw [h k v, or_iff_left_of_imp]
    rintro ⟨rfl, rfl⟩
    exact (h _ _).1 (heq ▸ hfind)
  | none =>
    rw [hfind] at hput
    cases hput
    simp only [Std.TreeMap.getElem?_insert, Std.LawfulEqCmp.compare_eq_iff_eq]
    split_ifs with hk
    · subst hk
      have hnone : ¬ ∃ other ∈ entries, key other = key entry ∧ value other = v :=
        fun hother => by simpa [hfind] using (h (key entry) v).2 hother
      simp [hnone]
    · simp [h k v, hk]

theorem Has.exists_put (h : Has key value entries map) (entry : α) (message : String)
    (hagree : ∀ other ∈ entries, key other = key entry → value other = value entry) :
    ∃ map', WriteOnce.put map (key entry) (value entry) message = .ok map' := by
  unfold WriteOnce.put
  cases hfind : map[key entry]? with
  | some existing =>
    obtain ⟨other, hother, hkey, rfl⟩ := (h _ _).1 hfind
    exact ⟨map, by simp [hagree other hother hkey]⟩
  | none => exact ⟨_, rfl⟩

omit [DecidableEq V] in
theorem Has.mem_values (h : Has key value entries map) {v : V} :
    v ∈ map.toList.map Prod.snd ↔ ∃ entry ∈ entries, value entry = v := by
  simp only [List.mem_map, Prod.exists, exists_eq_right, Std.TreeMap.mem_toList_iff_getElem?_eq_some]
  constructor
  · rintro ⟨k, hk⟩
    obtain ⟨entry, hentry, -, hvalue⟩ := (h k v).1 hk
    exact ⟨entry, hentry, hvalue⟩
  · rintro ⟨entry, hentry, rfl⟩
    exact ⟨key entry, (h _ _).2 ⟨entry, hentry, rfl, rfl⟩⟩

end Nomo.Lib.WriteOnce
