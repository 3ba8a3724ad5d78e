import Nomo.Lib.AssocList

/-!
# `std.map`

`std/src/map.nomo`: a map as two parallel arrays.  An operation copies the arrays out, walks over the
keys by index, edits the copies and writes them back; arrays have value semantics, so a copy is the list
itself.  Reading an array past its end panics, and so does a new key when there are 65536 already.

`run_new` is the refinement: a sequence of operations on a new map gives the results of an
insertion-ordered association list, and panics where that has no room.
-/

namespace Nomo.Collections

open Nomo.Lib

/-- How an operation ends without a result. -/
inductive Panic where
  | indexOutOfBounds
  | message (text : String)
deriving DecidableEq, Repr

variable {K V : Type}

/-- `array[index]`. -/
def index (array : List α) (i : Nat) : Except Panic α :=
  match array[i]? with
  | some value => .ok value
  | none => .error .indexOutOfBounds

/-- `array[index] = value`. -/
def assignIndex (array : List α) (i : Nat) (value : α) : Except Panic (List α) :=
  if i < array.length then .ok (array.set i value) else .error .indexOutOfBounds

/-- `Array.remove`: the element, and the array without it. -/
def removeIndex (array : List α) (i : Nat) : Option α × List α := (array[i]?, array.eraseIdx i)

/-- `Map<K, V>` (`map.nomo:8–11`). -/
structure Map (K V : Type) where
  keys : List K
  values : List V
deriving DecidableEq, Repr

namespace Map

/-- The most entries that `set` makes. -/
def capacity : Nat := 65536

/-- `new`. -/
def new : Map K V := { keys := [], values := [] }

/-- `len`. -/
def len (self : Map K V) : Nat := self.keys.length

/-- `is_empty`. -/
def isEmpty (self : Map K V) : Bool := self.keys.length == 0

section

variable [BEq K]

/-- The loop of `contains_key`, `get`, `set` and `remove`: the index of the first key that is equal,
from `i` on. -/
def search (keys : List K) (key : K) (i : Nat) : Except Panic (Option Nat) :=
  if i < keys.length then do
    let candidate ← index keys i
    if candidate == key then pure (some i) else search keys key (i + 1)
  else pure none
termination_by keys.length - i

/-- `contains_key` (`map.nomo:31–49`). -/
def containsKey (self : Map K V) (key : K) : Except Panic Bool := do
  match ← search self.keys key 0 with
  | some _ => pure true
  | none => pure false

/-- `get` (`map.nomo:52–72`). -/
def get (self : Map K V) (key : K) : Except Panic (Option V) := do
  match ← search self.keys key 0 with
  | some found => some <$> index self.values found
  | none => pure none

/-- `set` (`map.nomo:75–110`): the previous value, and the map. -/
def set (self : Map K V) (key : K) (value : V) : Except Panic (Option V × Map K V) := do
  match ← search self.keys key 0 with
  | some found =>
    let old ← index self.values found
    let values ← assignIndex self.values found value
    pure (some old, { self with values := values })
  | none =>
    if self.keys.length ≥ capacity then .error (.message "map capacity exceeded")
    else pure (none, { keys := self.keys ++ [key], values := self.values ++ [value] })

/-- `remove` (`map.nomo:113–137`): the previous value, and the map. -/
def remove (self : Map K V) (key : K) : Except Panic (Option V × Map K V) := do
  match ← search self.keys key 0 with
  | some found =>
    let (_, keys) := removeIndex self.keys found
    let (removed, values) := removeIndex self.values found
    pure (removed, { keys := keys, values := values })
  | none => pure (none, self)

end

/-- `clear` (`map.nomo:140–147`). -/
def clear (_ : Map K V) : Map K V := { keys := [], values := [] }

end Map

/-! ## Sequences of operations -/

/-- An operation on a map. -/
inductive Op (K V : Type) where
  | set (key : K) (value : V)
  | remove (key : K)
  | clear
  | get (key : K)
  | containsKey (key : K)
  | keys
  | values
  | len
  | isEmpty

/-- What an operation returns. -/
inductive Answer (K V : Type) where
  | value (value : Option V)
  | bool (value : Bool)
  | keys (keys : List K)
  | values (values : List V)
  | count (n : Nat)
  | void
deriving DecidableEq, Repr

section

variable [BEq K]

/-- One operation. -/
def Map.step (self : Map K V) : Op K V → Except Panic (Answer K V × Map K V)
  | .set key value => do
    let (old, self) ← self.set key value
    pure (.value old, self)
  | .remove key => do
    let (old, self) ← self.remove key
    pure (.value old, self)
  | .clear => pure (.void, self.clear)
  | .get key => do pure (.value (← self.get key), self)
  | .containsKey key => do pure (.bool (← self.containsKey key), self)
  | .keys => pure (.keys self.keys, self)
  | .values => pure (.values self.values, self)
  | .len => pure (.count self.len, self)
  | .isEmpty => pure (.bool self.isEmpty, self)

/-- A sequence of operations: what they return, and the map in the end. -/
def Map.run (self : Map K V) : List (Op K V) → Except Panic (List (Answer K V) × Map K V)
  | [] => pure ([], self)
  | op :: ops => do
    let (answer, self) ← self.step op
    let (answers, self) ← self.run ops
    pure (answer :: answers, self)

/-- One operation on an association list that has room for `capacity` entries. -/
def answer (entries : List (K × V)) : Op K V → Except Panic (Answer K V × List (K × V))
  | .set key value =>
    if (AssocList.get entries key).isNone ∧ Map.capacity ≤ entries.length then
      .error (.message "map capacity exceeded")
    else .ok (.value (AssocList.get entries key), AssocList.set entries key value)
  | .remove key => .ok (.value (AssocList.get entries key), AssocList.remove entries key)
  | .clear => .ok (.void, [])
  | .get key => .ok (.value (AssocList.get entries key), entries)
  | .containsKey key => .ok (.bool (AssocList.get entries key).isSome, entries)
  | .keys => .ok (.keys (entries.map Prod.fst), entries)
  | .values => .ok (.values (entries.map Prod.snd), entries)
  | .len => .ok (.count entries.length, entries)
  | .isEmpty => .ok (.bool entries.isEmpty, entries)

/-- A sequence of operations on an association list. -/
def answers (entries : List (K × V)) : List (Op K V) → Except Panic (List (Answer K V) × List (K × V))
  | [] => .ok ([], entries)
  | op :: ops => do
    let (first, entries) ← answer entries op
    let (others, entries) ← answers entries ops
    pure (first :: others, entries)

end

/-! ## The search -/

namespace Map

variable [BEq K]

/-- The map of a list of entries. -/
def ofEntries (entries : List (K × V)) : Map K V where
  keys := entries.map Prod.fst
  values := entries.map Prod.snd

theorem search_eq (before keys : List K) (key : K) :
    search (before ++ keys) key before.length
      = .ok ((keys.findIdx? (· == key)).map (· + before.length)) := by
  induction keys generalizing before with
  | nil =>
    rw [search, if_neg (by simp)]
    rfl
  | cons k keys ih =>
    have hread : index (before ++ k :: keys) before.length = .ok k := by simp [index]
    have hnext := ih (before ++ [k])
    rw [List.append_assoc, List.singleton_append, List.length_append, List.length_singleton] at hnext
    rw [search, if_pos (by simp), hread, List.findIdx?_cons]
    simp only [Except.bind, bind, hnext]
    by_cases h : k == key
    · simp [h, pure, Except.pure]
    · simp [h, Function.comp_def, Nat.add_assoc, Nat.add_comm 1]

theorem search_keys (keys : List K) (key : K) :
    search keys key 0 = .ok (keys.findIdx? (· == key)) := by
  simpa using search_eq [] keys key

theorem of_findIdx_none {entries : List (K × V)} {key : K}
    (h : (entries.map Prod.fst).findIdx? (· == key) = none) :
    AssocList.get entries key = none ∧ AssocList.remove entries key = entries ∧
      ∀ value, AssocList.set entries key value = entries ++ [(key, value)] := by
  induction entries with
  | nil => exact ⟨rfl, rfl, fun _ => rfl⟩
  | cons entry rest ih =>
    rw [List.map_cons, List.findIdx?_cons] at h
    split_ifs at h with hkey
    obtain ⟨hget, hremove, hset⟩ := ih (Option.map_eq_none_iff.1 h)
    refine ⟨?_, ?_, fun value => ?_⟩
    · rw [AssocList.get, if_neg hkey, hget]
    · rw [AssocList.remove, if_neg hkey, hremove]
    · rw [AssocList.set, if_neg hkey, hset, List.cons_append]

/-- At the index of the first equal key are the entry that the association list finds, replaces and
removes. -/
theorem of_findIdx_some {entries : List (K × V)} {key : K} {i : Nat}
    (h : (entries.map Prod.fst).findIdx? (· == key) = some i) :
    (∃ old, AssocList.get entries key = some old ∧ (entries.map Prod.snd)[i]? = some old) ∧
      ofEntries (AssocList.remove entries key)
        = { keys := (entries.map Prod.fst).eraseIdx i, values := (entries.map Prod.snd).eraseIdx i } ∧
      ∀ value, ofEntries (AssocList.set entries key value)
        = { keys := entries.map Prod.fst, values := (entries.map Prod.snd).set i value } := by
  induction entries generalizing i with
  | nil => simp at h
  | cons entry rest ih =>
    rw [List.map_cons, List.findIdx?_cons] at h
    split_ifs at h with hkey
    · obtain rfl := Option.some_inj.1 h
      refine ⟨⟨entry.2, by rw [AssocList.get, if_pos hkey], rfl⟩, ?_, fun value => ?_⟩
      · rw [AssocList.remove, if_pos hkey]
        rfl
      · rw [AssocList.set, if_pos hkey]
        rfl
    · obtain ⟨j, hj, rfl⟩ := Option.map_eq_some_iff.1 h
      obtain ⟨⟨old, hget, hold⟩, hremove, hset⟩ := ih hj
      simp only [ofEntries, Map.mk.injEq] at hremove hset
      refine ⟨⟨old, by rw [AssocList.get, if_neg hkey, hget], by simpa using hold⟩, ?_,
        fun value => ?_⟩
      · rw [AssocList.remove, if_neg hkey]
        simp [ofEntries, hremove]
      · rw [AssocList.set, if_neg hkey]
        simp [ofEntries, hset]

/-! ## The operations -/

variable (entries : List (K × V))

theorem containsKey_eq (key : K) :
    (ofEntries entries).containsKey key = .ok (AssocList.get entries key).isSome := by
  rw [containsKey, ofEntries, search_keys]
  cases hfound : (entries.map Prod.fst).findIdx? (· == key) with
  | none =>
    rw [(of_findIdx_none hfound).1]
    rfl
  | some i =>
    obtain ⟨⟨old, hget, -⟩, -, -⟩ := of_findIdx_some hfound
    rw [hget]
    rfl

theorem get_eq (key : K) :
    (ofEntries entries).get key = .ok (AssocList.get entries key) := by
  rw [get, ofEntries, search_keys]
  cases hfound : (entries.map Prod.fst).findIdx? (· == key) with
  | none =>
    rw [(of_findIdx_none hfound).1]
    rfl
  | some i =>
    obtain ⟨⟨old, hget, hold⟩, -, -⟩ := of_findIdx_some hfound
    show some <$> index _ i = _
    rw [index, hold, hget]
    rfl

theorem remove_eq (key : K) :
    (ofEntries entries).remove key
      = .ok (AssocList.get entries key, ofEntries (AssocList.remove entries key)) := by
  rw [remove]
  simp only [ofEntries, search_keys]
  cases hfound : (entries.map Prod.fst).findIdx? (· == key) with
  | none =>
    rw [(of_findIdx_none hfound).1, (of_findIdx_none hfound).2.1]
    rfl
  | some i =>
    obtain ⟨⟨old, hget, hold⟩, hremove, -⟩ := of_findIdx_some hfound
    show Except.ok ((entries.map Prod.snd)[i]?, _) = _
    rw [hold, hget]
    simpa [ofEntries, removeIndex] using hremove.symm

theorem set_eq (key : K) (value : V) :
    (ofEntries entries).set key value
      = if (AssocList.get entries key).isNone ∧ capacity ≤ entries.length then
          .error (.message "map capacity exceeded")
        else .ok (AssocList.get entries key, ofEntries (AssocList.set entries key value)) := by
  rw [set]
  simp only [ofEntries, search_keys]
  cases hfound : (entries.map Prod.fst).findIdx? (· == key) with
  | none =>
    obtain ⟨hget, -, hset⟩ := of_findIdx_none hfound
    rw [hget, hset]
    simp only [bind, Except.bind, List.length_map]
    by_cases hroom : capacity ≤ entries.length
    · simp [hroom]
    · simp [hroom, pure, Except.pure]
  | some i =>
    obtain ⟨⟨old, hget, hold⟩, -, hset⟩ := of_findIdx_some hfound
    have hlt : i < (entries.map Prod.snd).length := (List.getElem?_eq_some_iff.1 hold).1
    have hset := hset value
    simp only [ofEntries] at hset
    simp only [bind, Except.bind, index, assignIndex, hold, if_pos hlt, hget]
    simp [pure, Except.pure, hset]

/-- **One operation** answers as the association list does. -/
theorem step_eq (op : Op K V) :
    (ofEntries entries).step op = (answer entries op).map fun r => (r.1, ofEntries r.2) := by
  cases op with
  | set key value =>
    rw [step, set_eq, answer]
    split <;> rfl
  | remove key =>
    rw [step, remove_eq]
    rfl
  | get key =>
    rw [step, get_eq]
    rfl
  | containsKey key =>
    rw [step, containsKey_eq]
    rfl
  | isEmpty =>
    simp only [step, answer, isEmpty, ofEntries, List.length_map]
    cases entries <;> rfl
  | len => simp [step, answer, len, ofEntries, pure, Except.pure, Except.map]
  | clear | keys | values => rfl

/-- **A sequence of operations** answers as the association list does. -/
theorem run_eq (ops : List (Op K V)) :
    (ofEntries entries).run ops = (answers entries ops).map fun r => (r.1, ofEntries r.2) := by
  induction ops generalizing entries with
  | nil => rfl
  | cons op ops ih =>
    rw [run, answers, step_eq]
    cases answer entries op with
    | error panic => rfl
    | ok first =>
      simp only [bind, Except.bind, Except.map, ih]
      cases answers first.2 ops <;> rfl

/-! ## Every run -/

theorem answer_distinct {entries : List (K × V)} (h : AssocList.Distinct entries) {op : Op K V}
    {r : Answer K V × List (K × V)} (hr : answer entries op = .ok r) : AssocList.Distinct r.2 := by
  cases op with
  | set key value =>
    rw [answer] at hr
    split_ifs at hr
    cases hr
    exact AssocList.distinct_set h
  | remove key =>
    cases hr
    exact AssocList.distinct_remove h
  | clear =>
    cases hr
    exact AssocList.distinct_nil
  | get | containsKey | keys | values | len | isEmpty =>
    cases hr
    exact h

theorem answers_distinct {entries : List (K × V)} (h : AssocList.Distinct entries) {ops : List (Op K V)}
    {r : List (Answer K V) × List (K × V)} (hr : answers entries ops = .ok r) :
    AssocList.Distinct r.2 := by
  induction ops generalizing entries r with
  | nil =>
    cases hr
    exact h
  | cons op ops ih =>
    rw [answers] at hr
    cases hfirst : answer entries op with
    | error panic =>
      rw [hfirst] at hr
      cases hr
    | ok first =>
      rw [hfirst] at hr
      cases hothers : answers first.2 ops with
      | error panic =>
        simp only [bind, Except.bind, hothers] at hr
        cases hr
      | ok others =>
        simp only [bind, Except.bind, hothers] at hr
        cases hr
        show AssocList.Distinct others.2
        exact ih (answer_distinct h hfirst) hothers

/-- What holds of a map between two operations: its arrays have one length and no two keys are equal; it
can be read; and `set` and `remove` return what `get` finds, change what it finds for the key, and
nothing else. -/
structure Lawful (self : Map K V) : Prop where
  length : self.keys.length = self.values.length
  distinct : self.keys.Pairwise fun k k' => (k == k') = false
  get : ∀ key, ∃ found, self.get key = .ok found ∧ self.containsKey key = .ok found.isSome
  set : ∀ key value old after, self.set key value = .ok (old, after) →
    self.get key = .ok old ∧
      ∀ key', after.get key' = if key == key' then .ok (some value) else self.get key'
  remove : ∀ key, ∃ old after, self.remove key = .ok (old, after) ∧ self.get key = .ok old ∧
    ∀ key', after.get key' = if key == key' then .ok none else self.get key'

theorem lawful_ofEntries [EquivBEq K] {entries : List (K × V)} (h : AssocList.Distinct entries) :
    (ofEntries entries).Lawful where
  length := by simp [ofEntries]
  distinct := h
  get key := ⟨_, get_eq entries key, containsKey_eq entries key⟩
  set key value old after hset := by
    rw [set_eq] at hset
    split_ifs at hset
    cases hset
    refine ⟨get_eq entries key, fun key' => ?_⟩
    rw [get_eq, get_eq, AssocList.get_set]
    split <;> rfl
  remove key := by
    refine ⟨_, _, remove_eq entries key, get_eq entries key, fun key' => ?_⟩
    rw [get_eq, get_eq, AssocList.get_remove h]
    split <;> rfl

end Map

open Map in
/-- **`std.map` refines an insertion-ordered association list.**  Whatever the operations, a new map
answers as the empty association list does, up to the panic of a new key without room, and the map is
lawful afterwards. -/
theorem run_new [BEq K] [EquivBEq K] (ops : List (Op K V)) :
    (new : Map K V).run ops = (answers [] ops).map (fun r => (r.1, ofEntries r.2)) ∧
      ∀ results after, (new : Map K V).run ops = .ok (results, after) → after.Lawful := by
  have hrun : (new : Map K V).run ops = (answers [] ops).map fun r => (r.1, ofEntries r.2) :=
    run_eq [] ops
  refine ⟨hrun, fun results after h => ?_⟩
  rw [hrun] at h
  cases hanswers : answers ([] : List (K × V)) ops with
  | error panic =>
    rw [hanswers] at h
    cases h
  | ok r =>
    rw [hanswers] at h
    cases h
    exact lawful_ofEntries (answers_distinct AssocList.distinct_nil hanswers)

/-- Keys compared as natural numbers. -/
theorem run_new_nat :
    (Map.new : Map Nat String).run [.set 1 "a", .set 2 "b", .set 1 "c", .remove 2, .get 1]
      = (answers [] [.set 1 "a", .set 2 "b", .set 1 "c", .remove 2, .get 1]).map
          (fun r => (r.1, Map.ofEntries r.2)) ∧
    ∀ results after, (Map.new : Map Nat String).run
        [.set 1 "a", .set 2 "b", .set 1 "c", .remove 2, .get 1] = .ok (results, after) →
      after.Lawful :=
  run_new _

end Nomo.Collections
