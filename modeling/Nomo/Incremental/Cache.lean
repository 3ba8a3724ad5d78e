import Nomo.Lib.Index

/-!
# The query cache

`nomo/src/incremental.rs:120–297, 651–683`. A cache holds values under keys, each with the inputs and
the other queries it depends on, and two indexes from these back to the keys. An input that changed is
invalidated: every entry that depends on it, directly or through other entries, is removed by a walk
along the indexes.

Every critical section of the cache's lock is one function on its state. The set of the dependencies
of an entry is a list without duplicates, since their order matters to nothing; the counters do not
overflow.
-/

namespace Nomo.Incremental

open Nomo.Lib
open Std (TreeMap TreeSet TransOrd LawfulEqOrd)

variable {Input Key Value : Type} [Ord Input] [Ord Key]

/-! ## States -/

/-- `QueryDependency`. -/
inductive QueryDependency (Input Key : Type)
  | input (input : Input)
  | query (query : Key)
deriving DecidableEq

/-- `CachedQuery`. -/
structure CachedQuery (Input Key Value : Type) where
  value : Value
  dependencies : List (QueryDependency Input Key)

/-- `CacheState`. -/
structure CacheState (Input Key Value : Type) [Ord Input] [Ord Key] where
  entries : TreeMap Key (CachedQuery Input Key Value)
  inputDependents : Index Input Key
  queryDependents : Index Key Key
  hits : ℕ
  misses : ℕ
  insertions : ℕ
  invalidations : ℕ
  generation : ℕ

namespace CacheState

/-- `CacheState::default`. -/
def init : CacheState Input Key Value where
  entries := ∅
  inputDependents := ∅
  queryDependents := ∅
  hits := 0
  misses := 0
  insertions := 0
  invalidations := 0
  generation := 0

/-- A key is listed under what it depends on. -/
def addDependent (key : Key) (state : CacheState Input Key Value) :
    QueryDependency Input Key → CacheState Input Key Value
  | .input input => { state with inputDependents := state.inputDependents.add input key }
  | .query query => { state with queryDependents := state.queryDependents.add query key }

/-- A key is no longer listed under what it depends on. -/
def removeDependent (key : Key) (state : CacheState Input Key Value) :
    QueryDependency Input Key → CacheState Input Key Value
  | .input input => { state with inputDependents := state.inputDependents.remove input key }
  | .query query => { state with queryDependents := state.queryDependents.remove query key }

/-! ## Looking up and inserting -/

/-- `QueryCache::get`. -/
def get (key : Key) (state : CacheState Input Key Value) :
    Option Value × CacheState Input Key Value :=
  match state.entries[key]? with
  | some entry => (some entry.value, { state with hits := state.hits + 1 })
  | none => (none, { state with misses := state.misses + 1 })

variable [DecidableEq Input] [DecidableEq Key]

/-- The second critical section of `QueryCache::get_or_compute`. -/
def insertComputed (key : Key) (dependencies : List (QueryDependency Input Key)) (computed : Value)
    (state : CacheState Input Key Value) : Value × CacheState Input Key Value :=
  match state.entries[key]? with
  | some existing => (existing.value, { state with hits := state.hits + 1 })
  | none =>
    let dependencies := dependencies.dedup
    let state := dependencies.foldl (addDependent key) state
    (computed, { state with
      entries := state.entries.insert key { value := computed, dependencies }
      insertions := state.insertions + 1
      generation := state.generation + 1 })

/-- `QueryCache::get_or_compute`. The computation, which runs without the lock, may use the cache
itself. -/
def getOrCompute (key : Key) (dependencies : List (QueryDependency Input Key))
    (compute : CacheState Input Key Value → Value × CacheState Input Key Value)
    (state : CacheState Input Key Value) : Value × CacheState Input Key Value :=
  match get key state with
  | (some value, state) => (value, state)
  | (none, state) =>
    let (computed, state) := compute state
    insertComputed key dependencies computed state

/-! ## Invalidation -/

omit [DecidableEq Input] [DecidableEq Key] in
/-- The entry of a key is removed, and the key is no longer listed. Without an entry there is nothing
to do. -/
def removeEntry (key : Key) (state : CacheState Input Key Value) :
    Option (CacheState Input Key Value) :=
  match state.entries[key]? with
  | none => none
  | some entry => some (entry.dependencies.foldl (removeDependent key)
      { state with entries := state.entries.erase key })

omit [DecidableEq Input] [DecidableEq Key]

section Walk

variable [TransOrd Key]

theorem size_foldl_removeDependent (key : Key) (dependencies : List (QueryDependency Input Key))
    (state : CacheState Input Key Value) :
    TreeMap.size (dependencies.foldl (removeDependent key) state).queryDependents =
      TreeMap.size state.queryDependents := by
  induction dependencies generalizing state with
  | nil => rfl
  | cons dependency rest ih =>
    rw [List.foldl_cons, ih]
    cases dependency with
    | input input => rfl
    | query query => exact TreeMap.size_modify

theorem size_removeEntry {key : Key} {state state' : CacheState Input Key Value}
    (h : removeEntry key state = some state') :
    TreeMap.size state'.queryDependents = TreeMap.size state.queryDependents := by
  unfold removeEntry at h
  split at h
  · cases h
  · cases h
    rw [size_foldl_removeDependent]

end Walk

/-- The loop of `invalidate_queries`. -/
def walk [TransOrd Key] [LawfulEqOrd Key] (state : CacheState Input Key Value) (queue : List Key) (visited : TreeSet Key)
    (removed : ℕ) : CacheState Input Key Value × ℕ :=
  match queue with
  | [] => (state, removed)
  | key :: queue =>
    if visited.contains key then walk state queue visited removed
    else
      let dependents := (state.queryDependents.at' key).toList
      let taken := { state with queryDependents := state.queryDependents.erase key }
      match h : removeEntry key taken with
      | none => walk taken (queue ++ dependents) (visited.insert key) removed
      | some rest => walk rest (queue ++ dependents) (visited.insert key) (removed + 1)
termination_by (TreeMap.size state.queryDependents, queue.length)
decreasing_by
  -- A key that is listed is taken from the index; any other adds nothing to the queue.
  · exact Prod.Lex.right _ (Nat.lt_succ_self _)
  · rcases Index.size_erase state.queryDependents key with hsize | ⟨hsize, hempty⟩
    · exact Prod.Lex.left _ _ hsize
    · have hnone : (∅ : TreeSet Key).toList = [] := rfl
      rw [hempty, hsize, hnone, List.append_nil]
      exact Prod.Lex.right _ (Nat.lt_succ_self _)
  · have htaken := size_removeEntry h
    rw [htaken]
    rcases Index.size_erase state.queryDependents key with hsize | ⟨hsize, hempty⟩
    · exact Prod.Lex.left _ _ hsize
    · have hnone : (∅ : TreeSet Key).toList = [] := rfl
      rw [hempty, hsize, hnone, List.append_nil]
      exact Prod.Lex.right _ (Nat.lt_succ_self _)

variable [TransOrd Key] [LawfulEqOrd Key]

/-- `invalidate_queries`. -/
def invalidateQueries (state : CacheState Input Key Value) (roots : TreeSet Key) :
    ℕ × CacheState Input Key Value :=
  let (state, removed) := walk state roots.toList ∅ 0
  (removed, { state with
    inputDependents := state.inputDependents.prune
    queryDependents := state.queryDependents.prune
    invalidations := state.invalidations + removed
    generation := if removed > 0 then state.generation + 1 else state.generation })

/-- `QueryCache::invalidate_input`. -/
def invalidateInput (input : Input) (state : CacheState Input Key Value) :
    ℕ × CacheState Input Key Value :=
  let roots := state.inputDependents.at' input
  invalidateQueries { state with inputDependents := state.inputDependents.erase input } roots

/-- `QueryCache::clear`. -/
def clear (state : CacheState Input Key Value) : ℕ × CacheState Input Key Value :=
  let removed := state.entries.size
  (removed, { state with
    entries := ∅
    inputDependents := ∅
    queryDependents := ∅
    invalidations := state.invalidations + removed
    generation := if removed > 0 then state.generation + 1 else state.generation })

end CacheState

end Nomo.Incremental
