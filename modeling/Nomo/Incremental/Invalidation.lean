import Nomo.Incremental.Cache

/-!
# Invalidation removes exactly what depends on an input

In every state that calls of the cache lead to, the indexes list exactly the dependencies of the
entries (`Consistent`). The walk of an invalidation keeps a weaker law: of what it has taken from the
indexes, all keys are visited or in the queue (`Walking`). When the queue is empty, the visited keys
are those from which the input is reachable.
-/

namespace Nomo.Incremental

open Nomo.Lib
open Std (TreeMap TreeSet TransOrd LawfulEqOrd)

set_option linter.unusedSectionVars false

variable {Input Key Value : Type} [Ord Input] [Ord Key] [TransOrd Input] [LawfulEqOrd Input]
  [TransOrd Key] [LawfulEqOrd Key]

namespace CacheState

/-! ## Recorded dependencies -/

/-- The entry of a key records a dependency. -/
def Depends (state : CacheState Input Key Value) (key : Key)
    (dependency : QueryDependency Input Key) : Prop :=
  ∃ entry, state.entries[key]? = some entry ∧ dependency ∈ entry.dependencies

/-- An input is reached from a key through the dependencies of the entries. -/
inductive Reaches (state : CacheState Input Key Value) : Key → Input → Prop
  | direct {key : Key} {input : Input} : state.Depends key (.input input) → Reaches state key input
  | through {key query : Key} {input : Input} : state.Depends key (.query query) →
      Reaches state query input → Reaches state key input

/-- An index lists a key under a dependency. -/
def Lists (state : CacheState Input Key Value) : QueryDependency Input Key → Key → Prop
  | .input input, key => state.inputDependents.Lists input key
  | .query query, key => state.queryDependents.Lists query key

/-- The indexes list the dependencies of the entries, and nothing else. -/
structure Consistent (state : CacheState Input Key Value) : Prop where
  lists : ∀ dependency key, state.Lists dependency key ↔ state.Depends key dependency
  inputs : state.inputDependents.NoEmpty
  queries : state.queryDependents.NoEmpty

variable {state : CacheState Input Key Value}

/-! ## Listing and unlisting -/

@[simp] theorem lists_addDependent {key k : Key} {dependency d : QueryDependency Input Key} :
    (addDependent key state dependency).Lists d k ↔ (dependency = d ∧ key = k) ∨ state.Lists d k := by
  cases dependency <;> cases d <;> simp [addDependent, Lists]

@[simp] theorem lists_removeDependent {key k : Key} {dependency d : QueryDependency Input Key} :
    (removeDependent key state dependency).Lists d k ↔
      state.Lists d k ∧ ¬ (dependency = d ∧ key = k) := by
  cases dependency <;> cases d <;> simp [removeDependent, Lists]

theorem lists_foldl_addDependent {key k : Key} {d : QueryDependency Input Key}
    (dependencies : List (QueryDependency Input Key)) :
    (dependencies.foldl (addDependent key) state).Lists d k ↔
      (d ∈ dependencies ∧ key = k) ∨ state.Lists d k := by
  induction dependencies generalizing state with
  | nil => simp
  | cons dependency rest ih =>
    rw [List.foldl_cons, ih, lists_addDependent, List.mem_cons]
    constructor
    · rintro (⟨hmem, hkey⟩ | ⟨rfl, hkey⟩ | hlists)
      · exact .inl ⟨.inr hmem, hkey⟩
      · exact .inl ⟨.inl rfl, hkey⟩
      · exact .inr hlists
    · rintro (⟨rfl | hmem, hkey⟩ | hlists)
      · exact .inr (.inl ⟨rfl, hkey⟩)
      · exact .inl ⟨hmem, hkey⟩
      · exact .inr (.inr hlists)

theorem lists_foldl_removeDependent {key k : Key} {d : QueryDependency Input Key}
    (dependencies : List (QueryDependency Input Key)) :
    (dependencies.foldl (removeDependent key) state).Lists d k ↔
      state.Lists d k ∧ ¬ (d ∈ dependencies ∧ key = k) := by
  induction dependencies generalizing state with
  | nil => simp
  | cons dependency rest ih =>
    rw [List.foldl_cons, ih, lists_removeDependent, List.mem_cons]
    constructor
    · rintro ⟨⟨hlists, hfirst⟩, hrest⟩
      refine ⟨hlists, ?_⟩
      rintro ⟨rfl | hmem, hkey⟩
      · exact hfirst ⟨rfl, hkey⟩
      · exact hrest ⟨hmem, hkey⟩
    · rintro ⟨hlists, hnot⟩
      refine ⟨⟨hlists, ?_⟩, ?_⟩
      · rintro ⟨rfl, hkey⟩
        exact hnot ⟨.inl rfl, hkey⟩
      · rintro ⟨hmem, hkey⟩
        exact hnot ⟨.inr hmem, hkey⟩

@[simp] theorem entries_foldl_addDependent (key : Key)
    (dependencies : List (QueryDependency Input Key)) :
    (dependencies.foldl (addDependent key) state).entries = state.entries := by
  induction dependencies generalizing state with
  | nil => rfl
  | cons dependency rest ih =>
    rw [List.foldl_cons, ih]
    cases dependency <;> rfl

@[simp] theorem entries_foldl_removeDependent (key : Key)
    (dependencies : List (QueryDependency Input Key)) :
    (dependencies.foldl (removeDependent key) state).entries = state.entries := by
  induction dependencies generalizing state with
  | nil => rfl
  | cons dependency rest ih =>
    rw [List.foldl_cons, ih]
    cases dependency <;> rfl

theorem noEmpty_foldl_addDependent (key : Key) (dependencies : List (QueryDependency Input Key))
    (hinputs : state.inputDependents.NoEmpty) (hqueries : state.queryDependents.NoEmpty) :
    (dependencies.foldl (addDependent key) state).inputDependents.NoEmpty ∧
      (dependencies.foldl (addDependent key) state).queryDependents.NoEmpty := by
  induction dependencies generalizing state with
  | nil => exact ⟨hinputs, hqueries⟩
  | cons dependency rest ih =>
    rw [List.foldl_cons]
    cases dependency with
    | input input => exact ih (hinputs.add input key) hqueries
    | query query => exact ih hinputs (hqueries.add query key)

theorem size_entries_removeEntry {key : Key} {rest : CacheState Input Key Value}
    (h : removeEntry key state = some rest) : rest.entries.size + 1 = state.entries.size := by
  unfold removeEntry at h
  split at h
  case h_1 => cases h
  case h_2 entry hentry =>
    cases h
    have hcontains : state.entries.contains key = true := by
      rw [TreeMap.contains_eq_isSome_getElem?, hentry]
      rfl
    rw [entries_foldl_removeDependent, TreeMap.size_erase, if_pos hcontains]
    have hpos : state.entries.size ≠ 0 := by
      intro hzero
      have hempty : state.entries.isEmpty = true := by simp [TreeMap.isEmpty_eq_size_eq_zero, hzero]
      rw [TreeMap.isEmpty_iff_forall_contains] at hempty
      rw [hempty key] at hcontains
      cases hcontains
    omega

/-! ## The walk -/

theorem walk_of_removeEntry {key : Key} {queue : List Key} {visited : TreeSet Key} {removed : ℕ}
    {rest : CacheState Input Key Value} (hkey : key ∉ visited)
    (hrest : removeEntry key { state with queryDependents := state.queryDependents.erase key } =
      some rest) :
    walk state (key :: queue) visited removed =
      walk rest (queue ++ (state.queryDependents.at' key).toList) (visited.insert key)
        (removed + 1) := by
  rw [walk, if_neg fun hmem => hkey (TreeSet.contains_iff_mem.mp hmem)]
  dsimp only
  split
  case h_1 hnone => cases hnone.symm.trans hrest
  case h_2 rest' hrest' =>
    obtain rfl := Option.some.inj (hrest.symm.trans hrest')
    rfl

/-- The walk of an invalidation, begun in a state: the entries of the visited keys are gone, and what
was taken from the indexes is visited or in the queue. -/
structure Walking (start : CacheState Input Key Value) (input : Input)
    (state : CacheState Input Key Value) (queue : List Key) (visited : TreeSet Key) : Prop where
  entries : ∀ key entry, state.entries[key]? = some entry ↔
    start.entries[key]? = some entry ∧ key ∉ visited
  sound : ∀ key, key ∈ visited ∨ key ∈ queue → start.Reaches key input
  roots : ∀ key, start.Depends key (.input input) → key ∈ visited ∨ key ∈ queue
  dependents : ∀ key query, query ∈ visited → start.Depends key (.query query) →
    key ∈ visited ∨ key ∈ queue
  inputs : ∀ other key, state.Lists (.input other) key ↔
    other ≠ input ∧ state.Depends key (.input other)
  queries : ∀ query key, state.Lists (.query query) key ↔
    query ∉ visited ∧ state.Depends key (.query query)

namespace Walking

variable {start : CacheState Input Key Value} {input : Input} {queue : List Key}
  {visited : TreeSet Key} {key : Key}

theorem depends_iff (h : Walking start input state queue visited) {key : Key}
    {dependency : QueryDependency Input Key} :
    state.Depends key dependency ↔ start.Depends key dependency ∧ key ∉ visited := by
  constructor
  · rintro ⟨entry, hentry, hmem⟩
    obtain ⟨hstart, hvisited⟩ := (h.entries key entry).mp hentry
    exact ⟨⟨entry, hstart, hmem⟩, hvisited⟩
  · rintro ⟨⟨entry, hstart, hmem⟩, hvisited⟩
    exact ⟨entry, (h.entries key entry).mpr ⟨hstart, hvisited⟩, hmem⟩

theorem skip (h : Walking start input state (key :: queue) visited) (hkey : key ∈ visited) :
    Walking start input state queue visited := by
  have hshift : ∀ k, k ∈ visited ∨ k ∈ key :: queue → k ∈ visited ∨ k ∈ queue := by
    rintro k (hk | hk)
    · exact .inl hk
    · rcases List.mem_cons.mp hk with rfl | hk
      · exact .inl hkey
      · exact .inr hk
  exact { h with
    sound := fun k hk => h.sound k (hk.imp_right (List.mem_cons_of_mem _))
    roots := fun k hk => hshift k (h.roots k hk)
    dependents := fun k query hquery hk => hshift k (h.dependents k query hquery hk) }

theorem exists_entry_of_reaches {state : CacheState Input Key Value} {key : Key} {input : Input}
    (h : state.Reaches key input) : ∃ entry, state.entries[key]? = some entry := by
  cases h with
  | direct h | through h _ => exact h.imp fun _ h => h.1

/-- **One visit.** -/
theorem visit (h : Walking start input state (key :: queue) visited) (hkey : key ∉ visited) :
    ∃ rest, removeEntry key { state with queryDependents := state.queryDependents.erase key } =
        some rest ∧
      Walking start input rest (queue ++ (state.queryDependents.at' key).toList)
        (visited.insert key) := by
  have hreaches : start.Reaches key input := h.sound key (.inr (List.mem_cons_self ..))
  obtain ⟨entry, hstart⟩ := exists_entry_of_reaches hreaches
  have hentry : state.entries[key]? = some entry := (h.entries key entry).mpr ⟨hstart, hkey⟩
  have hdependents (k) : k ∈ (state.queryDependents.at' key).toList ↔ state.Depends k (.query key) := by
    rw [TreeSet.mem_toList, Index.mem_at']
    have hqueries := h.queries key k
    simp only [hkey, not_false_eq_true, true_and] at hqueries
    exact hqueries
  have hinsert (k) : k ∈ visited.insert key ↔ k = key ∨ k ∈ visited := by
    rw [TreeSet.mem_insert, Std.compare_eq_iff_eq, eq_comm]
  have hshift : ∀ k, k ∈ visited ∨ k ∈ key :: queue →
      k ∈ visited.insert key ∨ k ∈ queue ++ (state.queryDependents.at' key).toList := by
    rintro k (hk | hk)
    · exact .inl ((hinsert k).mpr (.inr hk))
    · rcases List.mem_cons.mp hk with rfl | hk
      · exact .inl ((hinsert k).mpr (.inl rfl))
      · exact .inr (List.mem_append_left _ hk)
  refine ⟨_, by rw [removeEntry, hentry], ?_⟩
  have hrest : ∀ k d, k ≠ key ∧ state.Depends k d ↔
      ∃ e, (state.entries.erase key)[k]? = some e ∧ d ∈ e.dependencies := by
    intro k d
    rw [TreeMap.getElem?_erase]
    by_cases hk : key = k
    · subst hk
      simp
    · rw [if_neg (by simpa using hk)]
      exact and_iff_right (Ne.symm hk)
  have howned : ∀ d, state.Depends key d → d ∈ entry.dependencies := by
    rintro d ⟨e, he, hmem⟩
    obtain rfl := Option.some.inj (hentry.symm.trans he)
    exact hmem
  constructor
  · intro k e
    rw [entries_foldl_removeDependent, TreeMap.getElem?_erase, hinsert]
    by_cases hk : key = k
    · subst hk
      simp
    · rw [if_neg (by simpa using hk), h.entries k e]
      simp [Ne.symm hk]
  · rintro k (hk | hk)
    · rcases (hinsert k).mp hk with rfl | hk
      · exact hreaches
      · exact h.sound k (.inl hk)
    · rcases List.mem_append.mp hk with hk | hk
      · exact h.sound k (.inr (List.mem_cons_of_mem _ hk))
      · exact .through (h.depends_iff.mp ((hdependents k).mp hk)).1 hreaches
  · exact fun k hk => hshift k (h.roots k hk)
  · intro k query hquery hk
    rcases (hinsert query).mp hquery with rfl | hquery
    · by_cases hvisited : k ∈ visited
      · exact hshift k (.inl hvisited)
      · exact .inr (List.mem_append_right _ ((hdependents k).mpr (h.depends_iff.mpr ⟨hk, hvisited⟩)))
    · exact hshift k (h.dependents k query hquery hk)
  · intro other k
    rw [lists_foldl_removeDependent, Depends, entries_foldl_removeDependent, ← hrest]
    have hlists := h.inputs other k
    constructor
    · rintro ⟨hk, hnot⟩
      obtain ⟨hother, hdepends⟩ := hlists.mp hk
      refine ⟨hother, ?_, hdepends⟩
      rintro rfl
      exact hnot ⟨howned _ hdepends, rfl⟩
    · rintro ⟨hother, hk, hdepends⟩
      exact ⟨hlists.mpr ⟨hother, hdepends⟩, fun hnot => hk hnot.2.symm⟩
  · intro query k
    rw [lists_foldl_removeDependent, Depends, entries_foldl_removeDependent, ← hrest, hinsert]
    have hlists := h.queries query k
    constructor
    · rintro ⟨herased, hnot⟩
      obtain ⟨hquery, hk⟩ := Index.lists_erase.mp herased
      obtain ⟨hvisited, hdepends⟩ := hlists.mp hk
      refine ⟨not_or.mpr ⟨Ne.symm hquery, hvisited⟩, ?_, hdepends⟩
      rintro rfl
      exact hnot ⟨howned _ hdepends, rfl⟩
    · rintro ⟨hnot, hk, hdepends⟩
      obtain ⟨hquery, hvisited⟩ := not_or.mp hnot
      exact ⟨Index.lists_erase.mpr ⟨Ne.symm hquery, hlists.mpr ⟨hvisited, hdepends⟩⟩,
        fun hnot => hk hnot.2.symm⟩

/-- **The rest of the walk.** -/
theorem run (h : Walking start input state queue visited) (removed : ℕ) :
    (∃ all, Walking start input (walk state queue visited removed).1 [] all) ∧
      (walk state queue visited removed).2 + (walk state queue visited removed).1.entries.size =
        removed + state.entries.size := by
  induction state, queue, visited, removed using walk.induct with
  | case1 state visited removed =>
    rw [walk]
    exact ⟨⟨visited, h⟩, rfl⟩
  | case2 state visited removed key queue hkey ih =>
    rw [walk, if_pos hkey]
    exact ih (h.skip (TreeSet.contains_iff_mem.mp hkey))
  | case3 state visited removed key queue hkey dependents taken hnone ih =>
    have hkey' : key ∉ visited := fun hmem => hkey (TreeSet.contains_iff_mem.mpr hmem)
    -- A key in the queue has an entry: the input is reached from it.
    obtain ⟨rest, hrest, -⟩ := h.visit hkey'
    rw [hnone] at hrest
    cases hrest
  | case4 state visited removed key queue hkey dependents taken rest hrest ih =>
    have hkey' : key ∉ visited := fun hmem => hkey (TreeSet.contains_iff_mem.mpr hmem)
    obtain ⟨rest', hrest', hwalking⟩ := h.visit hkey'
    obtain rfl := Option.some.inj (hrest.symm.trans hrest')
    obtain ⟨hall, hcount⟩ := ih hwalking
    rw [walk_of_removeEntry hkey' hrest]
    have hsize := size_entries_removeEntry hrest
    exact ⟨hall, by rw [hcount]; simp only [taken] at hsize; omega⟩

theorem visited_iff (h : Walking start input state [] visited) :
    key ∈ visited ↔ start.Reaches key input := by
  constructor
  · exact fun hkey => h.sound key (.inl hkey)
  · intro hreaches
    induction hreaches with
    | direct hdepends => simpa using h.roots _ hdepends
    | through hdepends _ ih => simpa using h.dependents _ _ (ih h) hdepends

end Walking

/-- The walk begins with the keys that the index lists under the input. -/
theorem Consistent.walking (h : state.Consistent) (input : Input) :
    Walking state input { state with inputDependents := state.inputDependents.erase input }
      (state.inputDependents.at' input).toList ∅ := by
  have hroots : ∀ key, key ∈ (state.inputDependents.at' input).toList ↔
      state.Depends key (.input input) := by
    intro key
    rw [TreeSet.mem_toList, Index.mem_at']
    exact h.lists (.input input) key
  constructor
  · simp
  · rintro key (hkey | hkey)
    · simp at hkey
    · exact .direct ((hroots key).mp hkey)
  · exact fun key hkey => .inr ((hroots key).mpr hkey)
  · intro key query hquery
    simp at hquery
  · intro other key
    show Index.Lists _ _ _ ↔ _
    rw [Index.lists_erase, ne_comm]
    exact and_congr_right fun _ => h.lists (.input other) key
  · intro query key
    simp only [TreeSet.not_mem_emptyc, not_false_eq_true, true_and]
    exact h.lists (.query query) key

/-! ## Calls keep the indexes consistent -/

theorem consistent_init : (init : CacheState Input Key Value).Consistent := by
  constructor
  · rintro dependency key
    have hnone : ¬ (init : CacheState Input Key Value).Depends key dependency := by
      rintro ⟨entry, hentry, -⟩
      simp [init] at hentry
    refine iff_of_false ?_ hnone
    cases dependency <;> simp [Lists, init]
  all_goals exact Index.noEmpty_empty

theorem Consistent.get (h : state.Consistent) (key : Key) : (get key state).2.Consistent := by
  unfold CacheState.get
  split <;> exact ⟨h.lists, h.inputs, h.queries⟩

theorem consistent_clear : (clear state).2.Consistent := by
  have hinit : (init : CacheState Input Key Value).Consistent := consistent_init
  exact ⟨hinit.lists, hinit.inputs, hinit.queries⟩

theorem Consistent.insertComputed [DecidableEq Input] [DecidableEq Key] (h : state.Consistent)
    (key : Key) (dependencies : List (QueryDependency Input Key)) (computed : Value) :
    (insertComputed key dependencies computed state).2.Consistent := by
  unfold CacheState.insertComputed
  split
  case h_1 => exact ⟨h.lists, h.inputs, h.queries⟩
  case h_2 hnone =>
    obtain ⟨hinputs, hqueries⟩ := noEmpty_foldl_addDependent key dependencies.dedup h.inputs h.queries
    refine ⟨?_, hinputs, hqueries⟩
    intro d k
    have hlists : (dependencies.dedup.foldl (addDependent key) state).Lists d k ↔ _ :=
      lists_foldl_addDependent dependencies.dedup
    refine hlists.trans ?_
    rw [h.lists d k, Depends, Depends]
    simp only
    rw [TreeMap.getElem?_insert]
    by_cases hk : key = k
    · subst hk
      simp [hnone]
    · rw [if_neg (by simpa using hk)]
      simp [hk]

/-- **What an invalidation does.** -/
theorem Consistent.invalidateInput (h : state.Consistent) (input : Input) :
    (invalidateInput input state).2.Consistent ∧
      (∀ key entry, (invalidateInput input state).2.entries[key]? = some entry ↔
        state.entries[key]? = some entry ∧ ¬ state.Reaches key input) ∧
      (invalidateInput input state).1 + (invalidateInput input state).2.entries.size =
        state.entries.size := by
  obtain ⟨⟨visited, hwalking⟩, hcount⟩ := (h.walking input).run 0
  have hentries := fun key entry => hwalking.entries key entry
  simp only [hwalking.visited_iff] at hentries
  rw [Nat.zero_add] at hcount
  refine ⟨⟨?_, Index.noEmpty_prune, Index.noEmpty_prune⟩, hentries, hcount⟩
  rintro (other | query) key
  · refine Index.lists_prune.trans ((hwalking.inputs other key).trans ?_)
    rw [and_iff_right_of_imp]
    · rfl
    · rintro hdepends rfl
      obtain ⟨hstart, hvisited⟩ := hwalking.depends_iff.mp hdepends
      exact hvisited (hwalking.visited_iff.mpr (.direct hstart))
  · refine Index.lists_prune.trans ((hwalking.queries query key).trans ?_)
    rw [and_iff_right_of_imp]
    · rfl
    · intro hdepends hquery
      obtain ⟨hstart, hvisited⟩ := hwalking.depends_iff.mp hdepends
      exact hvisited (hwalking.visited_iff.mpr (.through hstart (hwalking.visited_iff.mp hquery)))

/-! ## Sequences of calls -/

/-- Calls lead from one state to another. The computation of a call of `get_or_compute` makes calls
itself, and so do other threads while it runs. -/
inductive Leads [DecidableEq Input] [DecidableEq Key] :
    CacheState Input Key Value → CacheState Input Key Value → Prop
  | refl (state : CacheState Input Key Value) : Leads state state
  | get {state state' : CacheState Input Key Value} (key : Key) :
      Leads state state' → Leads state (get key state').2
  | getOrCompute {state state' : CacheState Input Key Value} (key : Key)
      (dependencies : List (QueryDependency Input Key))
      (compute : CacheState Input Key Value → Value × CacheState Input Key Value) :
      Leads state state' → Leads (CacheState.get key state').2 (compute (CacheState.get key state').2).2 →
      Leads state (getOrCompute key dependencies compute state').2
  | invalidateInput {state state' : CacheState Input Key Value} (input : Input) :
      Leads state state' → Leads state (invalidateInput input state').2
  | clear {state state' : CacheState Input Key Value} : Leads state state' → Leads state (clear state').2

theorem Leads.consistent [DecidableEq Input] [DecidableEq Key] {state' : CacheState Input Key Value}
    (h : Leads state state') : state.Consistent → state'.Consistent := by
  induction h with
  | refl => exact id
  | get key _ ih => exact fun hstate => (ih hstate).get key
  | getOrCompute key dependencies compute _ _ ih ihcompute =>
    intro hstate
    have hlooked := (ih hstate).get key
    have hcomputed := ihcompute hlooked
    unfold CacheState.getOrCompute
    split
    case h_1 value state' hget =>
      rw [hget] at hlooked
      exact hlooked
    case h_2 state' hget =>
      rw [hget] at hcomputed
      exact hcomputed.insertComputed key dependencies _
  | invalidateInput input _ ih => exact fun hstate => ((ih hstate).invalidateInput input).1
  | clear _ _ => exact fun _ => consistent_clear

/-- **Invalidation is exact.** After every sequence of calls the indexes list exactly the dependencies
of the entries, and the invalidation of an input removes exactly the entries from which it is
reached. -/
theorem invalidateInput_exact [DecidableEq Input] [DecidableEq Key] (h : Leads init state)
    (input : Input) :
    state.Consistent ∧
      (∀ key entry, (invalidateInput input state).2.entries[key]? = some entry ↔
        state.entries[key]? = some entry ∧ ¬ state.Reaches key input) ∧
      (invalidateInput input state).1 + (invalidateInput input state).2.entries.size =
        state.entries.size := by
  have hconsistent := h.consistent consistent_init
  obtain ⟨-, hentries, hcount⟩ := hconsistent.invalidateInput input
  exact ⟨hconsistent, hentries, hcount⟩

/-- Two queries that depend on each other, one of them also on an input, and one that depends on a
query without an entry. -/
def cyclicCache : CacheState String ℕ ℕ :=
  (getOrCompute 3 [.query 4] (fun state => (30, state))
    (getOrCompute 2 [.query 1, .input "a"] (fun state => (20, state))
      (getOrCompute 1 [.query 2] (fun state => (10, state)) init).2).2).2

theorem cyclicCache_invalidateInput_exact :
    cyclicCache.Consistent ∧
      (∀ key entry, (invalidateInput "a" cyclicCache).2.entries[key]? = some entry ↔
        cyclicCache.entries[key]? = some entry ∧ ¬ cyclicCache.Reaches key "a") ∧
      (invalidateInput "a" cyclicCache).1 + (invalidateInput "a" cyclicCache).2.entries.size =
        cyclicCache.entries.size := by
  refine invalidateInput_exact ?_ "a"
  refine .getOrCompute 3 [.query 4] _ (.getOrCompute 2 [.query 1, .input "a"] _
    (.getOrCompute 1 [.query 2] _ (.refl init) ?_) ?_) ?_
  all_goals exact .refl _

end CacheState

end Nomo.Incremental
