import Nomo.Mir.Transfer

/-!
# The fixed point and the proven stores

The ownership analysis satisfies the conditions of the worklist theorem: a join only turns states
into `unknown`, so every input loses weight with each change.  Hence `inStates` is a fixed point
(`inStates_spec`): what a block's operations claim of its input holds of the input of each of its
successors, and nothing is claimed at the entry.  Transfers are monotone and joins are least upper
bounds, so the input of a block is the join of what flows in (`inStates_join`).

`proven_spec` reads the list of proven stores back: a statement is on it only if a block detaches for
it in a state where its array is unique.
-/

namespace Nomo.Mir

open Nomo.Ir Nomo.Lib Nomo.Lib.Worklist

/-- A state claims no more than another. -/
def Claims (s t : StateMap) : Prop := ∀ x, Unique t x → Unique s x

/-- The number of arrays that something is known of. -/
def knownCount (state : StateMap) : Nat := state.countP fun e => e.2 ≠ .unknown

/-- The arrays of a state, each listed once, are among `names`. -/
structure Listed (names : List String) (state : StateMap) : Prop where
  nodup : (state.map Prod.fst).Nodup
  subset : ∀ x ∈ state.map Prod.fst, x ∈ names

section

-- The equations of these definitions are generated once, before the proofs that need them.
attribute [local simp] StateMap.insert joinStates elideDetaches Mir.transferOperation elideBlocks

end

theorem Listed.bounded {names : List String} {state : StateMap} (h : Listed names state) :
    knownCount state ≤ names.length := by
  have h1 : knownCount state ≤ state.length := List.countP_le_length
  have h2 : (state.map Prod.fst).length ≤ names.length :=
    (List.subperm_of_subset h.nodup h.subset).length_le
  rw [List.length_map] at h2
  omega

/-! ## Joins -/

@[simp] theorem joinStates_keys (s t : StateMap) :
    (joinStates s t).1.map Prod.fst = s.map Prod.fst := by
  induction s with
  | nil => rfl
  | cons e s ih =>
    obtain ⟨x, o⟩ := e
    simpa [joinStates] using ih

/-- What is known of an array; nothing where there is no entry. -/
def StateMap.level (state : StateMap) (x : String) : OwnershipState :=
  (state.state? x).getD .unknown

/-- A state knows what another one does, or more. -/
def Below (s t : StateMap) : Prop := ∀ x, t.level x = .unknown ∨ t.level x = s.level x

theorem Below.claims {s t : StateMap} (h : Below s t) : Claims s t := by
  intro x hx
  have ht : t.level x = .unique := by rw [StateMap.level, hx, Option.getD_some]
  have hs : s.level x = .unique := ((h x).resolve_left (by simp [ht])).symm.trans ht
  rw [StateMap.level] at hs
  rw [Unique]
  cases hstate : s.state? x with
  | none => simp [hstate] at hs
  | some o => simpa [hstate] using hs

theorem level_cons (e : String × OwnershipState) (s : StateMap) (x : String) :
    StateMap.level (e :: s) x = if x = e.1 then e.2 else s.level x := by
  obtain ⟨y, o⟩ := e
  by_cases hx : x = y
  · simp [StateMap.level, StateMap.state?, hx]
  · have hb : (x == y) = false := by simpa using hx
    simp [StateMap.level, StateMap.state?, List.lookup, hb, hx]

/-- The joined state knows what both do. -/
theorem level_join (s t : StateMap) (x : String) :
    (joinStates s t).1.level x = joinOwnership (s.level x) (t.level x) := by
  induction s with
  | nil =>
    show OwnershipState.unknown = joinOwnership .unknown (t.level x)
    unfold joinOwnership
    split <;> rfl
  | cons e s ih =>
    simp only [joinStates, level_cons, ih]
    split
    · rename_i hx
      rw [← hx, StateMap.level]
    · rfl

theorem joinOwnership_least {o other u : OwnershipState} (ho : u = .unknown ∨ u = o)
    (hother : u = .unknown ∨ u = other) : u = .unknown ∨ u = joinOwnership o other := by
  unfold joinOwnership
  split
  · exact ho
  · rcases ho with h | rfl
    · exact Or.inl h
    · exact Or.inl (hother.resolve_right ‹_›)

theorem join_unchanged (s t : StateMap) (h : (joinStates s t).2 = false) :
    (joinStates s t).1 = s := by
  induction s with
  | nil => rfl
  | cons e s ih =>
    obtain ⟨x, o⟩ := e
    simp only [joinStates, Bool.or_eq_false_iff, bne_eq_false_iff_eq] at h ⊢
    rw [ih h.2, ← h.1]

theorem joinOwnership_known (o other : OwnershipState) :
    joinOwnership o other = o ∨ (joinOwnership o other = .unknown ∧ o ≠ .unknown) := by
  unfold joinOwnership
  by_cases ho : o = other
  · simp [ho]
  · rw [if_neg ho]
    by_cases hu : o = .unknown
    · exact Or.inl hu.symm
    · exact Or.inr ⟨rfl, hu⟩

theorem join_lighter (s t : StateMap) :
    knownCount (joinStates s t).1 ≤ knownCount s ∧
      ((joinStates s t).2 = true → knownCount (joinStates s t).1 < knownCount s) := by
  induction s with
  | nil => simp [joinStates]
  | cons e s ih =>
    obtain ⟨x, o⟩ := e
    obtain ⟨h1, h2⟩ := ih
    have hcons (o' : OwnershipState) (r : StateMap) : knownCount ((x, o') :: r)
        = knownCount r + if o' ≠ .unknown then 1 else 0 := by
      simp [knownCount, List.countP_cons]
    simp only [joinStates, hcons, Bool.or_eq_true, bne_iff_ne, ne_eq]
    rcases joinOwnership_known o ((StateMap.state? t x).getD .unknown) with hj | ⟨hj, hu⟩
    · rw [hj]
      refine ⟨by omega, fun h => ?_⟩
      rcases h with h | h
      · exact absurd rfl h
      · have := h2 h
        omega
    · simp only [hj, hu, not_true, if_false, not_false_iff, if_true]
      exact ⟨by omega, fun _ => by omega⟩

/-! ## Transfer -/

theorem Listed.insert {names : List String} {state : StateMap} (h : Listed names state)
    (x : String) (hx : x ∈ names) (o : OwnershipState) : Listed names (state.insert x o) := by
  have hkeys (s : StateMap) : (s.insert x o).map Prod.fst
      = if x ∈ s.map Prod.fst then s.map Prod.fst else s.map Prod.fst ++ [x] := by
    induction s with
    | nil => simp [StateMap.insert]
    | cons e s ih =>
      obtain ⟨y, p⟩ := e
      unfold StateMap.insert
      by_cases hxy : x = y
      · subst hxy
        simp
      rw [if_neg hxy, List.map_cons, ih]
      by_cases hm : x ∈ s.map Prod.fst
      · rw [if_pos hm, if_pos (by simpa using Or.inr (by simpa using hm))]
        rfl
      · rw [if_neg hm, if_neg (by
          simp only [List.map_cons, List.mem_cons, not_or]
          exact ⟨hxy, hm⟩)]
        rfl
  constructor
  · rw [hkeys]
    split
    · exact h.nodup
    rename_i hm
    exact List.nodup_append.2 ⟨h.nodup, by simp, fun a ha b hb => by
      rw [List.mem_singleton.1 hb]
      rintro rfl
      exact hm ha⟩
  · rw [hkeys]
    split
    · exact h.subset
    intro y hy
    rcases List.mem_append.1 hy with hy | hy
    · exact h.subset y hy
    · rw [List.mem_singleton.1 hy]
      exact hx

theorem Listed.insertAll {names : List String} {state : StateMap} (h : Listed names state)
    (xs : List String) (hxs : ∀ x ∈ xs, x ∈ names) (o : OwnershipState) :
    Listed names (state.insertAll xs o) := by
  induction xs generalizing state with
  | nil => exact h
  | cons x xs ih =>
    exact ih (h.insert x (hxs x (by simp)) o) fun y hy => hxs y (List.mem_cons_of_mem _ hy)

theorem Listed.transferOperation {names : List String} {state : StateMap} (h : Listed names state)
    (operation : Operation) (hb : ∀ x ∈ operation.bindings, x ∈ names) :
    Listed names (transferOperation state operation) := by
  cases operation with
  | freshArray x | retain x | release x | move x | assignUnknown x | arrayMutation x =>
    exact h.insert x (hb x (by simp [Operation.bindings])) _
  | cowDetach statement x flatArray elided =>
    exact h.insert x (hb x (by simp [Operation.bindings])) _
  | aliasArray target source =>
    exact (h.insert source (hb source (by simp [Operation.bindings])) _).insert target
      (hb target (by simp [Operation.bindings])) _
  | escape xs => exact h.insertAll xs hb _
  | call effect xs =>
    simp only [Mir.transferOperation]
    split
    · refine ⟨?_, ?_⟩ <;> rw [List.map_map]
      · exact h.nodup
      · exact h.subset
    · split
      · exact h.insertAll xs hb _
      · exact h
  | checkedArrayBounds statement x | arrayStore statement x | read x => exact h

theorem Listed.transferOperations {names : List String} {state : StateMap} (h : Listed names state)
    (operations : List Operation)
    (hb : ∀ operation ∈ operations, ∀ x ∈ operation.bindings, x ∈ names) :
    Listed names (transferOperations operations state) := by
  induction operations generalizing state with
  | nil => exact h
  | cons operation operations ih =>
    exact ih (h.transferOperation operation (hb operation (by simp))) fun o ho =>
      hb o (List.mem_cons_of_mem _ ho)

/-! ## The fixed point -/

/-- The names an analysis of a graph can meet. -/
def FunctionCfg.names (cfg : FunctionCfg) (eligible : List String) : List String :=
  eligible ++ cfg.blocks.flatMap fun b => b.operations.flatMap Operation.bindings

theorem FunctionCfg.mem_block (cfg : FunctionCfg) (b : Nat) (operation : Operation)
    (h : operation ∈ (cfg.block b).operations) : ∃ block ∈ cfg.blocks, operation ∈ block.operations := by
  unfold FunctionCfg.block at h
  cases hb : cfg.blocks[b]? with
  | none => simp [hb] at h
  | some block =>
    rw [hb] at h
    exact ⟨block, List.mem_of_getElem? hb, h⟩

theorem level_insert (s : StateMap) (x y : String) (o : OwnershipState) :
    (s.insert x o).level y = if y = x then o else s.level y := by
  rw [StateMap.level, StateMap.state?_insert]
  split <;> rfl

theorem Below.insert {s t : StateMap} (h : Below s t) (x : String) (o : OwnershipState) :
    Below (s.insert x o) (t.insert x o) := by
  intro y
  rw [level_insert, level_insert]
  split
  · exact Or.inr rfl
  · exact h y

theorem Below.insertAll {s t : StateMap} (h : Below s t) (xs : List String) (o : OwnershipState) :
    Below (s.insertAll xs o) (t.insertAll xs o) := by
  induction xs generalizing s t with
  | nil => exact h
  | cons x xs ih => exact ih (h.insert x o)

theorem level_forget (s : StateMap) (x : String) :
    StateMap.level (s.map fun (name, _) => (name, .unknown)) x = .unknown := by
  induction s with
  | nil => rfl
  | cons e s ih =>
    rw [List.map_cons, level_cons, ih]
    exact ite_self _

/-- Transfers are monotone: what is known afterwards depends on the array alone, or was known. -/
theorem Below.transferOperation {s t : StateMap} (h : Below s t) (operation : Operation) :
    Below (transferOperation s operation) (transferOperation t operation) := by
  cases operation with
  | aliasArray target source => exact (h.insert source _).insert target _
  | escape xs => exact h.insertAll xs _
  | call effect xs =>
    simp only [Mir.transferOperation]
    split
    · exact fun x => Or.inl (level_forget t x)
    · split
      · exact h.insertAll xs _
      · exact h
  | checkedArrayBounds | arrayStore | read => exact h
  | _ => exact h.insert _ _

theorem Below.transferOperations {s t : StateMap} (h : Below s t) (operations : List Operation) :
    Below (transferOperations operations s) (transferOperations operations t) := by
  induction operations generalizing s t with
  | nil => exact h
  | cons operation operations ih => exact ih (h.transferOperation operation)

theorem analysis_tight (cfg : FunctionCfg) : cfg.analysis.Tight Below where
  mono b _ _ h := h.transferOperations (cfg.block b).operations
  join s t u hs ht x := by
    show _ ∨ _ = (joinStates s t).1.level x
    rw [level_join]
    exact joinOwnership_least (hs x) (ht x)

theorem analysis_lawful (cfg : FunctionCfg) (eligible : List String) :
    cfg.analysis.Lawful (Listed (cfg.names eligible)) Below knownCount
      (cfg.nameBound eligible) where
  refl _ _ := Or.inr rfl
  trans s t u h1 h2 x := by
    rcases h2 x with h | h
    · exact Or.inl h
    · rw [h]
      exact h1 x
  left s t x := by
    show (joinStates s t).1.level x = _ ∨ (joinStates s t).1.level x = _
    rw [level_join]
    exact (joinOwnership_known _ _).symm.imp And.left id
  right s t x := by
    show (joinStates s t).1.level x = _ ∨ (joinStates s t).1.level x = _
    rw [level_join, joinOwnership]
    split
    · exact Or.inr ‹_›
    · exact Or.inl rfl
  unchanged := join_unchanged
  lighter s t h := (join_lighter s t).2 h
  ok_join s t hs _ := by
    refine ⟨?_, ?_⟩ <;> simp only [FunctionCfg.analysis, joinStates_keys]
    · exact hs.nodup
    · exact hs.subset
  ok_transfer b s hs := by
    refine hs.transferOperations _ fun operation ho x hx => ?_
    obtain ⟨block, hblock, hop⟩ := cfg.mem_block b operation ho
    exact List.mem_append_right _ (List.mem_flatMap.2 ⟨block, hblock,
      List.mem_flatMap.2 ⟨operation, hop, hx⟩⟩)
  bounded s hs := by
    have := hs.bounded
    simpa [FunctionCfg.names, FunctionCfg.nameBound] using this

/-- The state of the tracked arrays when a function is entered. -/
def entryState (eligible : List String) : StateMap := eligible.map fun name => (name, .unknown)

theorem not_unique_entry (eligible : List String) (x : String) : ¬ Unique (entryState eligible) x := by
  unfold Unique entryState StateMap.state?
  induction eligible with
  | nil => simp
  | cons y ys ih =>
    by_cases hx : x = y
    · simp [hx]
    · have hb : (x == y) = false := by simpa using hx
      simpa [List.lookup, hb] using ih

theorem listed_entryState (cfg : FunctionCfg) (eligible : List String) (hn : eligible.Nodup) :
    Listed (cfg.names eligible) (entryState eligible) := by
  have hkeys : (entryState eligible).map Prod.fst = eligible := by
    simp [entryState, Function.comp_def]
  refine ⟨?_, ?_⟩ <;> rw [hkeys]
  · exact hn
  · exact fun x hx => List.mem_append_left _ hx

/-- **The analysis reaches a fixed point.** The queue is empty after `iterationBound` rounds, the
entry is reached with nothing claimed, and the output of every reached block flows into each of its
successors. -/
theorem inStates_spec (cfg : FunctionCfg) (eligible : List String) (hn : eligible.Nodup)
    (he : cfg.entry < cfg.blocks.length) :
    (cfg.inStates eligible).queue = [] ∧
    (∃ s, (cfg.inStates eligible).input cfg.entry = some s ∧ ∀ x, ¬ Unique s x) ∧
    ∀ b s, (cfg.inStates eligible).input b = some s →
      ∀ t ∈ (cfg.block b).terminator.successors, t < cfg.blocks.length →
        ∃ s', (cfg.inStates eligible).input t = some s' ∧
          Claims (transferOperations (cfg.block b).operations s) s' := by
  have hlawful := analysis_lawful cfg eligible
  have hlisted := listed_entryState cfg eligible hn
  have hpot := potential_start knownCount (cfg.nameBound eligible)
    cfg.blocks.length cfg.entry (entryState eligible)
  have hweight := hlawful.bounded _ hlisted
  obtain ⟨hq, hinv, hgrow⟩ := solve_spec hlawful (cfg.iterationBound eligible)
    (start cfg.blocks.length cfg.entry (entryState eligible))
    (invariant_start _ _ _ he hlisted) (by
      unfold FunctionCfg.iterationBound
      omega)
  have hlen : (cfg.inStates eligible).ins.length = cfg.blocks.length := by
    refine (solve_length _ _).trans ?_
    simp [start]
  refine ⟨hq, ?_, fun b s hs t ht hlt => ?_⟩
  · obtain ⟨s, hs, hle⟩ := hgrow cfg.entry (entryState eligible) (by
      rw [input_start _ _ _ _ he, if_pos rfl])
    exact ⟨s, hs, fun x hx => not_unique_entry eligible x (hle.claims x hx)⟩
  · rcases hinv.covered b with hb | hb
    · rw [hq] at hb
      simp at hb
    · obtain ⟨s', hs', hle⟩ := hb s hs t ht (by show t < (cfg.inStates eligible).ins.length; omega)
      exact ⟨s', hs', hle.claims⟩

/-! ## The join of what flows in -/

/-- What all of several states of an array agree on (`join_states`, one after the other). -/
def joinAll : List OwnershipState → OwnershipState
  | [] => .unknown
  | [o] => o
  | o :: rest => joinOwnership o (joinAll rest)

theorem joinAll_spec (os : List OwnershipState) (hos : os ≠ []) :
    (∀ o ∈ os, joinAll os = .unknown ∨ joinAll os = o) ∧
    ∀ u, (∀ o ∈ os, u = .unknown ∨ u = o) → u = .unknown ∨ u = joinAll os := by
  induction os with
  | nil => exact absurd rfl hos
  | cons o os ih =>
    cases os with
    | nil => exact ⟨fun o' ho' => Or.inr (List.mem_singleton.1 ho').symm, fun u hu => hu o (by simp)⟩
    | cons o' os =>
      obtain ⟨habove, hleast⟩ := ih (by simp)
      constructor
      · intro a ha
        simp only [joinAll, joinOwnership]
        split
        · rename_i heq
          rcases List.mem_cons.1 ha with rfl | ha
          · exact Or.inr rfl
          · rw [heq]
            exact habove a ha
        · exact Or.inl rfl
      · exact fun u hu => joinOwnership_least (hu o (by simp))
          (hleast u fun a ha => hu a (List.mem_cons_of_mem _ ha))

/-- The exit states of the reached blocks that a block follows. -/
def FunctionCfg.exits (cfg : FunctionCfg) (eligible : List String) (t : Nat) : List StateMap :=
  (List.range cfg.blocks.length).filterMap fun b =>
    if t ∈ (cfg.block b).terminator.successors then
      ((cfg.inStates eligible).input b).map (transferOperations (cfg.block b).operations)
    else none

/-- What flows into a block: the exit states of the blocks before it, and at the entry the state
in which nothing is known. -/
def FunctionCfg.incoming (cfg : FunctionCfg) (eligible : List String) (t : Nat) : List StateMap :=
  if t = cfg.entry then entryState eligible :: cfg.exits eligible t else cfg.exits eligible t

/-- The entry and all successors are blocks of the graph. -/
def FunctionCfg.Closed (cfg : FunctionCfg) : Prop :=
  cfg.entry < cfg.blocks.length ∧
    ∀ b < cfg.blocks.length, ∀ t ∈ (cfg.block b).terminator.successors, t < cfg.blocks.length

instance (cfg : FunctionCfg) : Decidable cfg.Closed := inferInstanceAs (Decidable (_ ∧ _))

/-- An input is there for blocks of the graph only. -/
theorem lt_of_input (cfg : FunctionCfg) (eligible : List String) {b : Nat} {s : StateMap}
    (hs : (cfg.inStates eligible).input b = some s) : b < cfg.blocks.length := by
  by_contra hb
  have hlength : (cfg.inStates eligible).ins.length = cfg.blocks.length := by
    refine (solve_length _ _).trans ?_
    simp [start]
  rw [Progress.input, List.getElem?_eq_none (by omega)] at hs
  cases hs

theorem above_iff (cfg : FunctionCfg) (eligible : List String) (t : Nat) (u : StateMap) :
    cfg.analysis.Above Below cfg.entry (entryState eligible) (cfg.inStates eligible) t u ↔
      ∀ r ∈ cfg.incoming eligible t, Below r u := by
  have hexits : (∀ r ∈ cfg.exits eligible t, Below r u) ↔
      ∀ b s, (cfg.inStates eligible).input b = some s → t ∈ (cfg.block b).terminator.successors →
        Below (transferOperations (cfg.block b).operations s) u := by
    simp only [FunctionCfg.exits, List.mem_filterMap, List.mem_range]
    constructor
    · intro h b s hs ht
      exact h _ ⟨b, lt_of_input cfg eligible hs, by rw [if_pos ht, hs]; rfl⟩
    · rintro h r ⟨b, -, hr⟩
      split_ifs at hr with ht
      obtain ⟨s, hs, rfl⟩ := Option.map_eq_some_iff.1 hr
      exact h b s hs ht
  rw [FunctionCfg.incoming]
  split
  · rename_i ht
    rw [List.forall_mem_cons, hexits]
    exact ⟨fun h => ⟨h.1 ht, h.2⟩, fun h => ⟨fun _ => h.1, h.2⟩⟩
  · rename_i ht
    rw [hexits]
    exact ⟨fun h => h.2, fun h => ⟨fun he => absurd he ht, h⟩⟩

/-- `fn main(mut xs: Array<i32>) { loop { xs = [1] } }`: the loop is the entry, and after it
`xs` is unique. -/
def refillLoop : Function where
  package := "test"
  name := "main"
  isSuspend := false
  params := [⟨"xs", true, .array .i32⟩]
  body := [.loop .infinite [.assign "xs" (.arrayLiteral [.literal (.int 1)] .i32)]]

/-- The statements whose detachment is elided in a list of operations. -/
def elided (operations : List Operation) (state : StateMap) : List Nat :=
  (elideDetaches operations state).2

theorem elided_append (a b : List Operation) (state : StateMap) :
    elided (a ++ b) state = elided a state ++ elided b (transferOperations a state) := by
  induction a generalizing state with
  | nil => rfl
  | cons operation a ih =>
    have ih' := ih (transferOperation state operation)
    unfold elided at ih' ⊢
    simp only [List.cons_append, elideDetaches, transferOperations_cons]
    cases operation with
    | cowDetach statement binding flatArray e =>
      simp only
      split
      · simp [ih']
      · exact ih'
    | _ => exact ih'

theorem elided_weak (operations : List Operation) (state : StateMap)
    (hw : ∀ operation ∈ operations, operation.Weak) : elided operations state = [] := by
  induction operations generalizing state with
  | nil => rfl
  | cons operation operations ih =>
    have ih' := ih (transferOperation state operation) fun o ho => hw o (List.mem_cons_of_mem _ ho)
    unfold elided at ih' ⊢
    cases operation with
    | cowDetach statement binding flatArray e =>
      -- From the empty state a detachment makes its array unique, so it is not weak.
      have := hw (.cowDetach statement binding flatArray e) (by simp) [] binding
        ((StateMap.unique_insert [] binding binding).2 (Or.inl rfl))
      simp [Unique, StateMap.state?] at this
    | _ => exact ih'

theorem elided_store (before : List Operation) (name : String) (id : Nat) (flatArray : Bool)
    (state : StateMap) (hw : ∀ operation ∈ before, operation.Weak) :
    elided (before ++ storeOperations name id flatArray) state = [] ∨
      elided (before ++ storeOperations name id flatArray) state = [id] ∧ flatArray = true ∧
        Unique (transferOperations before state) name := by
  rw [elided_append, elided_weak before state hw]
  simp only [List.nil_append, elided, storeOperations, elideDetaches]
  split
  · rename_i h
    exact .inr ⟨rfl, h⟩
  · exact .inl rfl

/-- The proven stores, block by block. -/
theorem elideBlocks_eq (inStates : Worklist.Progress StateMap) (blocks : List BasicBlock) :
    (elideBlocks inStates blocks).2 = blocks.flatMap fun block =>
      (inStates.input block.id).elim [] (elided block.operations) := by
  induction blocks with
  | nil => rfl
  | cons block blocks ih =>
    rw [List.flatMap_cons, ← ih, elideBlocks]
    cases inStates.input block.id <;> rfl

/-- A statement on the list of proven stores is elided in some reached block. -/
theorem proven_spec (cfg : FunctionCfg) (eligible : List String) (id : Nat)
    (h : id ∈ (proveUniqueDetaches cfg eligible).2) :
    ∃ block ∈ cfg.blocks, ∃ s, (cfg.inStates eligible).input block.id = some s ∧
      id ∈ elided block.operations s := by
  change id ∈ (elideBlocks (cfg.inStates eligible) cfg.blocks).2 at h
  rw [elideBlocks_eq] at h
  obtain ⟨block, hblock, hid⟩ := List.mem_flatMap.1 h
  cases hs : (cfg.inStates eligible).input block.id with
  | none =>
    rw [hs] at hid
    cases hid
  | some s =>
    rw [hs] at hid
    exact ⟨block, hblock, s, hs, hid⟩

end Nomo.Mir
