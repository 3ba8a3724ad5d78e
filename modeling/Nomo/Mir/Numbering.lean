import Nomo.Mir.Soundness

/-!
# One numbering for every traversal

The optimiser walks the statements of a function three times: `assign_statement_ids` numbers them by
path, `CfgBuilder` looks the numbers up while it lays out blocks, and `annotate_body` counts along
while it marks stores (`nomo_mir/src/lib.rs:792–836, 889–1027, 1692–1757`).  `visits` lists the
statements as `statement_bodies` leads through them; each walk is described in terms of this list, so
that a proven number means the same statement everywhere.

The walks disagree in one place only.  The block of `let xs = xs.set(..)` detaches like the one of an
assignment, but `annotate_body` marks assignments alone: such a store is reported and stays checked.
-/

namespace Nomo.Mir

open Nomo.Ir

/-! ## The visited statements -/

mutual

/-- The statements of a body with their paths, each before the statements in it. -/
def visits : List Statement → StatementPath → Nat → List (StatementPath × Statement)
  | [], _, _ => []
  | s :: rest, pathTo, index =>
    (pathTo ++ [.statement index], s) ::
      (visitBranches (branches s) (pathTo ++ [.statement index]) 0 ++ visits rest pathTo (index + 1))
termination_by body => (bodyCount body, 0)
decreasing_by all_goals simp only [bodyCount, statementCount_eq, Prod.lex_def]; omega

/-- `visits` over the bodies of a statement. -/
def visitBranches : List (List Statement) → StatementPath → Nat → List (StatementPath × Statement)
  | [], _, _ => []
  | body :: rest, path, branch =>
    visits body (path ++ [.branch branch]) 0 ++ visitBranches rest path (branch + 1)
termination_by bodies => (branchesCount bodies, bodies.length + 1)
decreasing_by
  all_goals simp only [branchesCount, List.map_cons, List.sum_cons, List.length_cons, Prod.lex_def]; omega

end

theorem length_visits : (∀ body pathTo index, (visits body pathTo index).length = bodyCount body) ∧
    ∀ bodies path branch, (visitBranches bodies path branch).length = branchesCount bodies := by
  refine traverse_induct (fun _ _ => by simp [visits, bodyCount])
    (fun s rest hs hrest pathTo index => ?_) (fun _ _ => by simp [visitBranches, branchesCount])
    fun body rest hbody hrest path branch => ?_
  · simp only [visits, List.length_cons, List.length_append, hs, hrest, bodyCount, statementCount_eq]
    omega
  · simp [visitBranches, hbody, hrest, branchesCount]

/-- Enter the next number for a statement. -/
def Sites.enter (sites : Sites) (visit : StatementPath × Statement) : Sites :=
  { next := sites.next + 1, entries := (visit.1, sites.next) :: sites.entries }

theorem assign_eq : (∀ body pathTo index sites, assignStatementIds body pathTo index sites
      = (visits body pathTo index).foldl Sites.enter sites) ∧
    ∀ bodies path branch sites, assignBranches bodies path branch sites
      = (visitBranches bodies path branch).foldl Sites.enter sites := by
  refine traverse_induct (fun _ _ _ => by rw [visits]; rfl)
    (fun s rest hs hrest pathTo index sites => ?_) (fun _ _ _ => by rw [visitBranches]; rfl)
    fun body rest hbody hrest path branch sites => ?_
  · rw [assignStatementIds, assignChildIds_eq, hs, hrest, visits, List.foldl_cons, List.foldl_append]
    rfl
  · rw [assignBranches, hbody, hrest, visitBranches, List.foldl_append]

theorem entries_enter (vs : List (StatementPath × Statement)) (sites : Sites) :
    (vs.foldl Sites.enter sites).entries.reverse
      = sites.entries.reverse ++ (vs.zipIdx sites.next).map fun v => (v.1.1, v.2) := by
  induction vs generalizing sites with
  | nil => simp
  | cons v vs ih => simp [ih, Sites.enter]

theorem visits_annotate (proven : List Nat) :
    (∀ body pathTo index next, visits (annotateBody proven body next).1 pathTo index
      = ((visits body pathTo index).zipIdx next).map fun v =>
          (v.1.1, annotateStatement proven v.1.2 v.2)) ∧
    ∀ bodies path branch next, visitBranches (annotateBranches proven bodies next) path branch
      = ((visitBranches bodies path branch).zipIdx next).map fun v =>
          (v.1.1, annotateStatement proven v.1.2 v.2) := by
  refine traverse_induct (fun _ _ _ => by simp [annotateBody, visits])
    (fun s rest hs hrest pathTo index next => ?_)
    (fun _ _ _ => by simp [annotateBranches, visitBranches])
    fun body rest hbody hrest path branch next => ?_
  · rw [annotateBody_cons, visits, visits, branches_annotate, hs, hrest, statementCount_eq]
    simp [List.zipIdx_append, length_visits, Nat.add_assoc]
  · rw [annotateBranches, visitBranches, visitBranches, hbody, hrest]
    simp [List.zipIdx_append, length_visits]

theorem visits_reset :
    (∀ body pathTo index, visits (resetBody body) pathTo index
      = (visits body pathTo index).map fun v => (v.1, resetStatement v.2)) ∧
    ∀ bodies path branch, visitBranches (bodies.map resetBody) path branch
      = (visitBranches bodies path branch).map fun v => (v.1, resetStatement v.2) := by
  refine traverse_induct (fun _ _ => by simp [resetBody, visits])
    (fun s rest hs hrest pathTo index => ?_) (fun _ _ => by simp [visitBranches])
    fun body rest hbody hrest path branch => ?_
  · simp [resetBody, visits, branches_reset, hs, hrest]
  · simp [visitBranches, hbody, hrest]

/-! ## The blocks -/

/-- The operations of the block of a visited statement. -/
def blockOperations (eligible : List String) (v : (StatementPath × Statement) × Nat) :
    List Operation :=
  (statementOperations eligible v.1.2 v.2).1

/-- One block for each of the given statements was added, in some order. -/
def Adds (eligible : List String) (builder builder' : CfgBuilder)
    (vs : List ((StatementPath × Statement) × Nat)) : Prop :=
  ∃ ws, List.Perm ws vs ∧ builder'.blocks.map BasicBlock.operations
    = builder.blocks.map BasicBlock.operations ++ ws.map (blockOperations eligible)

theorem Adds.trans {eligible : List String} {A B C : CfgBuilder}
    {vs vs' : List ((StatementPath × Statement) × Nat)} (h : Adds eligible A B vs)
    (h' : Adds eligible B C vs') : Adds eligible A C (vs ++ vs') := by
  obtain ⟨ws, hws, hB⟩ := h
  obtain ⟨ws', hws', hC⟩ := h'
  exact ⟨ws ++ ws', hws.append hws', by rw [hC, hB, List.map_append, List.append_assoc]⟩

theorem operations_setTerminator (builder : CfgBuilder) (b : Nat) (t : Terminator) :
    (builder.setTerminator b t).blocks.map BasicBlock.operations
      = builder.blocks.map BasicBlock.operations := by
  refine List.ext_getElem? fun i => ?_
  rw [List.getElem?_map, List.getElem?_map, getElem?_setTerminator]
  split
  · rw [Option.map_map]
    rfl
  · rfl

theorem adds_build (c : CfgContext) :
    (∀ body pathTo index id targets builder, NumberedBody c.sites body pathTo index id →
      Adds c.eligible builder (buildSequence c body pathTo index targets builder).2
        ((visits body pathTo index).zipIdx id)) ∧
    ∀ bodies path branch id targets builder, NumberedBranches c.sites bodies path branch id →
      Adds c.eligible builder (buildBranches c bodies path branch targets builder).2
        ((visitBranches bodies path branch).zipIdx id) := by
  refine traverse_induct (fun _ _ _ _ _ _ => ⟨[], by simp [visits], by simp [buildSequence]⟩)
    (fun s rest hs hrest pathTo index id targets builder hn => ?_)
    (fun _ _ _ _ _ _ => ⟨[], by simp [visitBranches], by simp [buildBranches]⟩)
    fun body rest hbody hrest path branch id targets builder hn => ?_
  · obtain _ | ⟨⟨number, inner⟩, tail⟩ := hn
    have hafter := hrest pathTo (index + 1) _ targets builder tail
    rw [buildSequence]
    generalize buildSequence c rest pathTo (index + 1) targets builder = built at hafter ⊢
    obtain ⟨next, built⟩ := built
    let pushed := (built.pushBlock (statementOperations c.eligible s id).1 .unreachable).2
    have hown : Adds c.eligible built pushed [((pathTo ++ [.statement index], s), id)] :=
      ⟨_, .refl _, by simp [pushed, CfgBuilder.pushBlock, blockOperations]⟩
    have hinner := hs (pathTo ++ [.statement index]) 0 (id + 1)
      (innerTargets s built.blocks.length { targets with next := next }) pushed inner
    obtain ⟨ws, hws, hblocks⟩ := (hafter.trans hown).trans hinner
    refine ⟨ws, hws.trans ?_, ?_⟩
    · rw [visits, List.zipIdx_cons, List.zipIdx_append, length_visits.2, List.append_assoc,
        statementCount_eq, ← Nat.add_assoc]
      exact List.perm_append_comm
    · dsimp only
      rw [buildStatement_eq, number]
      exact (operations_setTerminator _ _ _).trans hblocks
  · obtain _ | ⟨head, tail⟩ := hn
    rw [visitBranches, List.zipIdx_append, length_visits.1]
    exact (hbody _ _ _ targets builder head).trans (hrest path (branch + 1) _ targets _ tail)

/-! ## The proven stores -/

/-- The statements of a function body with their numbers. -/
def numbered (body : List Statement) : List ((StatementPath × Statement) × Nat) :=
  (visits body [] 0).zipIdx

/-- The graph that is analysed for a function. -/
def functionCfg (function : Function) : FunctionCfg :=
  buildCfg function (eligibleFlatArrayBindings function)

/-- The states that the analysis finds at the start of the blocks of a function. -/
def functionStates (function : Function) : Nat → Option StateMap :=
  ((functionCfg function).inStates (eligibleFlatArrayBindings function)).input

/-- The stores that `prove_unique_detaches` returns for a function. -/
def provenOf (function : Function) : List Nat :=
  (proveUniqueDetaches (functionCfg function) (eligibleFlatArrayBindings function)).2

variable (function : Function)

theorem nodup_numbered (body : List Statement) : ((numbered body).map Prod.snd).Nodup := by
  rw [numbered, List.zipIdx_map_snd]
  exact List.nodup_range'

theorem elided_blocks {eligible : List String} (state : BasicBlock → Option StateMap) :
    ∀ (blocks : List BasicBlock) (ws : List ((StatementPath × Statement) × Nat)),
      blocks.map BasicBlock.operations = ws.map (blockOperations eligible) →
      (blocks.flatMap fun block => (state block).elim [] (elided block.operations)).Sublist
        (ws.map Prod.snd)
  | [], [], _ => .slnil
  | block :: blocks, w :: ws, h => by
    obtain ⟨hblock, h⟩ := List.cons.inj h
    refine (?_ : List.Sublist _ [w.2]).append (elided_blocks state blocks ws h)
    dsimp only
    cases state block with
    | none => exact List.nil_sublist _
    | some s =>
      rw [hblock]
      rcases elided_statement eligible w.1.2 w.2 s with hnone | ⟨hone, -⟩
      · exact hnone ▸ List.nil_sublist _
      · exact hone ▸ .refl _

theorem adds_cfg : ∃ ws, List.Perm ws (numbered function.body) ∧
    (functionCfg function).blocks.map BasicBlock.operations
      = [] :: [] :: ws.map (blockOperations (eligibleFlatArrayBindings function)) :=
  (adds_build ⟨eligibleFlatArrayBindings function, _, 0, 1⟩).1 function.body [] 0 0 bodyTargets
    .initial (assign_numbered.1 function.body [] 0 ⟨0, []⟩ _ fun _ _ _ => rfl)

/-- No store is proven twice. -/
theorem nodup_provenOf : (provenOf function).Nodup := by
  obtain ⟨ws, hws, hblocks⟩ := adds_cfg function
  refine List.Nodup.sublist ?_ ((hws.map Prod.snd).nodup_iff.2 (nodup_numbered _))
  show List.Sublist (elideBlocks _ (functionCfg function).blocks).2 _
  rw [elideBlocks_eq]
  obtain ⟨first, rest, hfirst, h, hrest⟩ := List.map_eq_cons_iff.1 hblocks
  obtain ⟨second, rest, rfl, h', hrest⟩ := List.map_eq_cons_iff.1 hrest
  -- The exit and the panic exit detach nothing.
  have hexit : ∀ block : BasicBlock, block.operations = [] →
      (((functionCfg function).inStates (eligibleFlatArrayBindings function)).input block.id).elim []
        (elided block.operations) = [] := by
    intro block hblock
    rw [hblock]
    cases ((functionCfg function).inStates _).input block.id <;> rfl
  rw [hfirst, List.flatMap_cons, List.flatMap_cons, hexit first h, hexit second h']
  exact elided_blocks _ rest ws hrest

/-- A proven number is the one of a visited store, and it was proven in the block of that store. -/
theorem store_of_proven {id : Nat} (h : id ∈ provenOf function) :
    ∃ v ∈ numbered function.body, v.2 = id ∧ ((storeMode v.1.2).isSome ∨ setsItself v.1.2) ∧
      ∃ block ∈ (functionCfg function).blocks,
        block.operations = blockOperations (eligibleFlatArrayBindings function) v ∧
        ∃ state, functionStates function block.id = some state ∧
          elided block.operations state = [id] := by
  obtain ⟨ws, hws, hblocks⟩ := adds_cfg function
  obtain ⟨block, hmem, state, hstate, hid⟩ := proven_spec _ _ id h
  have hops := List.mem_map_of_mem (f := BasicBlock.operations) hmem
  have hempty : block.operations ≠ [] := by
    intro hempty
    rw [hempty] at hid
    cases hid
  rw [hblocks, List.mem_cons, List.mem_cons, or_iff_right hempty, or_iff_right hempty] at hops
  obtain ⟨v, hv, hops⟩ := List.mem_map.1 hops
  rw [← hops] at hid
  obtain rfl := eq_of_mem_elided hid
  rcases elided_statement (eligibleFlatArrayBindings function) v.1.2 v.2 state with
    hnone | ⟨hone, hstore⟩
  · rw [blockOperations, hnone] at hid
    cases hid
  · exact ⟨v, hws.subset hv, rfl, hstore, block, hmem, hops.symm, state, hstate, hops ▸ hone⟩

/-! ## Agreement -/

theorem storeMode_reset (s : Statement) :
    storeMode (resetStatement s) = (storeMode s).map fun _ => .checkedCow := by
  cases s with
  | assign name value =>
    cases value with
    | enumVariant enumName args variant payload => cases payload <;> rfl
    | _ => rfl
  | ifLet binding t value variant body elseBody => cases elseBody <;> rfl
  | returnValue value => cases value <;> rfl
  | _ => rfl

theorem setsItself_reset (s : Statement) : setsItself (resetStatement s) = setsItself s := by
  cases s with
  | letBind name t value =>
    cases value with
    | enumVariant enumName args variant payload => cases payload <;> rfl
    | _ => rfl
  | ifLet binding t value variant body elseBody => cases elseBody <;> rfl
  | returnValue value => cases value <;> rfl
  | _ => rfl

/-- A function as `reset_mutation_modes` leaves it. -/
def resetFunction (function : Function) : Function :=
  { function with body := resetBody function.body }

/-- Whether a store is marked as unique. -/
def marked (s : Statement) : Bool := storeMode s = some .checkedUnique

variable {v : (StatementPath × Statement) × Nat}

theorem numbered_reset (hv : v ∈ numbered (resetFunction function).body) :
    ∃ u ∈ visits function.body [] 0, (u.1, resetStatement u.2) = v.1 := by
  have hmem := List.fst_mem_of_mem_zipIdx hv
  rwa [resetFunction, visits_reset.1, List.mem_map] at hmem

theorem storeMode_numbered (hv : v ∈ numbered (resetFunction function).body)
    {mode : ArrayMutationMode} (h : storeMode v.1.2 = some mode) : mode = .checkedCow := by
  obtain ⟨u, -, hu⟩ := numbered_reset function hv
  rw [← hu, storeMode_reset, Option.map_eq_some_iff] at h
  obtain ⟨_, -, rfl⟩ := h
  rfl

theorem marked_annotate (hlet : ∀ v ∈ visits function.body [] 0, setsItself v.2 = false)
    (hv : v ∈ numbered (resetFunction function).body) :
    marked (annotateStatement (provenOf (resetFunction function)) v.1.2 v.2) ↔
      v.2 ∈ provenOf (resetFunction function) := by
  rw [marked, decide_eq_true_eq, storeMode_annotate, Option.map_eq_some_iff]
  constructor
  · rintro ⟨mode, hmode, h⟩
    obtain rfl := storeMode_numbered function hv hmode
    by_contra hnot
    rw [if_neg hnot] at h
    cases h
  · intro hproven
    obtain ⟨w, hw, hnumber, hstore, -⟩ := store_of_proven _ hproven
    -- A number belongs to one statement.
    obtain rfl : w = v := by
      have hw' := List.mem_zipIdx_iff_getElem?.1 hw
      rw [hnumber, List.mem_zipIdx_iff_getElem?.1 hv] at hw'
      exact Prod.ext (Option.some.inj hw').symm hnumber
    obtain ⟨u, hu, heq⟩ := numbered_reset function hv
    rw [← heq, setsItself_reset, hlet u hu, heq, or_iff_left Bool.false_ne_true] at hstore
    obtain ⟨mode, hmode⟩ := Option.isSome_iff_exists.1 hstore
    exact ⟨mode, hmode, if_pos hproven⟩

/-- A variable bound by a store to itself after it was assigned. -/
def selfStore : Function where
  package := "test"
  name := "main"
  isSuspend := false
  params := []
  body := [
    .assign "xs" (.arrayLiteral [.literal (.int 1)] .i32),
    .letBind "xs" (.array .i32)
      (.arraySet "xs" (.literal (.int 0)) (.literal (.int 7)) .i32 .checkedCow)]

end Nomo.Mir
