import Nomo.Mir.Fixpoint
import Nomo.Mir.Modes

/-!
# What the graph guarantees of a body

The execution of a statement never looks at the graph.  What it needs to know is that the state the
analysis gives to the statement's block, pushed through the statement's operations, reaches the
blocks that come next, and that a store is on the proven list only if its array is unique there.
`FollowsBody` says this for a body, statement by statement, and `function_follows` derives it from
the way `buildSequence` lays the blocks out: a body occupies a range of blocks and a range of
statement numbers, nothing built later touches that range, and no block outside it mentions those
numbers.
-/

namespace Nomo.Mir

open Nomo.Ir Nomo.Lib

/-! ## Numbering -/

mutual

/-- The statement at `path` has number `id`, and the statements in it the numbers after `id`. -/
inductive Numbered (sites : Sites) : Statement → StatementPath → Nat → Prop
  | intro {s : Statement} {path : StatementPath} {id : Nat} (number : sites.id path = id)
      (inner : NumberedBranches sites (branches s) path 0 (id + 1)) : Numbered sites s path id

/-- The statements of a body are numbered in order, from `id` on. -/
inductive NumberedBody (sites : Sites) : List Statement → StatementPath → Nat → Nat → Prop
  | nil {pathTo : StatementPath} {index id : Nat} : NumberedBody sites [] pathTo index id
  | cons {s : Statement} {rest : List Statement} {pathTo : StatementPath} {index id : Nat}
      (head : Numbered sites s (pathTo ++ [.statement index]) id)
      (tail : NumberedBody sites rest pathTo (index + 1) (id + statementCount s)) :
      NumberedBody sites (s :: rest) pathTo index id

/-- So are the statements of a list of bodies. -/
inductive NumberedBranches (sites : Sites) :
    List (List Statement) → StatementPath → Nat → Nat → Prop
  | nil {path : StatementPath} {branch id : Nat} : NumberedBranches sites [] path branch id
  | cons {body : List Statement} {rest : List (List Statement)} {path : StatementPath}
      {branch id : Nat} (head : NumberedBody sites body (path ++ [.branch branch]) 0 id)
      (tail : NumberedBranches sites rest path (branch + 1) (id + bodyCount body)) :
      NumberedBranches sites (body :: rest) path branch id

end

/-- Numbering leaves the numbers of all other paths alone. -/
def Frames (body : List Statement) : Prop := ∀ pathTo index sites p,
  (∀ j rest, index ≤ j → p ≠ pathTo ++ PathStep.statement j :: rest) →
    (assignStatementIds body pathTo index sites).id p = sites.id p

section

-- The equations of these definitions are generated once, before the proofs that need them.
attribute [local simp] assignBranches assignStatementIds elideDetaches buildBranches buildSequence
  statementTerminator innerTargets

end

theorem assign_frame : (∀ body, Frames body) ∧
    ∀ bodies path k sites p, (∀ j rest, k ≤ j → p ≠ path ++ PathStep.branch j :: rest) →
      (assignBranches bodies path k sites).id p = sites.id p := by
  refine traverse_induct (fun _ _ _ _ _ => rfl) (fun s rest hs hrest pathTo index sites p hp => ?_)
    (fun _ _ _ _ _ => rfl) fun body rest hbody hrest path k sites p hk => ?_
  · rw [assignStatementIds, hrest _ _ _ _ (fun j r hj => hp j r (by omega)), assignChildIds_eq, hs]
    · have hne := hp index [] (Nat.le_refl _)
      have hb : (p == pathTo ++ [PathStep.statement index]) = false := by simpa using hne
      simp [Sites.id, List.lookup, hb]
    · intro j r _
      have := hp index (PathStep.branch j :: r) (Nat.le_refl _)
      simpa using this
  · rw [assignBranches, hrest _ _ _ _ (fun j r hj => hk j r (by omega)), hbody]
    intro j r _
    have := hk k (PathStep.statement j :: r) (Nat.le_refl _)
    simpa using this

/-- A later numbering that agrees with the one made for a body numbers the body in order. -/
theorem assign_numbered :
    (∀ body pathTo index sites (final : Sites),
      (∀ j rest, index ≤ j → final.id (pathTo ++ PathStep.statement j :: rest)
        = (assignStatementIds body pathTo index sites).id (pathTo ++ .statement j :: rest)) →
      NumberedBody final body pathTo index sites.next) ∧
    ∀ bodies path k sites (final : Sites),
      (∀ j rest, k ≤ j → final.id (path ++ PathStep.branch j :: rest)
        = (assignBranches bodies path k sites).id (path ++ .branch j :: rest)) →
      NumberedBranches final bodies path k sites.next := by
  refine traverse_induct (fun _ _ _ _ _ => .nil)
    (fun s rest hs hrest pathTo index sites final hfinal => ?_) (fun _ _ _ _ _ => .nil)
    fun body rest hbody hrest path k sites final hk => ?_
  · -- The number of the statement itself is entered before those of its children.
    obtain ⟨entered, hentered⟩ : ∃ entered : Sites, entered = { next := sites.next + 1, entries :=
      (pathTo ++ [PathStep.statement index], sites.next) :: sites.entries } := ⟨_, rfl⟩
    rw [assignStatementIds, ← hentered] at hfinal
    have hnext : (assignChildIds s (pathTo ++ [PathStep.statement index]) entered).next
        = sites.next + statementCount s := by
      have := assignChildIds_next s (pathTo ++ [PathStep.statement index]) entered
      rw [hentered] at this ⊢
      dsimp only at this
      omega
    have hstart (r) : final.id (pathTo ++ PathStep.statement index :: r)
        = (assignBranches (branches s) (pathTo ++ [PathStep.statement index]) 0 entered).id
          (pathTo ++ PathStep.statement index :: r) := by
      rw [hfinal index r (Nat.le_refl _), ← assignChildIds_eq]
      refine assign_frame.1 rest _ _ _ _ fun i r' hi heq => ?_
      have := List.append_cancel_left heq
      simp at this
      omega
    refine .cons (.intro ?_ ?_) ?_
    · rw [hstart [], assign_frame.2]
      · rw [hentered]
        simp [Sites.id, List.lookup]
      · intro i r' hi heq
        have := congrArg List.length heq
        simp at this
    · have := hs (pathTo ++ [PathStep.statement index]) 0 entered final
        fun j r _ => by simpa using hstart (PathStep.branch j :: r)
      rwa [hentered] at this
    · have := hrest pathTo (index + 1) _ final fun j r hj => hfinal j r (by omega)
      rwa [hnext] at this
  · rw [assignBranches] at hk
    refine .cons (hbody _ _ _ _ fun j r _ => ?_) ?_
    · have := hk k (PathStep.statement j :: r) (Nat.le_refl _)
      rw [List.append_assoc, List.singleton_append, this]
      -- The branches after this one are numbered under other paths.
      refine assign_frame.2 rest _ _ _ _ fun i r' hi heq => ?_
      have := List.append_cancel_left heq
      simp at this
      omega
    · have := hrest path (k + 1) _ final fun j r hj => hk j r (by omega)
      rwa [assign_next.1] at this

variable (c : CfgContext) (bodies : List (List Statement))

/-! ## What is checked -/

/-- The outcome of the analysis of a function: its tracked arrays, its proven stores, the header
block of each name bound by a loop (and none for the other bindings), and the input states. -/
structure Flow where
  eligible : List String
  proven : List Nat
  headers : List (String × Option Nat)
  input : Nat → Option StateMap

namespace Flow

/-- The output of a block that performs `operations` reaches block `t`. -/
def Passes (F : Flow) (b : Nat) (operations : List Operation) (t : Nat) : Prop :=
  ∀ s, F.input b = some s →
    ∃ s', F.input t = some s' ∧ Claims (transferOperations operations s) s'

/-- If the store of statement `id` is proven, then in the input state of its block. -/
def Proves (F : Flow) (b : Nat) (operations : List Operation) (id : Nat) : Prop :=
  id ∈ F.proven → ∃ s, F.input b = some s ∧ id ∈ elided operations s

end Flow

/-- The bindings of a statement, with the header of the loop that binds them. -/
def statementHeaders (s : Statement) (b : Nat) : List (String × Option Nat) :=
  (ownBindings s).map fun record =>
    (record.1, match s with
      | .loop _ _ => some b
      | _ => none)

/-- Whether control can go from a statement's block straight to what follows the statement. -/
def continues : Statement → Bool
  | .letIf .. | .ifThenElse .. | .ifLet _ _ _ _ _ (some _) | .letMatch .. | .matchOn ..
  | .taskSelect _ | .loop .infinite _ | .breakLoop | .continueLoop | .returnValue _
  | .questionReturn .. | .panic _ => false
  | _ => true

mutual

/-- The analysis covers a statement with number `id` and block `b`. -/
inductive Follows (F : Flow) : Statement → Nat → Nat → Targets → Prop
  | intro {s : Statement} {id b : Nat} {targets : Targets}
      (proves : F.Proves b (statementOperations F.eligible s id).1 id)
      (headers : ∀ h ∈ statementHeaders s b, h ∈ F.headers)
      (next : continues s = true →
        F.Passes b (statementOperations F.eligible s id).1 targets.next)
      (breaks : s = .breakLoop → ∀ t, targets.breakTarget = some t →
        F.Passes b (statementOperations F.eligible s id).1 t)
      (repeats : s = .continueLoop → ∀ t, targets.continueTarget = some t →
        F.Passes b (statementOperations F.eligible s id).1 t)
      (defers : ∀ call, s = .defer call → F.eligible = [])
      (inner : FollowsBranches F (branches s) (id + 1) b
        (statementOperations F.eligible s id).1 (innerTargets s b targets)) :
      Follows F s id b targets

/-- The analysis covers a body that starts at block `b`. -/
inductive FollowsBody (F : Flow) : List Statement → Nat → Nat → Targets → Prop
  | nil {id : Nat} {targets : Targets} : FollowsBody F [] id targets.next targets
  | cons {s : Statement} {rest : List Statement} {id b next : Nat} {targets : Targets}
      (tail : FollowsBody F rest (id + statementCount s) next targets)
      (head : Follows F s id b { targets with next := next }) :
      FollowsBody F (s :: rest) id b targets

/-- The analysis covers the bodies of a statement with block `b`. -/
inductive FollowsBranches (F : Flow) :
    List (List Statement) → Nat → Nat → List Operation → Targets → Prop
  | nil {id b : Nat} {operations : List Operation} {targets : Targets} :
      FollowsBranches F [] id b operations targets
  | cons {body : List Statement} {rest : List (List Statement)} {id b entry : Nat}
      {operations : List Operation} {targets : Targets} (passes : F.Passes b operations entry)
      (head : FollowsBody F body id entry targets)
      (tail : FollowsBranches F rest (id + bodyCount body) b operations targets) :
      FollowsBranches F (body :: rest) id b operations targets

end

/-! ## How the blocks are laid out -/

/-- The block of a statement detaches for that statement alone, at most once, and only if it is a
store. -/
theorem elided_statement (eligible : List String) (s : Statement) (id : Nat) (state : StateMap) :
    elided (statementOperations eligible s id).1 state = [] ∨
      elided (statementOperations eligible s id).1 state = [id] ∧
        ((storeMode s).isSome ∨ setsItself s) := by
  have hquiet : ∀ xs operations, Quiet eligible xs operations → elided operations state = [] :=
    fun _ operations hq => elided_weak operations state hq.weak
  have hassign : ∀ name value overwrite {P : Prop}, (∀ index element t mode,
      value = .arraySet name index element t mode → P) →
      elided (assignOperations eligible name value overwrite id .empty).flushUses.operations state = [] ∨
      elided (assignOperations eligible name value overwrite id .empty).flushUses.operations state
        = [id] ∧ P := by
    intro name value overwrite P hP
    rcases assign_cases eligible name value overwrite id with
      hq | ⟨-, -, before, heq, hq⟩ | ⟨-, index, element, t, mode, hvalue, before, heq, hq⟩
    · exact .inl (hquiet _ _ hq)
    · rw [heq, elided_append, hquiet _ _ hq]
      exact .inl rfl
    · rw [heq]
      exact (elided_store before name id true state hq.weak).imp_right
        (And.imp_right fun _ => hP _ _ _ _ hvalue)
  by_cases hp : isPlain s = true
  · exact .inl (hquiet _ _ (statement_quiet s id hp))
  cases s with
  | letBind name t value =>
    refine hassign name value false fun _ _ _ _ hvalue => .inr ?_
    simp [hvalue, setsItself]
  | assign name value =>
    refine hassign name value true fun _ _ _ _ hvalue => .inl ?_
    simp [hvalue, storeMode]
  | arrayIndexAssign root indices arrayTypes value mode =>
    obtain ⟨before, hq, heq⟩ :=
      indexAssign_cases eligible root indices arrayTypes value mode id
    rw [heq]
    split
    · exact (elided_store before root id _ state hq.weak).imp_right
        (And.imp_right fun _ => .inl rfl)
    · exact .inl (hquiet _ _ hq)
  | _ => simp [isPlain] at hp

theorem eq_of_mem_elided {eligible : List String} {s : Statement} {id k : Nat} {state : StateMap}
    (h : k ∈ elided (statementOperations eligible s id).1 state) : k = id := by
  rcases elided_statement eligible s id state with hnone | ⟨hone, -⟩
  · rw [hnone] at h
    cases h
  · rwa [hone, List.mem_singleton] at h

/-- Building appends blocks: those that were there stay as they are, and the new ones carry their
place as their number and detach only for statements from `lo` to `hi`. -/
structure Grown (builder builder' : CfgBuilder) (lo hi : Nat) : Prop where
  le : builder.blocks.length ≤ builder'.blocks.length
  same : ∀ i < builder.blocks.length, builder'.blocks[i]? = builder.blocks[i]?
  fresh : ∀ (i : Nat) (block : BasicBlock), builder.blocks.length ≤ i →
    builder'.blocks[i]? = some block →
      block.id = i ∧ ∀ k state, k ∈ elided block.operations state → lo ≤ k ∧ k < hi

theorem Grown.refl (builder : CfgBuilder) (lo hi : Nat) : Grown builder builder lo hi where
  le := Nat.le_refl _
  same _ _ := rfl
  fresh i block hi h := by
    rw [List.getElem?_eq_none hi] at h
    cases h

theorem Grown.trans {A B C : CfgBuilder} {lo lo₁ lo₂ hi hi₁ hi₂ : Nat} (h₁ : Grown A B lo₁ hi₁)
    (h₂ : Grown B C lo₂ hi₂) (hlo₁ : lo ≤ lo₁) (hlo₂ : lo ≤ lo₂) (hhi₁ : hi₁ ≤ hi)
    (hhi₂ : hi₂ ≤ hi) : Grown A C lo hi where
  le := Nat.le_trans h₁.le h₂.le
  same i hi := by rw [h₂.same i (Nat.lt_of_lt_of_le hi h₁.le), h₁.same i hi]
  fresh i block hi h := by
    by_cases hB : i < B.blocks.length
    · rw [h₂.same i hB] at h
      obtain ⟨hid, hk⟩ := h₁.fresh i block hi h
      refine ⟨hid, fun k state hmem => ?_⟩
      have := hk k state hmem
      omega
    · obtain ⟨hid, hk⟩ := h₂.fresh i block (Nat.le_of_not_lt hB) h
      refine ⟨hid, fun k state hmem => ?_⟩
      have := hk k state hmem
      omega

/-- The blocks of a body grow the graph by its statement numbers. -/
def Grows (c : CfgContext) (body : List Statement) : Prop :=
  ∀ pathTo index id targets builder, NumberedBody c.sites body pathTo index id →
    Grown builder (buildSequence c body pathTo index targets builder).2 id (id + bodyCount body)

theorem buildBranches_grown
    (hb : ∀ body ∈ bodies, Grows c body) :
    ∀ path k id targets builder, NumberedBranches c.sites bodies path k id →
      Grown builder (buildBranches c bodies path k targets builder).2 id
        (id + branchesCount bodies) ∧
      (buildBranches c bodies path k targets builder).1.length = bodies.length := by
  induction bodies with
  | nil => exact fun _ _ _ _ _ _ => ⟨Grown.refl _ _ _, rfl⟩
  | cons body bodies ih =>
    intro path k id targets builder hn
    obtain _ | ⟨head, tail⟩ := hn
    have h1 := hb body (by simp) _ _ _ targets builder head
    have h2 := ih (fun b h => hb b (List.mem_cons_of_mem _ h)) path (k + 1) _ targets
      (buildSequence c body (path ++ [PathStep.branch k]) 0 targets builder).2 tail
    have hcount : branchesCount (body :: bodies) = bodyCount body + branchesCount bodies := rfl
    refine ⟨h1.trans h2.1 (Nat.le_refl _) (by omega) (by omega) (by omega), ?_⟩
    simp only [buildBranches, List.length_cons, h2.2]

theorem getElem?_setTerminator (builder : CfgBuilder) (b i : Nat) (t : Terminator) :
    (builder.setTerminator b t).blocks[i]?
      = if i = b then builder.blocks[i]?.map fun block => { block with terminator := t }
        else builder.blocks[i]? := by
  simp only [CfgBuilder.setTerminator, List.getElem?_modify]
  by_cases hi : i = b
  · simp [hi]
  · rw [if_neg hi]
    simp [Ne.symm hi]

/-- What building a statement leaves in the graph: its own block, and after it those of its bodies. -/
theorem buildStatement_grown (s : Statement) (path : StatementPath) (id : Nat)
    (targets : Targets) (builder : CfgBuilder) (hn : Numbered c.sites s path id)
    (hb : ∀ body ∈ branches s, Grows c body) :
    let b := builder.blocks.length
    let pushed := (builder.pushBlock (statementOperations c.eligible s id).1 .unreachable).2
    let inner := buildBranches c (branches s) path 0 (innerTargets s b targets) pushed
    let final := (buildStatement c s path targets builder).2
    (buildStatement c s path targets builder).1 = b ∧
      Grown builder final id (id + statementCount s) ∧
      final.blocks[b]? = some ⟨b, (statementOperations c.eligible s id).1,
        statementTerminator c s inner.1 targets⟩ ∧
      final.blocks.length = inner.2.blocks.length ∧
      (∀ i, b < i → final.blocks[i]? = inner.2.blocks[i]?) ∧
      Grown pushed inner.2 (id + 1) (id + statementCount s) ∧
      inner.1.length = (branches s).length := by
  intro b pushed inner final
  obtain ⟨hnumber, hinner⟩ := hn
  have heq : buildStatement c s path targets builder = (b, (inner.2.setTerminator b
      (statementTerminator c s inner.1 targets)).addPanicEdges c.panicExit b
        (statementOperations c.eligible s id).2) := by
    rw [buildStatement_eq, hnumber]
    rfl
  have hfinal : ∀ i, final.blocks[i]? = if i = b then inner.2.blocks[i]?.map fun block =>
      { block with terminator := statementTerminator c s inner.1 targets }
      else inner.2.blocks[i]? := by
    intro i
    show (buildStatement c s path targets builder).2.blocks[i]? = _
    rw [heq]
    exact getElem?_setTerminator inner.2 b i _
  obtain ⟨hg, hlen⟩ := buildBranches_grown c (branches s) hb path 0 (id + 1)
    (innerTargets s b targets) pushed hinner
  have hcount : id + 1 + branchesCount (branches s) = id + statementCount s := by
    rw [statementCount_eq]
    omega
  rw [hcount] at hg
  have hpushed : pushed.blocks.length = b + 1 := by
    simp [pushed, CfgBuilder.pushBlock, b]
  have hown : inner.2.blocks[b]? = some ⟨b, (statementOperations c.eligible s id).1, .unreachable⟩ := by
    rw [hg.same b (by omega)]
    simp [pushed, CfgBuilder.pushBlock, b]
  have hblock : final.blocks[b]? = some ⟨b, (statementOperations c.eligible s id).1,
      statementTerminator c s inner.1 targets⟩ := by
    rw [hfinal, if_pos rfl, hown]
    rfl
  have hlength : final.blocks.length = inner.2.blocks.length := by
    show (buildStatement c s path targets builder).2.blocks.length = _
    rw [heq]
    exact List.length_modify _ _ _
  have habove (i) : b < i → final.blocks[i]? = inner.2.blocks[i]? := by
    intro hi
    rw [hfinal, if_neg (by omega)]
  have hle : pushed.blocks.length ≤ inner.2.blocks.length := hg.le
  refine ⟨by rw [heq], ⟨by omega, fun i hi => ?_, fun i block hi h => ?_⟩, hblock, hlength, habove,
    hg, hlen⟩
  · rw [hfinal, if_neg (by omega), hg.same i (by omega)]
    simp [pushed, CfgBuilder.pushBlock, List.getElem?_append_left hi]
  rcases Nat.eq_or_lt_of_le hi with rfl | hi
  · rw [show builder.blocks.length = b from rfl, hblock] at h
    cases h
    refine ⟨rfl, fun k state hk => ?_⟩
    have := eq_of_mem_elided hk
    have := statementCount_eq s
    omega
  · rw [habove i hi] at h
    obtain ⟨hid, hk⟩ := hg.fresh i block (by omega) h
    refine ⟨hid, fun k state hmem => ?_⟩
    have := hk k state hmem
    omega

theorem buildSequence_grown (body : List Statement) : Grows c body := by
  induction body using body_induct with
  | nil => exact fun _ _ _ _ _ _ => Grown.refl _ _ _
  | cons s rest hs hrest =>
    intro pathTo index id targets builder hn
    obtain _ | ⟨head, tail⟩ := hn
    have h1 := hrest pathTo (index + 1) _ targets builder tail
    have h2 := (buildStatement_grown c s _ _ { targets with next :=
      (buildSequence c rest pathTo (index + 1) targets builder).1 }
      (buildSequence c rest pathTo (index + 1) targets builder).2 head hs).2.1
    have hcount : bodyCount (s :: rest) = statementCount s + bodyCount rest := rfl
    exact h1.trans h2 (by omega) (Nat.le_refl _) (by omega) (by omega)

/-! ## Successors -/

theorem successors_branches (s : Statement) (blocks : List Nat)
    (targets : Targets) (hlen : blocks.length = (branches s).length) (t : Nat) (ht : t ∈ blocks) :
    t ∈ (statementTerminator c s blocks targets).successors := by
  have htwo (bs : List Nat) (h : bs.length = 2) : ∃ a b, bs = [a, b] :=
    List.length_eq_two.1 h
  have hone (bs : List Nat) (h : bs.length = 1) : ∃ a, bs = [a] :=
    List.length_eq_one_iff.1 h
  cases s with
  | letIf name t condition a b | ifThenElse condition a b =>
    obtain ⟨x, y, rfl⟩ := htwo blocks hlen
    exact ht
  | ifLet binding t value variant a elseBody =>
    cases elseBody with
    | none =>
      obtain ⟨x, rfl⟩ := hone blocks hlen
      rw [List.mem_singleton.1 ht]
      simp [statementTerminator, Terminator.successors]
    | some b =>
      obtain ⟨x, y, rfl⟩ := htwo blocks hlen
      exact ht
  | letElse binding t value variant a =>
    obtain ⟨x, rfl⟩ := hone blocks hlen
    rw [List.mem_singleton.1 ht]
    simp [statementTerminator, Terminator.successors]
  | loop kind a =>
    obtain ⟨x, rfl⟩ := hone blocks hlen
    rw [List.mem_singleton.1 ht]
    cases kind <;> simp [statementTerminator, Terminator.successors]
  | letMatch name t value enumName arms | matchOn value enumName arms | taskSelect arms => exact ht
  | _ =>
    have hnil : blocks = [] := List.eq_nil_of_length_eq_zero (by simpa [branches] using hlen)
    rw [hnil] at ht
    simp at ht

theorem successors_next (s : Statement) (blocks : List Nat) (targets : Targets)
    (hlen : blocks.length = (branches s).length) (hs : continues s = true) :
    targets.next ∈ (statementTerminator c s blocks targets).successors := by
  have hone (bs : List Nat) (h : bs.length = 1) : ∃ a, bs = [a] :=
    List.length_eq_one_iff.1 h
  cases s with
  | ifLet binding t value variant a elseBody =>
    cases elseBody with
    | none =>
      obtain ⟨x, rfl⟩ := hone blocks hlen
      simp [statementTerminator, Terminator.successors]
    | some b => simp [continues] at hs
  | letElse binding t value variant a =>
    obtain ⟨x, rfl⟩ := hone blocks hlen
    simp [statementTerminator, Terminator.successors]
  | loop kind a =>
    obtain ⟨x, rfl⟩ := hone blocks hlen
    cases kind <;> simp [continues, statementTerminator, Terminator.successors] at hs ⊢
  | _ => simp [continues, statementTerminator, Terminator.successors] at hs ⊢

/-! ## The analysis covers the bodies -/

/-- An analysis outcome that belongs to a list of blocks. -/
structure Flow.Of (F : Flow) (c : CfgContext) (blocks : List BasicBlock) : Prop where
  eligible : F.eligible = c.eligible
  flows : ∀ (b : Nat) (block : BasicBlock) (s : StateMap), blocks[b]? = some block →
    F.input b = some s → ∀ t ∈ block.terminator.successors, t < blocks.length →
      ∃ s', F.input t = some s' ∧ Claims (transferOperations block.operations s) s'
  proven : ∀ id ∈ F.proven, ∃ (b : Nat) (block : BasicBlock) (s : StateMap),
    blocks[b]? = some block ∧ F.input b = some s ∧ id ∈ elided block.operations s

/-- The blocks built between two states of the builder are in the finished graph, and no other
block of it detaches for the statements from `lo` to `hi`. -/
structure Final (blocks : List BasicBlock) (builder builder' : CfgBuilder) (lo hi : Nat) :
    Prop where
  le : builder'.blocks.length ≤ blocks.length
  kept : ∀ i, builder.blocks.length ≤ i → i < builder'.blocks.length →
    blocks[i]? = builder'.blocks[i]?
  apart : ∀ (i : Nat) (block : BasicBlock), blocks[i]? = some block →
    i < builder.blocks.length ∨ builder'.blocks.length ≤ i →
      ∀ k state, k ∈ elided block.operations state → ¬ (lo ≤ k ∧ k < hi)

/-- A part of the building process whose blocks are kept by the rest of it. -/
theorem Final.part {blocks : List BasicBlock} {A B C D : CfgBuilder} {lo hi lo' hi' : Nat}
    (h : Final blocks A D lo hi) (hAB : A.blocks.length ≤ B.blocks.length)
    (hCD : C.blocks.length ≤ D.blocks.length)
    (hkept : ∀ i, B.blocks.length ≤ i → i < C.blocks.length → D.blocks[i]? = C.blocks[i]?)
    (hother : ∀ i block, D.blocks[i]? = some block →
      (A.blocks.length ≤ i ∧ i < B.blocks.length) ∨ C.blocks.length ≤ i →
        ∀ k state, k ∈ elided block.operations state → ¬ (lo' ≤ k ∧ k < hi'))
    (hlo : lo ≤ lo') (hhi : hi' ≤ hi) : Final blocks B C lo' hi' where
  le := Nat.le_trans hCD h.le
  kept i h1 h2 := by rw [h.kept i (by omega) (by omega), hkept i h1 h2]
  apart i block hi hout k state hk := by
    by_cases hin : A.blocks.length ≤ i ∧ i < D.blocks.length
    · rw [h.kept i hin.1 hin.2] at hi
      refine hother i block hi ?_ k state hk
      omega
    · have := h.apart i block hi (by omega) k state hk
      omega

/-- All targets are blocks below `n`. -/
structure Targets.Below (targets : Targets) (n : Nat) : Prop where
  next : targets.next < n
  breaks : ∀ t, targets.breakTarget = some t → t < n
  repeats : ∀ t, targets.continueTarget = some t → t < n

theorem Targets.Below.mono {targets : Targets} {n k : Nat} (h : targets.Below n) (hle : n ≤ k) :
    targets.Below k where
  next := Nat.lt_of_lt_of_le h.next hle
  breaks t ht := Nat.lt_of_lt_of_le (h.breaks t ht) hle
  repeats t ht := Nat.lt_of_lt_of_le (h.repeats t ht) hle

theorem buildSequence_lt (body : List Statement) (pathTo : StatementPath)
    (index id : Nat) (targets : Targets) (builder : CfgBuilder)
    (hn : NumberedBody c.sites body pathTo index id) (ht : targets.next < builder.blocks.length) :
    (buildSequence c body pathTo index targets builder).1
      < (buildSequence c body pathTo index targets builder).2.blocks.length := by
  cases hn with
  | nil => exact ht
  | cons head tail =>
    rename_i s rest
    obtain ⟨hb, -, hblock, -⟩ := buildStatement_grown c s _ _ { targets with next :=
      (buildSequence c rest pathTo (index + 1) targets builder).1 }
      (buildSequence c rest pathTo (index + 1) targets builder).2 head
      fun body _ => buildSequence_grown c body
    simp only [buildSequence]
    rw [hb]
    exact (List.getElem?_eq_some_iff.1 hblock).1

/-- A body, once its blocks are final, is covered by the analysis; `hs` lists the headers of its
bindings. -/
def Lays (c : CfgContext) (body : List Statement) : Prop :=
  ∀ pathTo index id targets builder, NumberedBody c.sites body pathTo index id →
    ∃ hs : List (String × Option Nat),
      hs.map Prod.fst = (collectBindings body).map Prod.fst ∧
      ∀ (F : Flow) (blocks : List BasicBlock), F.Of c blocks →
        Final blocks builder (buildSequence c body pathTo index targets builder).2 id
          (id + bodyCount body) →
        targets.Below builder.blocks.length →
        (bodyRequiresSafeFallback body = true → F.eligible = []) →
        (∀ h ∈ hs, h ∈ F.headers) →
          FollowsBody F body id (buildSequence c body pathTo index targets builder).1 targets

theorem buildBranches_lays
    (hb : ∀ body ∈ bodies, Lays c body) :
    ∀ path k id targets builder, NumberedBranches c.sites bodies path k id →
      ∃ hs : List (String × Option Nat),
        hs.map Prod.fst = (bodies.flatMap collectBindings).map Prod.fst ∧
        ∀ F blocks, F.Of c blocks →
          Final blocks builder (buildBranches c bodies path k targets builder).2 id
            (id + branchesCount bodies) →
          targets.Below builder.blocks.length →
          (∀ body ∈ bodies, bodyRequiresSafeFallback body = true → F.eligible = []) →
          (∀ h ∈ hs, h ∈ F.headers) → ∀ b operations,
          (∀ t ∈ (buildBranches c bodies path k targets builder).1, t < blocks.length →
            F.Passes b operations t) →
            FollowsBranches F bodies id b operations targets := by
  induction bodies with
  | nil => exact fun _ _ _ _ _ _ => ⟨[], rfl, fun _ _ _ _ _ _ _ _ _ _ => .nil⟩
  | cons body bodies ih =>
    intro path k id targets builder hn
    obtain _ | ⟨head, tail⟩ := hn
    obtain ⟨hs₁, hnames₁, h₁⟩ := hb body (by simp) _ _ _ targets builder head
    obtain ⟨hs₂, hnames₂, h₂⟩ := ih (fun b h => hb b (List.mem_cons_of_mem _ h)) path (k + 1) _
      targets (buildSequence c body (path ++ [PathStep.branch k]) 0 targets builder).2 tail
    have hg₁ := buildSequence_grown c body _ _ _ targets builder head
    have hg₂ := (buildBranches_grown c bodies (fun b _ => buildSequence_grown c b) path (k + 1) _
      targets (buildSequence c body (path ++ [PathStep.branch k]) 0 targets builder).2 tail).1
    have hcount : branchesCount (body :: bodies) = bodyCount body + branchesCount bodies := rfl
    have hle₁ := hg₁.le
    have hle₂ := hg₂.le
    refine ⟨hs₁ ++ hs₂, by simp [hnames₁, hnames₂], ?_⟩
    intro F blocks hF hfinal hbelow hsafe hheaders b operations hpasses
    have hlt := buildSequence_lt c body _ _ _ targets builder head hbelow.next
    have hlen := hfinal.le
    simp only [buildBranches] at hfinal hpasses hlen
    refine .cons (hpasses _ List.mem_cons_self (by omega)) ?_ ?_
    · refine h₁ F blocks hF ?_ hbelow (hsafe body (by simp))
        fun h hm => hheaders h (List.mem_append_left _ hm)
      refine hfinal.part (Nat.le_refl _) hle₂ (fun i _ hi => hg₂.same i hi) ?_ (Nat.le_refl _)
        (by omega)
      intro i block hblock hout m state hm
      have := (hg₂.fresh i block (by omega) hblock).2 m state hm
      omega
    · refine h₂ F blocks hF ?_ (hbelow.mono hle₁)
        (fun b hm => hsafe b (List.mem_cons_of_mem _ hm))
        (fun h hm => hheaders h (List.mem_append_right _ hm)) b operations
        fun t ht => hpasses t (List.mem_cons_of_mem _ ht)
      refine hfinal.part hle₁ (Nat.le_refl _) (fun i _ _ => rfl) ?_ (by omega) (by omega)
      intro i block hblock hout m state hm
      by_cases hi : i < (buildSequence c body (path ++ [PathStep.branch k]) 0 targets
          builder).2.blocks.length
      · rw [hg₂.same i hi] at hblock
        have := (hg₁.fresh i block (by omega) hblock).2 m state hm
        omega
      · rw [List.getElem?_eq_none (by omega)] at hblock
        cases hblock

theorem buildStatement_lays (s : Statement) (path : StatementPath) (id : Nat)
    (targets : Targets) (builder : CfgBuilder) (hn : Numbered c.sites s path id)
    (hb : ∀ body ∈ branches s, Lays c body) :
    ∃ hs : List (String × Option Nat),
      hs.map Prod.fst = (statementBindings s).map Prod.fst ∧
      ∀ F blocks, F.Of c blocks →
        Final blocks builder (buildStatement c s path targets builder).2 id
          (id + statementCount s) →
        targets.Below builder.blocks.length →
        (requiresSafeFallback s = true → F.eligible = []) →
        (∀ h ∈ hs, h ∈ F.headers) →
          Follows F s id (buildStatement c s path targets builder).1 targets := by
  obtain ⟨hfst, hgrown, hblock, hlength, habove, hg, hlen⟩ := buildStatement_grown c s path id
    targets builder hn fun body _ => buildSequence_grown c body
  have hinner := hn
  obtain ⟨number, inner⟩ := hinner
  obtain ⟨hs, hnames, h⟩ := buildBranches_lays c (branches s) hb path 0 (id + 1)
    (innerTargets s builder.blocks.length targets)
    (builder.pushBlock (statementOperations c.eligible s id).1 .unreachable).2 inner
  refine ⟨statementHeaders s builder.blocks.length ++ hs, ?_, ?_⟩
  · rw [statementBindings_eq, List.map_append, List.map_append, hnames]
    simp [statementHeaders]
  intro F blocks hF hfinal hbelow hsafe hheaders
  have hpushed : (builder.pushBlock (statementOperations c.eligible s id).1
      .unreachable).2.blocks.length = builder.blocks.length + 1 := by
    simp [CfgBuilder.pushBlock]
  have hle := hg.le
  have hlens := hfinal.le
  have hcount := statementCount_eq s
  -- The statement's own block in the finished graph.
  have hown : blocks[builder.blocks.length]? = some ⟨builder.blocks.length,
      (statementOperations c.eligible s id).1, statementTerminator c s (buildBranches c (branches s)
        path 0 (innerTargets s builder.blocks.length targets)
        (builder.pushBlock (statementOperations c.eligible s id).1 .unreachable).2).1 targets⟩ := by
    rw [hfinal.kept _ (Nat.le_refl _) (by omega)]
    exact hblock
  have hpasses : ∀ t, t < blocks.length → t ∈ (statementTerminator c s (buildBranches c
      (branches s) path 0 (innerTargets s builder.blocks.length targets)
      (builder.pushBlock (statementOperations c.eligible s id).1 .unreachable).2).1
        targets).successors →
      F.Passes builder.blocks.length (statementOperations F.eligible s id).1 t := by
    intro t hlt ht state hstate
    rw [hF.eligible]
    exact hF.flows _ _ state hown hstate t ht hlt
  have hn' : builder.blocks.length ≤ blocks.length := by omega
  rw [hfst]
  refine .intro ?_ ?_ ?_ ?_ ?_ ?_ ?_
  · intro hid
    obtain ⟨b, block, state, hb, hstate, hel⟩ := hF.proven id hid
    rw [hF.eligible]
    -- A block that detaches for this statement lies in its range and is not one of its bodies'.
    by_cases hrange : builder.blocks.length ≤ b
        ∧ b < (buildStatement c s path targets builder).2.blocks.length
    · rcases Nat.eq_or_lt_of_le hrange.1 with rfl | hgt
      · rw [hown] at hb
        cases hb
        exact ⟨state, hstate, hel⟩
      · rw [hfinal.kept b hrange.1 hrange.2, habove b hgt] at hb
        have := (hg.fresh b block (by omega) hb).2 id state hel
        omega
    · have := hfinal.apart b block hb (by omega) id state hel
      omega
  · exact fun h' hm => hheaders h' (List.mem_append_left _ hm)
  · intro hs'
    have hnext := hbelow.next
    exact hpasses _ (by omega) (successors_next c s _ targets hlen hs')
  · rintro rfl t ht
    have := hbelow.breaks t ht
    refine hpasses t (by omega) ?_
    simp [statementTerminator, ht, Terminator.successors]
  · rintro rfl t ht
    have := hbelow.repeats t ht
    refine hpasses t (by omega) ?_
    simp [statementTerminator, ht, Terminator.successors]
  · rintro call rfl
    exact hsafe rfl
  · refine h F blocks hF ?_ ?_ ?_ (fun h' hm => hheaders h' (List.mem_append_right _ hm)) _ _
      fun t ht hlt => hpasses t hlt (successors_branches c s _ targets hlen t ht)
    · refine hfinal.part (by omega) (by omega) (fun i hi _ => habove i (by omega)) ?_ (by omega)
        (by omega)
      intro i block hi hout m state hm
      by_cases hib : i = builder.blocks.length
      · rw [hib, hblock] at hi
        cases hi
        have := eq_of_mem_elided hm
        omega
      · have := (List.getElem?_eq_some_iff.1 hi).1
        omega
    · rw [hpushed]
      unfold innerTargets
      split
      · have hnext := hbelow.next
        refine ⟨by dsimp only; omega, fun t ht => ?_, fun t ht => ?_⟩
        all_goals
          cases ht
          omega
      · exact hbelow.mono (Nat.le_succ _)
    · exact fun body hm hbody => hsafe (requiresSafeFallback_branch s body hm hbody)

theorem buildSequence_lays (body : List Statement) : Lays c body := by
  induction body using body_induct with
  | nil => exact fun _ _ _ _ _ _ => ⟨[], rfl, fun _ _ _ _ _ _ _ => .nil⟩
  | cons s rest hs hrest =>
    intro pathTo index id targets builder hn
    obtain _ | ⟨head, tail⟩ := hn
    obtain ⟨hs₁, hnames₁, h₁⟩ := hrest pathTo (index + 1) _ targets builder tail
    obtain ⟨hs₂, hnames₂, h₂⟩ := buildStatement_lays c s _ _ { targets with next :=
      (buildSequence c rest pathTo (index + 1) targets builder).1 }
      (buildSequence c rest pathTo (index + 1) targets builder).2 head hs
    have hg₁ := buildSequence_grown c rest _ _ _ targets builder tail
    have hg₂ := (buildStatement_grown c s _ _ { targets with next :=
      (buildSequence c rest pathTo (index + 1) targets builder).1 }
      (buildSequence c rest pathTo (index + 1) targets builder).2 head
      fun body _ => buildSequence_grown c body).2.1
    have hcount : bodyCount (s :: rest) = statementCount s + bodyCount rest := rfl
    have hle₁ := hg₁.le
    have hle₂ := hg₂.le
    refine ⟨hs₂ ++ hs₁, by simp [collectBindings, hnames₁, hnames₂], ?_⟩
    intro F blocks hF hfinal hbelow hsafe hheaders
    rw [bodyRequiresSafeFallback_cons] at hsafe
    simp only [Bool.or_eq_true] at hsafe
    have hlt := buildSequence_lt c rest _ _ _ targets builder tail hbelow.next
    simp only [buildSequence] at hfinal ⊢
    have htail : FollowsBody F rest (id + statementCount s)
        (buildSequence c rest pathTo (index + 1) targets builder).1 targets := by
      refine h₁ F blocks hF ?_ hbelow (fun h => hsafe (Or.inr h))
        fun h hm => hheaders h (List.mem_append_right _ hm)
      refine hfinal.part (Nat.le_refl _) hle₂ (fun i _ hi => hg₂.same i hi) ?_ (by omega)
        (by omega)
      intro i block hblock hout m state hm
      have := (hg₂.fresh i block (by omega) hblock).2 m state hm
      omega
    refine .cons htail ?_
    refine h₂ F blocks hF ?_ ⟨hlt, (hbelow.mono hle₁).breaks, (hbelow.mono hle₁).repeats⟩
      (fun h => hsafe (Or.inl h)) fun h hm => hheaders h (List.mem_append_left _ hm)
    refine hfinal.part hle₁ (Nat.le_refl _) (fun i _ _ => rfl) ?_ (Nat.le_refl _) (by omega)
    intro i block hblock hout m state hm
    by_cases hi : i < (buildSequence c rest pathTo (index + 1) targets builder).2.blocks.length
    · rw [hg₂.same i hi] at hblock
      have := (hg₁.fresh i block (by omega) hblock).2 m state hm
      omega
    · rw [List.getElem?_eq_none (by omega)] at hblock
      cases hblock

/-! ## Functions -/

/-- The targets of a function body. -/
def bodyTargets : Targets := { next := 0, breakTarget := none, continueTarget := none }

/-- What the analysis of a function gives: it covers the body from an entry state that claims
nothing, and a tracked name has a single header entry, which is none for a parameter. -/
structure Flow.Covers (F : Flow) (function : Function) : Prop where
  entry : ∃ b s, F.input b = some s ∧ (∀ x, ¬ Unique s x) ∧
    FollowsBody F function.body 0 b bodyTargets
  single : ∀ x ∈ F.eligible, ∀ h h', (x, h) ∈ F.headers → (x, h') ∈ F.headers → h = h'
  parameter : ∀ p ∈ function.params, (p.name, none) ∈ F.headers
  bound : ∀ x ∈ F.eligible, (function.params.map Parameter.name).count x
    + ((collectBindings function.body).map Prod.fst).count x ≤ 1

/-- **The analysis covers every function.** For any choice of tracked names that are bound once, and
any sublist of the stores proven for them. -/
theorem function_covered (function : Function) (eligible : List String) (proven : List Nat)
    (hnodup : eligible.Nodup)
    (hbound : ∀ x ∈ eligible, ((functionBindings function).map Prod.fst).count x ≤ 1)
    (hsafe : bodyRequiresSafeFallback function.body = true → eligible = [])
    (hproven : ∀ id ∈ proven, id ∈ (proveUniqueDetaches (buildCfg function eligible) eligible).2) :
    ∃ F : Flow, F.eligible = eligible ∧ F.proven = proven ∧ F.Covers function := by
  have hnum := assign_numbered.1 function.body [] 0 ⟨0, []⟩
    (assignStatementIds function.body [] 0 ⟨0, []⟩) fun _ _ _ => rfl
  obtain ⟨c, hc⟩ : ∃ c : CfgContext, c = ⟨eligible, assignStatementIds function.body [] 0 ⟨0, []⟩,
    0, 1⟩ := ⟨_, rfl⟩
  have hnumc : NumberedBody c.sites function.body [] 0 0 := by
    rw [hc]
    exact hnum
  obtain ⟨hs, hnames, hlays⟩ := buildSequence_lays c function.body [] 0 0 bodyTargets .initial hnumc
  have hgrown := buildSequence_grown c function.body [] 0 0 bodyTargets .initial hnumc
  have hlt := buildSequence_lt c function.body [] 0 0 bodyTargets .initial hnumc (by decide)
  have hcfg : buildCfg function eligible = { function := qualifiedFunctionName function, entry :=
      (buildSequence c function.body [] 0 bodyTargets .initial).1, exit := 0, panicExit := 1, blocks :=
      (buildSequence c function.body [] 0 bodyTargets .initial).2.blocks, panicEdges :=
      (buildSequence c function.body [] 0 bodyTargets .initial).2.panicEdges } := by
    rw [hc]
    rfl
  have hblock : ∀ b block, (buildCfg function eligible).blocks[b]? = some block →
      (buildCfg function eligible).block b = block := by
    intro b block hb
    simp [FunctionCfg.block, hb]
  have hid (i : Nat) (block : BasicBlock) :
      (buildCfg function eligible).blocks[i]? = some block →
        block.id = i ∧ (i < 2 → block.operations = []) := by
    intro hi
    rw [hcfg] at hi
    by_cases hlow : i < CfgBuilder.initial.blocks.length
    · rw [hgrown.same i hlow] at hi
      match i, hi with
      | 0, hi =>
        cases hi
        exact ⟨rfl, fun _ => rfl⟩
      | 1, hi =>
        cases hi
        exact ⟨rfl, fun _ => rfl⟩
      | i + 2, hi => simp [CfgBuilder.initial] at hi
    · refine ⟨(hgrown.fresh i block (Nat.le_of_not_lt hlow) hi).1, fun h2 => ?_⟩
      simp only [CfgBuilder.initial, List.length_cons, List.length_nil] at hlow
      omega
  obtain ⟨-, ⟨s, hs0, hentry⟩, hflows⟩ := inStates_spec (buildCfg function eligible) eligible hnodup
    (by rw [hcfg]; exact hlt)
  let F : Flow := ⟨eligible, proven,
    function.params.map (fun p : Parameter => (p.name, none)) ++ hs,
    ((buildCfg function eligible).inStates eligible).input⟩
  have hOf : F.Of c (buildCfg function eligible).blocks := by
    refine ⟨by rw [hc], fun b block state hb hstate t ht hlt => ?_, fun id hmem => ?_⟩
    · have := hflows b state hstate t (by rw [hblock b block hb]; exact ht) hlt
      rwa [hblock b block hb] at this
    obtain ⟨block, hblock, state, hstate, hel⟩ := proven_spec _ eligible id (hproven id hmem)
    obtain ⟨b, hb⟩ := List.getElem?_of_mem hblock
    rw [(hid b block hb).1] at hstate
    exact ⟨b, block, state, hb, hstate, hel⟩
  have hfinal : Final (buildCfg function eligible).blocks .initial
      (buildSequence c function.body [] 0 bodyTargets .initial).2 0 (0 + bodyCount function.body) := by
    have hblocks : (buildCfg function eligible).blocks
        = (buildSequence c function.body [] 0 bodyTargets .initial).2.blocks := by
      rw [hcfg]
    refine ⟨by rw [hblocks], fun i _ _ => by rw [hblocks], fun i block hi hout k state hk => ?_⟩
    rcases hout with hlow | hhigh
    · rw [(hid i block hi).2 hlow] at hk
      simp [elided, elideDetaches] at hk
    · rw [hblocks, List.getElem?_eq_none hhigh] at hi
      cases hi
  have hheaders : F.headers.map Prod.fst = (functionBindings function).map Prod.fst := by
    show (function.params.map (fun p : Parameter => (p.name, none)) ++ hs).map Prod.fst = _
    simp [functionBindings, hnames, Function.comp_def]
  refine ⟨F, rfl, rfl, ?_⟩
  refine { entry := ⟨_, s, hs0, hentry, ?_⟩, single := ?_, parameter := ?_, bound := ?_ }
  · have hentryBlock : (buildCfg function eligible).entry
        = (buildSequence c function.body [] 0 bodyTargets .initial).1 := by
      rw [hcfg]
    rw [hentryBlock]
    refine hlays F _ hOf hfinal ⟨by decide, by simp [bodyTargets], by simp [bodyTargets]⟩ hsafe ?_
    exact fun h hm => List.mem_append_right _ hm
  · intro x hx h h' hm hm'
    refine eq_of_count_le_one F.headers x h h' ?_ hm hm'
    rw [hheaders]
    exact hbound x hx
  · intro p hp
    exact List.mem_append_left _ (List.mem_map_of_mem (f := fun p : Parameter => (p.name, none)) hp)
  · intro x hx
    have := hbound x hx
    simpa [functionBindings, Function.comp_def] using this

theorem eligible_bound (function : Function) :
    (eligibleFlatArrayBindings function).Nodup ∧
    (∀ x ∈ eligibleFlatArrayBindings function,
      ((functionBindings function).map Prod.fst).count x ≤ 1) ∧
    (bodyRequiresSafeFallback function.body = true → eligibleFlatArrayBindings function = []) := by
  by_cases hs : bodyRequiresSafeFallback function.body = true
  · simp [eligibleFlatArrayBindings, hs]
  simp only [eligibleFlatArrayBindings, if_neg hs]
  refine ⟨List.nodup_iff_count.2 fun x => ?_, fun x hx => ?_, fun h => absurd h hs⟩
  · by_cases hx : x ∈ (((functionBindings function).filter isFlatRecord).map Prod.fst).filter
        fun name => ((functionBindings function).map Prod.fst).count name = 1
    · have hone : ((functionBindings function).map Prod.fst).count x = 1 := by
        simpa using (List.mem_filter.1 hx).2
      have h1 := List.Sublist.count_le x (List.filter_sublist (l :=
        ((functionBindings function).filter isFlatRecord).map Prod.fst)
        (p := fun name => ((functionBindings function).map Prod.fst).count name = 1))
      have h2 := List.Sublist.count_le x
        ((List.filter_sublist (l := functionBindings function) (p := isFlatRecord)).map Prod.fst)
      omega
    · rw [List.count_eq_zero_of_not_mem hx]
      exact Nat.zero_le _
  · have := (List.mem_filter.1 hx).2
    have hone : ((functionBindings function).map Prod.fst).count x = 1 := by simpa using this
    omega

end Nomo.Mir
