import Nomo.Mir.Optimize

/-!
# Statements as trees of bodies

Every traversal of the optimiser treats the bodies nested in a statement alike: it numbers, builds
or annotates them one after the other.  `branches` lists these bodies, and the lemmas of this file
state each traversal in terms of it, so that a property of bodies is proved by `body_induct` with a
single case for all statements.
-/

namespace Nomo.Mir

open Nomo.Ir

/-- The bodies nested in a statement, in source order. -/
def branches : Statement → List (List Statement)
  | .letIf _ _ _ body elseBody | .ifThenElse _ body elseBody
  | .ifLet _ _ _ _ body (some elseBody) => [body, elseBody]
  | .letMatch _ _ _ _ arms | .matchOn _ _ arms => arms.map MatchStatementArm.body
  | .letElse _ _ _ _ body | .ifLet _ _ _ _ body none | .loop _ body => [body]
  | .taskSelect arms => arms.map TaskSelectArm.body
  | _ => []

theorem sizeOf_matchArms (arms : List MatchStatementArm) (body : List Statement)
    (h : body ∈ arms.map MatchStatementArm.body) : sizeOf body < sizeOf arms := by
  induction arms with
  | nil => simp at h
  | cons arm arms ih =>
    obtain ⟨variant, binding, b⟩ := arm
    rcases List.mem_cons.1 h with rfl | h
    · simp
      omega
    · have := ih h
      simp
      omega

theorem sizeOf_selectArms (arms : List TaskSelectArm) (body : List Statement)
    (h : body ∈ arms.map TaskSelectArm.body) : sizeOf body < sizeOf arms := by
  induction arms with
  | nil => simp at h
  | cons arm arms ih =>
    obtain ⟨operation, binding, t, b⟩ := arm
    rcases List.mem_cons.1 h with rfl | h
    · simp
      omega
    · have := ih h
      simp
      omega

theorem sizeOf_branches (s : Statement) (body : List Statement) (h : body ∈ branches s) :
    sizeOf body < sizeOf s := by
  cases s with
  | letMatch name t value enumName arms | matchOn value enumName arms =>
    have := sizeOf_matchArms arms body h
    simp
    omega
  | taskSelect arms =>
    have := sizeOf_selectArms arms body h
    simp
    omega
  | letIf name t condition a b | ifThenElse condition a b =>
    rcases List.mem_cons.1 h with rfl | h
    · simp
      omega
    · rw [List.mem_singleton.1 h]
      simp
  | ifLet binding t value variant a elseBody =>
    cases elseBody with
    | none =>
      rw [List.mem_singleton.1 h]
      simp
    | some b =>
      rcases List.mem_cons.1 h with rfl | h
      · simp
        omega
      · rw [List.mem_singleton.1 h]
        simp
        omega
  | letElse binding t value variant a | loop kind a =>
    rw [List.mem_singleton.1 h]
    simp
  | _ => simp [branches] at h

theorem body_induct {P : List Statement → Prop} (nil : P [])
    (cons : ∀ s rest, (∀ body ∈ branches s, P body) → P rest → P (s :: rest)) :
    ∀ body, P body
  | [] => nil
  | s :: rest =>
    cons s rest (fun body h => by
      have := sizeOf_branches s body h
      exact body_induct nil cons body) (body_induct nil cons rest)
termination_by body => sizeOf body
decreasing_by
  · simp
    omega
  · simp

/-- Induction over bodies and lists of bodies together. -/
theorem traverse_induct {P : List Statement → Prop} {Q : List (List Statement) → Prop} (nil : P [])
    (cons : ∀ s rest, Q (branches s) → P rest → P (s :: rest)) (none : Q [])
    (more : ∀ body rest, P body → Q rest → Q (body :: rest)) :
    (∀ body, P body) ∧ ∀ bodies, Q bodies := by
  have hbodies (bodies) : (∀ body ∈ bodies, P body) → Q bodies := by
    induction bodies with
    | nil => exact fun _ => none
    | cons body bodies ih =>
      exact fun h => more _ _ (h body (by simp)) (ih fun b hb => h b (List.mem_cons_of_mem _ hb))
  have hbody : ∀ body, P body := body_induct nil fun s rest hs => cons s rest (hbodies _ hs)
  exact ⟨hbody, fun bodies => hbodies _ fun body _ => hbody body⟩

/-! ## Numbers of statements -/

mutual

/-- The number of statements in a statement, itself included. -/
def statementCount : Statement → Nat
  | .letIf _ _ _ body elseBody | .ifThenElse _ body elseBody
  | .ifLet _ _ _ _ body (some elseBody) => 1 + (bodyCount body + bodyCount elseBody)
  | .letMatch _ _ _ _ arms | .matchOn _ _ arms => 1 + armsCount arms
  | .letElse _ _ _ _ body | .ifLet _ _ _ _ body none | .loop _ body => 1 + bodyCount body
  | .taskSelect arms => 1 + selectCount arms
  | _ => 1

/-- The number of statements in a body. -/
def bodyCount : List Statement → Nat
  | [] => 0
  | s :: rest => statementCount s + bodyCount rest

/-- The number of statements in match arms. -/
def armsCount : List MatchStatementArm → Nat
  | [] => 0
  | ⟨_, _, body⟩ :: arms => bodyCount body + armsCount arms

/-- The number of statements in select arms. -/
def selectCount : List TaskSelectArm → Nat
  | [] => 0
  | ⟨_, _, _, body⟩ :: arms => bodyCount body + selectCount arms

end

/-- The number of statements in a list of bodies. -/
def branchesCount (bodies : List (List Statement)) : Nat := (bodies.map bodyCount).sum

theorem armsCount_eq (arms : List MatchStatementArm) :
    armsCount arms = branchesCount (arms.map MatchStatementArm.body) := by
  induction arms with
  | nil => rfl
  | cons arm arms ih =>
    obtain ⟨variant, binding, body⟩ := arm
    simp only [armsCount, ih, branchesCount, List.map_cons, List.sum_cons]
    rfl

theorem selectCount_eq (arms : List TaskSelectArm) :
    selectCount arms = branchesCount (arms.map TaskSelectArm.body) := by
  induction arms with
  | nil => rfl
  | cons arm arms ih =>
    obtain ⟨operation, binding, t, body⟩ := arm
    simp only [selectCount, ih, branchesCount, List.map_cons, List.sum_cons]
    rfl

theorem statementCount_eq (s : Statement) :
    statementCount s = 1 + branchesCount (branches s) := by
  cases s with
  | letMatch name t value enumName arms | matchOn value enumName arms =>
    simp [statementCount, branches, armsCount_eq]
  | taskSelect arms => simp [statementCount, branches, selectCount_eq]
  | ifLet binding t value variant body elseBody =>
    cases elseBody <;> simp [statementCount, branches, branchesCount]
  | _ => simp [statementCount, branches, branchesCount]

/-- Number the statements of a list of bodies. -/
def assignBranches : List (List Statement) → StatementPath → Nat → Sites → Sites
  | [], _, _, sites => sites
  | body :: rest, path, branch, sites =>
    assignBranches rest path (branch + 1)
      (assignStatementIds body (path ++ [.branch branch]) 0 sites)

theorem assignChildIds_eq (s : Statement) (path : StatementPath) (sites : Sites) :
    assignChildIds s path sites = assignBranches (branches s) path 0 sites := by
  have harms : ∀ (arms : List MatchStatementArm) k sites, assignArmIds arms path k sites
      = assignBranches (arms.map MatchStatementArm.body) path k sites := by
    intro arms
    induction arms with
    | nil => exact fun _ _ => rfl
    | cons arm arms ih =>
      obtain ⟨variant, binding, body⟩ := arm
      exact fun k sites => ih _ _
  have hselect : ∀ (arms : List TaskSelectArm) k sites, assignSelectIds arms path k sites
      = assignBranches (arms.map TaskSelectArm.body) path k sites := by
    intro arms
    induction arms with
    | nil => exact fun _ _ => rfl
    | cons arm arms ih =>
      obtain ⟨operation, binding, t, body⟩ := arm
      exact fun k sites => ih _ _
  cases s with
  | letMatch name t value enumName arms | matchOn value enumName arms => exact harms arms 0 sites
  | taskSelect arms => exact hselect arms 0 sites
  | ifLet binding t value variant body elseBody => cases elseBody <;> rfl
  | _ => rfl

theorem assign_next :
    (∀ body pathTo index sites, (assignStatementIds body pathTo index sites).next
      = sites.next + bodyCount body) ∧
    ∀ bodies path k sites, (assignBranches bodies path k sites).next
      = sites.next + branchesCount bodies := by
  refine traverse_induct (fun _ _ _ => rfl) (fun s rest hs hrest pathTo index sites => ?_)
    (fun _ _ _ => rfl) fun body rest hbody hrest path k sites => ?_
  · rw [assignStatementIds, hrest, assignChildIds_eq, hs, bodyCount, statementCount_eq]
    dsimp only
    omega
  · rw [assignBranches, hrest, hbody]
    simp only [branchesCount, List.map_cons, List.sum_cons]
    omega

theorem assignChildIds_next (s : Statement) (path : StatementPath) (sites : Sites) :
    (assignChildIds s path sites).next + 1 = sites.next + statementCount s := by
  rw [assignChildIds_eq, assign_next.2, statementCount_eq]
  omega

/-- Annotating counts the same statements. -/
def Counts (proven : List Nat) (body : List Statement) : Prop :=
  ∀ next, (annotateBody proven body next).2 = next + bodyCount body

theorem annotateChildren_counts (proven : List Nat) (s : Statement)
    (hs : ∀ body ∈ branches s, Counts proven body) (next : Nat) :
    (annotateChildren proven s (next + 1)).2 = next + statementCount s := by
  have harms (arms : List MatchStatementArm) :
      (∀ body ∈ arms.map MatchStatementArm.body, body ∈ branches s) →
      ∀ next, (annotateArms proven arms next).2 = next + armsCount arms := by
    induction arms with
    | nil => exact fun _ _ => rfl
    | cons arm arms ih =>
      obtain ⟨variant, binding, body⟩ := arm
      intro hmem next
      simp only [annotateArms, armsCount]
      rw [ih (fun b hb => hmem b (List.mem_cons_of_mem _ hb)),
        hs body (hmem body (by simp [MatchStatementArm.body]))]
      omega
  have hselect (arms : List TaskSelectArm) :
      (∀ body ∈ arms.map TaskSelectArm.body, body ∈ branches s) →
      ∀ next, (annotateSelectArms proven arms next).2 = next + selectCount arms := by
    induction arms with
    | nil => exact fun _ _ => rfl
    | cons arm arms ih =>
      obtain ⟨operation, binding, t, body⟩ := arm
      intro hmem next
      simp only [annotateSelectArms, selectCount]
      rw [ih (fun b hb => hmem b (List.mem_cons_of_mem _ hb)),
        hs body (hmem body (by simp [TaskSelectArm.body]))]
      omega
  cases s with
  | letMatch name t value enumName arms | matchOn value enumName arms =>
    simp only [annotateChildren, statementCount]
    rw [harms arms fun _ h => h]
    omega
  | taskSelect arms =>
    simp only [annotateChildren, statementCount]
    rw [hselect arms fun _ h => h]
    omega
  | letIf name t condition a b | ifThenElse condition a b =>
    simp only [annotateChildren, statementCount]
    rw [hs b (by simp [branches]), hs a (by simp [branches])]
    omega
  | ifLet binding t value variant a elseBody =>
    cases elseBody with
    | none =>
      simp only [annotateChildren, statementCount]
      rw [hs a (by simp [branches])]
      omega
    | some b =>
      simp only [annotateChildren, statementCount]
      rw [hs b (by simp [branches]), hs a (by simp [branches])]
      omega
  | letElse binding t value variant a | loop kind a =>
    simp only [annotateChildren, statementCount]
    rw [hs a (by simp [branches])]
    omega
  | _ => rfl

theorem annotateBody_counts (proven : List Nat) (body : List Statement) : Counts proven body := by
  induction body using body_induct with
  | nil => exact fun _ => rfl
  | cons s rest hs hrest =>
    intro next
    simp only [annotateBody, bodyCount]
    rw [hrest, annotateChildren_counts proven s hs]
    omega

/-- What `annotateBody` makes of the statement with number `id`. -/
def annotateStatement (proven : List Nat) (s : Statement) (id : Nat) : Statement :=
  annotateMode (id ∈ proven) (annotateChildren proven s (id + 1)).1

theorem annotateBody_cons (proven : List Nat) (s : Statement) (rest : List Statement) (id : Nat) :
    (annotateBody proven (s :: rest) id).1 = annotateStatement proven s id ::
      (annotateBody proven rest (id + statementCount s)).1 := by
  simp only [annotateBody, annotateStatement]
  rw [annotateChildren_counts proven s fun body _ => annotateBody_counts proven body]

/-! ## Bindings -/

theorem statementBindings_eq (s : Statement) :
    statementBindings s = ownBindings s ++ (branches s).flatMap collectBindings := by
  have harms (arms : List MatchStatementArm) : collectArmBindings arms
      = (arms.map MatchStatementArm.body).flatMap collectBindings := by
    induction arms with
    | nil => rfl
    | cons arm arms ih =>
      obtain ⟨variant, binding, body⟩ := arm
      simp only [collectArmBindings, ih]
      rfl
  have hselect (arms : List TaskSelectArm) : collectSelectBindings arms
      = (arms.map TaskSelectArm.body).flatMap collectBindings := by
    induction arms with
    | nil => rfl
    | cons arm arms ih =>
      obtain ⟨operation, binding, t, body⟩ := arm
      simp only [collectSelectBindings, ih]
      rfl
  cases s with
  | letMatch name t value enumName arms | matchOn value enumName arms =>
    simp [statementBindings, branches, harms]
  | taskSelect arms => simp [statementBindings, branches, hselect]
  | ifLet binding t value variant body elseBody =>
    cases elseBody <;> simp [statementBindings, branches]
  | _ => simp [statementBindings, branches]

/-! ## The fallback -/

theorem bodyRequiresSafeFallback_cons (s : Statement) (rest : List Statement) :
    bodyRequiresSafeFallback (s :: rest)
      = (requiresSafeFallback s || bodyRequiresSafeFallback rest) := rfl

theorem requiresSafeFallback_branch (s : Statement) (body : List Statement) (h : body ∈ branches s)
    (hb : bodyRequiresSafeFallback body = true) : requiresSafeFallback s = true := by
  have harms (arms : List MatchStatementArm) : body ∈ arms.map MatchStatementArm.body →
      armsRequireSafeFallback arms = true := by
    induction arms with
    | nil => simp
    | cons arm arms ih =>
      obtain ⟨variant, binding, b⟩ := arm
      intro hm
      rcases List.mem_cons.1 hm with rfl | hm
      · simp only [armsRequireSafeFallback, Bool.or_eq_true]
        exact Or.inl hb
      · simp only [armsRequireSafeFallback, Bool.or_eq_true]
        exact Or.inr (ih hm)
  cases s with
  | letMatch name t value enumName arms | matchOn value enumName arms => exact harms arms h
  | taskSelect arms => rfl
  | letIf name t condition a b | ifThenElse condition a b =>
    rcases List.mem_cons.1 h with rfl | h
    · simp [requiresSafeFallback, hb]
    · rw [List.mem_singleton.1 h] at hb
      simp [requiresSafeFallback, hb]
  | ifLet binding t value variant a elseBody =>
    cases elseBody with
    | none =>
      rw [List.mem_singleton.1 h] at hb
      simpa [requiresSafeFallback] using hb
    | some b =>
      rcases List.mem_cons.1 h with rfl | h
      · simp [requiresSafeFallback, hb]
      · rw [List.mem_singleton.1 h] at hb
        simp [requiresSafeFallback, hb]
  | letElse binding t value variant a | loop kind a =>
    rw [List.mem_singleton.1 h] at hb
    simpa [requiresSafeFallback] using hb
  | _ => simp [branches] at h

/-! ## The blocks of a statement -/

/-- The blocks of a list of bodies. -/
def buildBranches (c : CfgContext) :
    List (List Statement) → StatementPath → Nat → Targets → CfgBuilder → List Nat × CfgBuilder
  | [], _, _, _, builder => ([], builder)
  | body :: rest, path, branch, targets, builder =>
    let (block, builder) := buildSequence c body (path ++ [PathStep.branch branch]) 0 targets builder
    let (blocks, builder) := buildBranches c rest path (branch + 1) targets builder
    (block :: blocks, builder)

/-- Where control goes after the bodies of a statement whose block is `block`. -/
def innerTargets (s : Statement) (block : Nat) (targets : Targets) : Targets :=
  match s with
  | .loop _ _ =>
    { next := block, breakTarget := some targets.next, continueTarget := some block }
  | _ => targets

/-- The terminator of a statement's block, given the blocks of its bodies. -/
def statementTerminator (c : CfgContext) (s : Statement) (blocks : List Nat) (targets : Targets) :
    Terminator :=
  match s, blocks with
  | .letIf .., [thenBlock, elseBlock] | .ifThenElse .., [thenBlock, elseBlock]
  | .ifLet _ _ _ _ _ (some _), [thenBlock, elseBlock] => .branch thenBlock elseBlock
  | .letMatch .., blocks | .matchOn .., blocks | .taskSelect _, blocks => .switch blocks
  | .letElse .., [elseBlock] => .branch targets.next elseBlock
  | .ifLet _ _ _ _ _ none, [thenBlock] => .branch thenBlock targets.next
  | .loop .infinite _, [bodyEntry] => .goto bodyEntry
  | .loop _ _, [bodyEntry] => .branch bodyEntry targets.next
  | .breakLoop, _ => targets.breakTarget.elim .unreachable .goto
  | .continueLoop, _ => targets.continueTarget.elim .unreachable .goto
  | .returnValue _, _ | .questionReturn .., _ => .returned
  | .panic _, _ => .panic
  | .questionLet .., _ => .branch targets.next c.exit
  | _, _ => .goto targets.next

theorem buildStatement_eq (c : CfgContext) (s : Statement) (path : StatementPath)
    (targets : Targets) (builder : CfgBuilder) :
    buildStatement c s path targets builder =
      let (operations, panicKinds) := statementOperations c.eligible s (c.sites.id path)
      let (block, builder) := builder.pushBlock operations .unreachable
      let (blocks, builder) :=
        buildBranches c (branches s) path 0 (innerTargets s block targets) builder
      (block, (builder.setTerminator block (statementTerminator c s blocks targets)).addPanicEdges
        c.panicExit block panicKinds) := by
  have harms : ∀ (arms : List MatchStatementArm) k targets builder, buildArms c arms path k targets builder
        = buildBranches c (arms.map MatchStatementArm.body) path k targets builder := by
    intro arms
    induction arms with
    | nil => exact fun _ _ _ => rfl
    | cons arm arms ih =>
      obtain ⟨variant, binding, body⟩ := arm
      intro k targets builder
      simp only [buildArms, ih]
      rfl
  have hselect : ∀ (arms : List TaskSelectArm) k targets builder,
      buildSelectArms c arms path k targets builder
        = buildBranches c (arms.map TaskSelectArm.body) path k targets builder := by
    intro arms
    induction arms with
    | nil => exact fun _ _ _ => rfl
    | cons arm arms ih =>
      obtain ⟨operation, binding, t, body⟩ := arm
      intro k targets builder
      simp only [buildSelectArms, ih]
      rfl
  cases s with
  | letMatch name t value enumName arms | matchOn value enumName arms =>
    simp only [buildStatement, harms]; rfl
  | taskSelect arms => simp only [buildStatement, hselect]; rfl
  | ifLet binding t value variant body elseBody =>
    cases elseBody <;> simp only [buildStatement] <;> rfl
  | loop kind body => cases kind <;> simp only [buildStatement] <;> rfl
  | _ => simp only [buildStatement]; rfl

end Nomo.Mir
