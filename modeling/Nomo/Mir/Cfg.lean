import Nomo.Mir.Operations

/-!
# The control-flow graph of a function

`CfgBuilder` (`nomo_mir/src/lib.rs:574–1043`): which variables are tracked, the numbering of
statements by their path, and the graph itself, built from the last statement of a body to the
first so that every statement knows the block that follows it.
-/

namespace Nomo.Mir

open Nomo.Ir

/-! ## Tracked variables -/

mutual

/-- `body_requires_safe_fallback` for one statement: it, or a statement in it, defers a call or
selects. -/
def requiresSafeFallback : Statement → Bool
  | .defer _ | .taskSelect _ => true
  | .letIf _ _ _ body elseBody | .ifThenElse _ body elseBody =>
    bodyRequiresSafeFallback body || bodyRequiresSafeFallback elseBody
  | .letMatch _ _ _ _ arms | .matchOn _ _ arms => armsRequireSafeFallback arms
  | .letElse _ _ _ _ elseBody => bodyRequiresSafeFallback elseBody
  | .ifLet _ _ _ _ body none => bodyRequiresSafeFallback body
  | .ifLet _ _ _ _ body (some elseBody) =>
    bodyRequiresSafeFallback body || bodyRequiresSafeFallback elseBody
  | .loop _ body => bodyRequiresSafeFallback body
  | _ => false

/-- `body_requires_safe_fallback`. -/
def bodyRequiresSafeFallback : List Statement → Bool
  | [] => false
  | statement :: rest => requiresSafeFallback statement || bodyRequiresSafeFallback rest

/-- `body_requires_safe_fallback` over the bodies of match arms. -/
def armsRequireSafeFallback : List MatchStatementArm → Bool
  | [] => false
  | ⟨_, _, body⟩ :: arms => bodyRequiresSafeFallback body || armsRequireSafeFallback arms

end

/-- A name that `record_binding` is called with, and the type it is given. -/
abbrev BindingRecord := String × Option ValueType

/-- The bindings of match arms, which are recorded without a type. -/
def armBindings : List MatchStatementArm → List BindingRecord
  | [] => []
  | ⟨_, some binding, _⟩ :: arms => (binding, none) :: armBindings arms
  | ⟨_, none, _⟩ :: arms => armBindings arms

/-- The bindings a statement itself introduces. -/
def ownBindings : Statement → List BindingRecord
  | .letBind name valueType _ | .letIf name valueType _ _ _ | .questionLet _ name valueType _ _ =>
    [(name, some valueType)]
  | .letMatch name valueType _ _ arms => (name, some valueType) :: armBindings arms
  | .letElse binding valueType _ _ _ => [(binding, some valueType)]
  | .ifLet (some binding) valueType _ _ _ _ => [(binding, valueType)]
  | .loop (.cStyle binding valueType _ _ _) _ => [(binding, some valueType)]
  | .loop (.iterate binding elementType _) _ => [(binding, some elementType)]
  | .matchOn _ _ arms => armBindings arms
  | .taskSelect arms => arms.map fun ⟨_, binding, bindingType, _⟩ => (binding, some bindingType)
  | _ => []

mutual

/-- The calls of `record_binding` that `collect_binding_names` makes for one statement
(`lib.rs:683–789`). -/
def statementBindings : Statement → List BindingRecord
  | statement@(.letIf _ _ _ body elseBody) | statement@(.ifThenElse _ body elseBody) =>
    ownBindings statement ++ (collectBindings body ++ collectBindings elseBody)
  | statement@(.letMatch _ _ _ _ arms) | statement@(.matchOn _ _ arms) =>
    ownBindings statement ++ collectArmBindings arms
  | statement@(.letElse _ _ _ _ elseBody) => ownBindings statement ++ collectBindings elseBody
  | statement@(.ifLet _ _ _ _ body none) => ownBindings statement ++ collectBindings body
  | statement@(.ifLet _ _ _ _ body (some elseBody)) =>
    ownBindings statement ++ (collectBindings body ++ collectBindings elseBody)
  | statement@(.taskSelect arms) => ownBindings statement ++ collectSelectBindings arms
  | statement@(.loop _ body) => ownBindings statement ++ collectBindings body
  | statement => ownBindings statement

/-- `collect_binding_names`. -/
def collectBindings : List Statement → List BindingRecord
  | [] => []
  | statement :: rest => statementBindings statement ++ collectBindings rest

/-- `collect_binding_names` over the bodies of match arms. -/
def collectArmBindings : List MatchStatementArm → List BindingRecord
  | [] => []
  | ⟨_, _, body⟩ :: arms => collectBindings body ++ collectArmBindings arms

/-- `collect_binding_names` over the bodies of select arms. -/
def collectSelectBindings : List TaskSelectArm → List BindingRecord
  | [] => []
  | ⟨_, _, _, body⟩ :: arms => collectBindings body ++ collectSelectBindings arms

end

/-- Every binding of a function, parameters first. -/
def functionBindings (function : Function) : List BindingRecord :=
  function.params.map (fun parameter => (parameter.name, some parameter.valueType))
    ++ collectBindings function.body

/-- Whether a binding is recorded as a flat array. -/
def isFlatRecord (record : BindingRecord) : Bool := record.2.elim false isFlatPodArray

/-- `eligible_flat_array_bindings`: the flat arrays of a function whose name is bound once. -/
def eligibleFlatArrayBindings (function : Function) : List String :=
  if bodyRequiresSafeFallback function.body then []
  else
    let records := functionBindings function
    ((records.filter isFlatRecord).map Prod.fst).filter fun name =>
      (records.map Prod.fst).count name = 1

/-! ## Statement numbers -/

/-- A step of a statement path. -/
inductive PathStep where
  | statement (index : Nat)
  | branch (index : Nat)
deriving DecidableEq, Repr

/-- The place of a statement in a function body. -/
abbrev StatementPath := List PathStep

/-- The numbers given out so far. -/
structure Sites where
  next : Nat
  entries : List (StatementPath × Nat)

mutual

/-- Number the statements of a body in source order, children after their parent
(`assign_statement_ids`). -/
def assignStatementIds : List Statement → StatementPath → Nat → Sites → Sites
  | [], _, _, sites => sites
  | statement :: rest, pathTo, index, sites =>
    let path := pathTo ++ [.statement index]
    assignStatementIds rest pathTo (index + 1)
      (assignChildIds statement path
        { next := sites.next + 1, entries := (path, sites.next) :: sites.entries })

/-- Number the statements inside a statement, one branch after the other. -/
def assignChildIds : Statement → StatementPath → Sites → Sites
  | .letIf _ _ _ body elseBody, path, sites | .ifThenElse _ body elseBody, path, sites =>
    assignStatementIds elseBody (path ++ [.branch 1]) 0
      (assignStatementIds body (path ++ [.branch 0]) 0 sites)
  | .letMatch _ _ _ _ arms, path, sites | .matchOn _ _ arms, path, sites =>
    assignArmIds arms path 0 sites
  | .letElse _ _ _ _ elseBody, path, sites =>
    assignStatementIds elseBody (path ++ [.branch 0]) 0 sites
  | .ifLet _ _ _ _ body none, path, sites =>
    assignStatementIds body (path ++ [.branch 0]) 0 sites
  | .ifLet _ _ _ _ body (some elseBody), path, sites =>
    assignStatementIds elseBody (path ++ [.branch 1]) 0
      (assignStatementIds body (path ++ [.branch 0]) 0 sites)
  | .taskSelect arms, path, sites => assignSelectIds arms path 0 sites
  | .loop _ body, path, sites => assignStatementIds body (path ++ [.branch 0]) 0 sites
  | _, _, sites => sites

/-- Number the statements of match arms. -/
def assignArmIds : List MatchStatementArm → StatementPath → Nat → Sites → Sites
  | [], _, _, sites => sites
  | ⟨_, _, body⟩ :: arms, path, branch, sites =>
    assignArmIds arms path (branch + 1)
      (assignStatementIds body (path ++ [.branch branch]) 0 sites)

/-- Number the statements of select arms. -/
def assignSelectIds : List TaskSelectArm → StatementPath → Nat → Sites → Sites
  | [], _, _, sites => sites
  | ⟨_, _, _, body⟩ :: arms, path, branch, sites =>
    assignSelectIds arms path (branch + 1)
      (assignStatementIds body (path ++ [.branch branch]) 0 sites)

end

/-- `self.sites[path]`. -/
def Sites.id (sites : Sites) (path : StatementPath) : Nat := (sites.entries.lookup path).getD 0

/-! ## Blocks -/

/-- How a block ends. -/
inductive Terminator where
  | goto (target : Nat)
  | branch (thenBlock elseBlock : Nat)
  | switch (targets : List Nat)
  | returned
  | panic
  | unreachable
deriving DecidableEq, Repr

/-- `Terminator::successors`. -/
def Terminator.successors : Terminator → List Nat
  | .goto target => [target]
  | .branch thenBlock elseBlock => [thenBlock, elseBlock]
  | .switch targets => targets
  | .returned | .panic | .unreachable => []

/-- A basic block. -/
structure BasicBlock where
  id : Nat
  operations : List Operation
  terminator : Terminator
deriving DecidableEq, Repr

/-- An edge to the panic exit. -/
structure PanicEdge where
  source : Nat
  target : Nat
  kind : PanicKind
deriving DecidableEq, Repr

/-- The graph of a function. -/
structure FunctionCfg where
  function : String
  entry : Nat
  exit : Nat
  panicExit : Nat
  blocks : List BasicBlock
  panicEdges : List PanicEdge
deriving DecidableEq, Repr

/-- What stays fixed while a graph is built. -/
structure CfgContext where
  eligible : List String
  sites : Sites
  exit : Nat
  panicExit : Nat

/-- The part of a graph that has been built. -/
structure CfgBuilder where
  blocks : List BasicBlock
  panicEdges : List PanicEdge

namespace CfgBuilder

/-- `push_block`. -/
def pushBlock (builder : CfgBuilder) (operations : List Operation) (terminator : Terminator) :
    Nat × CfgBuilder :=
  (builder.blocks.length,
    { builder with blocks := builder.blocks ++ [⟨builder.blocks.length, operations, terminator⟩] })

/-- `add_panic_edges`. -/
def addPanicEdges (builder : CfgBuilder) (panicExit source : Nat) (kinds : List PanicKind) :
    CfgBuilder :=
  { builder with panicEdges := builder.panicEdges ++ kinds.map fun kind =>
      { source := source, target := panicExit, kind := kind } }

/-- Set the terminator of a block. -/
def setTerminator (builder : CfgBuilder) (block : Nat) (terminator : Terminator) : CfgBuilder :=
  { builder with blocks := builder.blocks.modify block fun b => { b with terminator := terminator } }

end CfgBuilder

/-- Where control goes after a statement, and where `break` and `continue` go. -/
structure Targets where
  next : Nat
  breakTarget : Option Nat
  continueTarget : Option Nat

mutual

/-- `build_sequence`, from the statement at `index` on: the block of the first statement. -/
def buildSequence (c : CfgContext) :
    List Statement → StatementPath → Nat → Targets → CfgBuilder → Nat × CfgBuilder
  | [], _, _, targets, builder => (targets.next, builder)
  | statement :: rest, pathTo, index, targets, builder =>
    let (successor, builder) := buildSequence c rest pathTo (index + 1) targets builder
    buildStatement c statement (pathTo ++ [PathStep.statement index]) { targets with next := successor }
      builder

/-- `build_statement` (`lib.rs:889–1027`). -/
def buildStatement (c : CfgContext) :
    Statement → StatementPath → Targets → CfgBuilder → Nat × CfgBuilder
  | statement, path, targets, builder =>
    let (operations, panicKinds) := statementOperations c.eligible statement (c.sites.id path)
    let (block, builder) := builder.pushBlock operations .unreachable
    let (terminator, builder) :=
      match statement with
      | .letIf _ _ _ body elseBody | .ifThenElse _ body elseBody =>
        let (thenBlock, builder) := buildSequence c body (path ++ [PathStep.branch 0]) 0 targets builder
        let (elseBlock, builder) := buildSequence c elseBody (path ++ [PathStep.branch 1]) 0 targets builder
        (Terminator.branch thenBlock elseBlock, builder)
      | .letMatch _ _ _ _ arms | .matchOn _ _ arms =>
        let (blocks, builder) := buildArms c arms path 0 targets builder
        (.switch blocks, builder)
      | .letElse _ _ _ _ elseBody =>
        let (elseBlock, builder) := buildSequence c elseBody (path ++ [PathStep.branch 0]) 0 targets builder
        (.branch targets.next elseBlock, builder)
      | .ifLet _ _ _ _ body none =>
        let (thenBlock, builder) := buildSequence c body (path ++ [PathStep.branch 0]) 0 targets builder
        (.branch thenBlock targets.next, builder)
      | .ifLet _ _ _ _ body (some elseBody) =>
        let (thenBlock, builder) := buildSequence c body (path ++ [PathStep.branch 0]) 0 targets builder
        let (elseBlock, builder) := buildSequence c elseBody (path ++ [PathStep.branch 1]) 0 targets builder
        (.branch thenBlock elseBlock, builder)
      | .taskSelect arms =>
        let (blocks, builder) := buildSelectArms c arms path 0 targets builder
        (.switch blocks, builder)
      | .loop kind body =>
        let (bodyEntry, builder) := buildSequence c body (path ++ [PathStep.branch 0]) 0
          { next := block, breakTarget := some targets.next, continueTarget := some block } builder
        match kind with
        | .infinite => (.goto bodyEntry, builder)
        | .whileTrue _ | .cStyle .. | .iterate .. => (.branch bodyEntry targets.next, builder)
      | .breakLoop => (targets.breakTarget.elim .unreachable .goto, builder)
      | .continueLoop => (targets.continueTarget.elim .unreachable .goto, builder)
      | .returnValue _ | .questionReturn .. => (.returned, builder)
      | .panic _ => (.panic, builder)
      | .questionLet .. => (.branch targets.next c.exit, builder)
      | _ => (.goto targets.next, builder)
    (block, (builder.setTerminator block terminator).addPanicEdges c.panicExit block panicKinds)

/-- The blocks of match arms. -/
def buildArms (c : CfgContext) :
    List MatchStatementArm → StatementPath → Nat → Targets → CfgBuilder → List Nat × CfgBuilder
  | [], _, _, _, builder => ([], builder)
  | ⟨_, _, body⟩ :: arms, path, branch, targets, builder =>
    let (block, builder) := buildSequence c body (path ++ [PathStep.branch branch]) 0 targets builder
    let (blocks, builder) := buildArms c arms path (branch + 1) targets builder
    (block :: blocks, builder)

/-- The blocks of select arms. -/
def buildSelectArms (c : CfgContext) :
    List TaskSelectArm → StatementPath → Nat → Targets → CfgBuilder → List Nat × CfgBuilder
  | [], _, _, _, builder => ([], builder)
  | ⟨_, _, _, body⟩ :: arms, path, branch, targets, builder =>
    let (block, builder) := buildSequence c body (path ++ [PathStep.branch branch]) 0 targets builder
    let (blocks, builder) := buildSelectArms c arms path (branch + 1) targets builder
    (block :: blocks, builder)

end

/-- `qualified_function_name`. -/
def qualifiedFunctionName (function : Function) : String :=
  if function.package.isEmpty then function.name else function.package ++ "." ++ function.name

/-- The two blocks every graph starts with: the exit and the panic exit. -/
def CfgBuilder.initial : CfgBuilder :=
  { blocks := [⟨0, [], .returned⟩, ⟨1, [], .panic⟩], panicEdges := [] }

/-- `CfgBuilder::new` and `build`. -/
def buildCfg (function : Function) (eligible : List String) : FunctionCfg :=
  let c : CfgContext :=
    { eligible := eligible
      sites := assignStatementIds function.body [] 0 { next := 0, entries := [] }
      exit := 0, panicExit := 1 }
  let (entry, builder) := buildSequence c function.body [] 0
    { next := 0, breakTarget := none, continueTarget := none } .initial
  { function := qualifiedFunctionName function, entry := entry, exit := 0, panicExit := 1
    blocks := builder.blocks, panicEdges := builder.panicEdges }

end Nomo.Mir
