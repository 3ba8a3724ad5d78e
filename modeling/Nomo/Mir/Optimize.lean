import Nomo.Mir.Cfg
import Nomo.Lib.Worklist

/-!
# The release optimiser

`optimize_release_program` (`nomo_mir/src/lib.rs:162–191`): reset every store to `checkedCow`, find
by a data-flow fixed point the stores whose array is `unique` on every path, and mark those
`checkedUnique`.

The worklist of the source runs until its queue is empty.  Here it is given `iterationBound` rounds,
and `Nomo.Mir.Fixpoint` proves that the queue is empty by then.
-/

namespace Nomo.Mir

open Nomo.Ir Nomo.Lib

/-! ## Resetting the modes -/

mutual

/-- `reset_expr_mutation_modes`. -/
def resetExpr : ValueExpr → ValueExpr
  | .arraySet array index value elementType _ =>
    .arraySet array (resetExpr index) (resetExpr value) elementType .checkedCow
  | .binary left op right valueType => .binary (resetExpr left) op (resetExpr right) valueType
  | .unary op expr => .unary op (resetExpr expr)
  | .cast expr targetType => .cast (resetExpr expr) targetType
  | .builtin op args => .builtin op (resetExprs args)
  | .call name args => .call name (resetExprs args)
  | .combine combinator operand converter => .combine combinator (resetExpr operand) converter
  | .unwrapOr carrier operand default => .unwrapOr carrier (resetExpr operand) (resetExpr default)
  | .arrayLiteral elements elementType => .arrayLiteral (resetExprs elements) elementType
  | .arrayIndex array index elementType => .arrayIndex (resetExpr array) (resetExpr index) elementType
  | .arrayLen array => .arrayLen (resetExpr array)
  | .arrayIter array elementType => .arrayIter (resetExpr array) elementType
  | .arrayGet array index elementType => .arrayGet (resetExpr array) (resetExpr index) elementType
  | .arrayRemove array index elementType => .arrayRemove array (resetExpr index) elementType
  | .arrayPush array value elementType => .arrayPush array (resetExpr value) elementType
  | .arrayInsert array index value elementType =>
    .arrayInsert array (resetExpr index) (resetExpr value) elementType
  | .structLiteral typeName fieldNames fieldValues =>
    .structLiteral typeName fieldNames (resetExprs fieldValues)
  | .enumPayloadFieldAccess value variant field =>
    .enumPayloadFieldAccess (resetExpr value) variant field
  | .enumVariant enumName enumArgs variant none => .enumVariant enumName enumArgs variant none
  | .enumVariant enumName enumArgs variant (some payload) =>
    .enumVariant enumName enumArgs variant (some (resetExpr payload))
  | .enumPayload value variant => .enumPayload (resetExpr value) variant
  | .matchOn value arms => .matchOn (resetExpr value) (resetExprArms arms)
  | .ifThenElse condition thenBranch elseBranch =>
    .ifThenElse (resetExpr condition) (resetExpr thenBranch) (resetExpr elseBranch)
  | .panic message fallbackType => .panic (resetExpr message) fallbackType
  | e => e

/-- `reset_expr_mutation_modes` over a list of expressions. -/
def resetExprs : List ValueExpr → List ValueExpr
  | [] => []
  | e :: es => resetExpr e :: resetExprs es

/-- `reset_expr_mutation_modes` over the values of match arms. -/
def resetExprArms : List MatchValueArm → List MatchValueArm
  | [] => []
  | ⟨variant, binding, value⟩ :: arms => ⟨variant, binding, resetExpr value⟩ :: resetExprArms arms

end

/-- `reset_expr_mutation_modes` on a deferred call. -/
def resetDeferred : DeferredCall → DeferredCall
  | .expr value => .expr (resetExpr value)
  | .println value => .println (resetExpr value)
  | .print value => .print (resetExpr value)
  | .eprintln value => .eprintln (resetExpr value)
  | .eprint value => .eprint (resetExpr value)

/-- `reset_expr_mutation_modes` on the operation of a select arm. -/
def resetSelectOperation : TaskSelectOperation → TaskSelectOperation
  | .receive channel elementType => .receive (resetExpr channel) elementType
  | .send channel value elementType => .send (resetExpr channel) (resetExpr value) elementType
  | .sleep duration => .sleep (resetExpr duration)
  | .join handle => .join handle

/-- `reset_expr_mutation_modes` on the header of a loop. -/
def resetLoopKind : LoopKind → LoopKind
  | .infinite => .infinite
  | .whileTrue condition => .whileTrue (resetExpr condition)
  | .cStyle binding valueType initializer condition update =>
    .cStyle binding valueType (resetExpr initializer) (resetExpr condition) (resetExpr update)
  | .iterate binding elementType iterable => .iterate binding elementType (resetExpr iterable)

mutual

/-- `reset_body_mutation_modes` for one statement (`lib.rs:210–328`).  The operands of an indexed
assignment are not visited. -/
def resetStatement : Statement → Statement
  | .arrayIndexAssign root indices arrayTypes value _ =>
    .arrayIndexAssign root indices arrayTypes value .checkedCow
  | .letBind name valueType initializer => .letBind name valueType (resetExpr initializer)
  | .letIf name valueType condition body elseBody =>
    .letIf name valueType (resetExpr condition) (resetBody body) (resetBody elseBody)
  | .letMatch name valueType value enumName arms =>
    .letMatch name valueType (resetExpr value) enumName (resetArms arms)
  | .matchOn value enumName arms => .matchOn (resetExpr value) enumName (resetArms arms)
  | .questionLet carrier name valueType resultExpr earlyExitActions =>
    .questionLet carrier name valueType (resetExpr resultExpr) (resetExprs earlyExitActions)
  | .questionReturn carrier okType resultExpr earlyExitActions =>
    .questionReturn carrier okType (resetExpr resultExpr) (resetExprs earlyExitActions)
  | .letElse binding valueType value variant elseBody =>
    .letElse binding valueType (resetExpr value) variant (resetBody elseBody)
  | .ifLet binding valueType value variant body none =>
    .ifLet binding valueType (resetExpr value) variant (resetBody body) none
  | .ifLet binding valueType value variant body (some elseBody) =>
    .ifLet binding valueType (resetExpr value) variant (resetBody body) (some (resetBody elseBody))
  | .ifThenElse condition body elseBody =>
    .ifThenElse (resetExpr condition) (resetBody body) (resetBody elseBody)
  | .assign name value => .assign name (resetExpr value)
  | .assignField base field valueType value => .assignField base field valueType (resetExpr value)
  | .eprintln value => .eprintln (resetExpr value)
  | .eprint value => .eprint (resetExpr value)
  | .println value => .println (resetExpr value)
  | .print value => .print (resetExpr value)
  | .panic message => .panic (resetExpr message)
  | .expr value => .expr (resetExpr value)
  | .returnValue (some value) => .returnValue (some (resetExpr value))
  | .taskSelect arms => .taskSelect (resetSelectArms arms)
  | .loop kind body => .loop (resetLoopKind kind) (resetBody body)
  | .defer call => .defer (resetDeferred call)
  | .breakLoop => .breakLoop
  | .continueLoop => .continueLoop
  | .returnValue none => .returnValue none

/-- `reset_body_mutation_modes`. -/
def resetBody : List Statement → List Statement
  | [] => []
  | statement :: rest => resetStatement statement :: resetBody rest

/-- `reset_body_mutation_modes` over match arms. -/
def resetArms : List MatchStatementArm → List MatchStatementArm
  | [] => []
  | ⟨variant, binding, body⟩ :: arms => ⟨variant, binding, resetBody body⟩ :: resetArms arms

/-- `reset_body_mutation_modes` over select arms. -/
def resetSelectArms : List TaskSelectArm → List TaskSelectArm
  | [] => []
  | ⟨operation, binding, bindingType, body⟩ :: arms =>
    ⟨resetSelectOperation operation, binding, bindingType, resetBody body⟩ :: resetSelectArms arms

end

/-- `reset_mutation_modes`. -/
def resetMutationModes (program : Program) : Program :=
  { program with functions := program.functions.map fun function =>
      { function with body := resetBody function.body } }

/-! ## The data-flow analysis -/

/-- The state of the tracked arrays at one point. -/
abbrev StateMap := List (String × OwnershipState)

namespace StateMap

/-- The state of an array. -/
def state? (state : StateMap) (name : String) : Option OwnershipState := List.lookup name state

/-- `BTreeMap::insert`. -/
def insert : StateMap → String → OwnershipState → StateMap
  | [], name, ownership => [(name, ownership)]
  | (name', ownership') :: rest, name, ownership =>
    if name = name' then (name', ownership) :: rest
    else (name', ownership') :: insert rest name ownership

/-- Insert one state for several arrays. -/
def insertAll (state : StateMap) (names : List String) (ownership : OwnershipState) : StateMap :=
  names.foldl (fun state name => insert state name ownership) state

end StateMap

/-- `transfer_operation` (`lib.rs:1638–1685`). -/
def transferOperation (state : StateMap) : Operation → StateMap
  | .freshArray binding => state.insert binding .unique
  | .arrayMutation binding => state.insert binding .unknown
  | .retain binding => state.insert binding .shared
  | .release binding | .move binding => state.insert binding .moved
  | .aliasArray target source => (state.insert source .shared).insert target .shared
  | .assignUnknown binding => state.insert binding .unknown
  | .call effect arrayArguments =>
    if effect.invalidatesOwnershipProofs then state.map fun (name, _) => (name, .unknown)
    else if effect.mayEscapeArguments then state.insertAll arrayArguments .unknown
    else state
  | .escape bindings => state.insertAll bindings .unknown
  | .cowDetach _ binding _ _ => state.insert binding .unique
  | .checkedArrayBounds .. | .arrayStore .. | .read _ => state

/-- `transfer_operations`. -/
def transferOperations (operations : List Operation) (state : StateMap) : StateMap :=
  operations.foldl transferOperation state

/-- The state both of two states agree on. -/
def joinOwnership (current other : OwnershipState) : OwnershipState :=
  if current = other then current else .unknown

/-- `join_states`: the joined target, and whether it changed (`lib.rs:1612–1631`). -/
def joinStates : StateMap → StateMap → StateMap × Bool
  | [], _ => ([], false)
  | (binding, current) :: rest, incoming =>
    let other := (incoming.state? binding).getD .unknown
    let joined := joinOwnership current other
    let (rest, changed) := joinStates rest incoming
    ((binding, joined) :: rest, (current != joined) || changed)

/-- The block of a number; an empty one where there is none. -/
def FunctionCfg.block (cfg : FunctionCfg) (b : Nat) : BasicBlock :=
  (cfg.blocks[b]?).getD ⟨b, [], .unreachable⟩

/-- The ownership analysis of a graph. -/
def FunctionCfg.analysis (cfg : FunctionCfg) : Worklist.Analysis StateMap where
  transfer b state := transferOperations (cfg.block b).operations state
  successors b := (cfg.block b).terminator.successors
  join := joinStates

/-- The names an operation mentions. -/
def Operation.bindings : Operation → List String
  | .freshArray binding | .retain binding | .release binding | .assignUnknown binding
  | .arrayMutation binding | .checkedArrayBounds _ binding | .cowDetach _ binding _ _
  | .arrayStore _ binding | .move binding | .read binding => [binding]
  | .aliasArray target source => [target, source]
  | .call _ bindings | .escape bindings => bindings

/-- At most this many names can occur in a state. -/
def FunctionCfg.nameBound (cfg : FunctionCfg) (eligible : List String) : Nat :=
  eligible.length + (cfg.blocks.flatMap fun b => b.operations.flatMap Operation.bindings).length

/-- Rounds after which the worklist is empty. -/
def FunctionCfg.iterationBound (cfg : FunctionCfg) (eligible : List String) : Nat :=
  cfg.blocks.length * (cfg.nameBound eligible + 1) + cfg.nameBound eligible + 1

/-- The fixed point: the input state of every reached block. -/
def FunctionCfg.inStates (cfg : FunctionCfg) (eligible : List String) :
    Worklist.Progress StateMap :=
  cfg.analysis.solve (cfg.iterationBound eligible)
    (Worklist.start cfg.blocks.length cfg.entry (eligible.map fun name => (name, .unknown)))

/-- Mark the provably unnecessary detachments of a block, given its input state; also returns the
statements they belong to. -/
def elideDetaches : List Operation → StateMap → List Operation × List Nat
  | [], _ => ([], [])
  | operation :: rest, state =>
    let (rest, proven) := elideDetaches rest (transferOperation state operation)
    match operation with
    | .cowDetach statement binding flatArray elided =>
      if flatArray = true ∧ state.state? binding = some .unique then
        (.cowDetach statement binding flatArray true :: rest, statement :: proven)
      else (.cowDetach statement binding flatArray elided :: rest, proven)
    | operation => (operation :: rest, proven)

/-- The second pass of `prove_unique_detaches` over the blocks. -/
def elideBlocks (inStates : Worklist.Progress StateMap) :
    List BasicBlock → List BasicBlock × List Nat
  | [] => ([], [])
  | block :: rest =>
    let (rest, proven) := elideBlocks inStates rest
    match inStates.input block.id with
    | some state =>
      let (operations, provenHere) := elideDetaches block.operations state
      ({ block with operations := operations } :: rest, provenHere ++ proven)
    | none => (block :: rest, proven)

/-- `prove_unique_detaches` (`lib.rs:1558–1610`): the graph with elided detachments marked, and the
statements whose store is proven unique. -/
def proveUniqueDetaches (cfg : FunctionCfg) (eligible : List String) : FunctionCfg × List Nat :=
  let (blocks, proven) := elideBlocks (cfg.inStates eligible) cfg.blocks
  ({ cfg with blocks := blocks }, proven)

/-! ## Annotation -/

/-- Mark the store of a proven statement. -/
def annotateMode (proven : Bool) : Statement → Statement
  | .arrayIndexAssign root indices arrayTypes value mode =>
    .arrayIndexAssign root indices arrayTypes value (if proven then .checkedUnique else mode)
  | .assign name (.arraySet array index value elementType mode) =>
    .assign name (.arraySet array index value elementType (if proven then .checkedUnique else mode))
  | statement => statement

mutual

/-- `annotate_body` for the statements nested in a statement. -/
def annotateChildren (proven : List Nat) : Statement → Nat → Statement × Nat
  | .letIf name valueType condition body elseBody, next =>
    let (body, next) := annotateBody proven body next
    let (elseBody, next) := annotateBody proven elseBody next
    (.letIf name valueType condition body elseBody, next)
  | .ifThenElse condition body elseBody, next =>
    let (body, next) := annotateBody proven body next
    let (elseBody, next) := annotateBody proven elseBody next
    (.ifThenElse condition body elseBody, next)
  | .letMatch name valueType value enumName arms, next =>
    let (arms, next) := annotateArms proven arms next
    (.letMatch name valueType value enumName arms, next)
  | .matchOn value enumName arms, next =>
    let (arms, next) := annotateArms proven arms next
    (.matchOn value enumName arms, next)
  | .letElse binding valueType value variant elseBody, next =>
    let (elseBody, next) := annotateBody proven elseBody next
    (.letElse binding valueType value variant elseBody, next)
  | .ifLet binding valueType value variant body none, next =>
    let (body, next) := annotateBody proven body next
    (.ifLet binding valueType value variant body none, next)
  | .ifLet binding valueType value variant body (some elseBody), next =>
    let (body, next) := annotateBody proven body next
    let (elseBody, next) := annotateBody proven elseBody next
    (.ifLet binding valueType value variant body (some elseBody), next)
  | .taskSelect arms, next =>
    let (arms, next) := annotateSelectArms proven arms next
    (.taskSelect arms, next)
  | .loop kind body, next =>
    let (body, next) := annotateBody proven body next
    (.loop kind body, next)
  | statement, next => (statement, next)

/-- `annotate_body` (`lib.rs:1692–1757`): number the statements as `assignStatementIds` does, and
mark the stores of the proven ones. -/
def annotateBody (proven : List Nat) : List Statement → Nat → List Statement × Nat
  | [], next => ([], next)
  | statement :: rest, next =>
    let (statement', after) := annotateChildren proven statement (next + 1)
    let (rest, last) := annotateBody proven rest after
    (annotateMode (next ∈ proven) statement' :: rest, last)

/-- `annotate_body` over match arms. -/
def annotateArms (proven : List Nat) : List MatchStatementArm → Nat → List MatchStatementArm × Nat
  | [], next => ([], next)
  | ⟨variant, binding, body⟩ :: arms, next =>
    let (body, next) := annotateBody proven body next
    let (arms, next) := annotateArms proven arms next
    (⟨variant, binding, body⟩ :: arms, next)

/-- `annotate_body` over select arms. -/
def annotateSelectArms (proven : List Nat) : List TaskSelectArm → Nat → List TaskSelectArm × Nat
  | [], next => ([], next)
  | ⟨operation, binding, bindingType, body⟩ :: arms, next =>
    let (body, next) := annotateBody proven body next
    let (arms, next) := annotateSelectArms proven arms next
    (⟨operation, binding, bindingType, body⟩ :: arms, next)

end

/-! ## The pass -/

/-- The record of what was done to one function. -/
structure FunctionOptimization where
  function : String
  skippedSuspend : Bool
  cfg : Option FunctionCfg
  checkedUniqueStores : Nat
deriving DecidableEq, Repr

/-- The record of a run of the pass. -/
structure OptimizationReport where
  functions : List FunctionOptimization
  checkedUniqueStores : Nat
deriving DecidableEq, Repr

/-- Optimise one function of a program whose modes have been reset. -/
def optimizeFunction (function : Function) : Function × FunctionOptimization :=
  if function.isSuspend then
    (function, ⟨qualifiedFunctionName function, true, none, 0⟩)
  else
    let eligible := eligibleFlatArrayBindings function
    let (cfg, proven) := proveUniqueDetaches (buildCfg function eligible) eligible
    ({ function with body := (annotateBody proven function.body 0).1 },
      ⟨qualifiedFunctionName function, false, some cfg, proven.length⟩)

/-- `optimize_release_program`. -/
def optimizeReleaseProgram (program : Program) : Program × OptimizationReport :=
  let results := (resetMutationModes program).functions.map optimizeFunction
  ({ program with functions := results.map Prod.fst },
    { functions := results.map Prod.snd
      checkedUniqueStores := (results.map fun r => r.2.checkedUniqueStores).sum })

end Nomo.Mir
