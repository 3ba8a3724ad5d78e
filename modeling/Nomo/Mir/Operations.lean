import Nomo.Ir.Syntax

/-!
# Ownership operations of a statement

What the release optimiser sees of a statement (`nomo_mir/src/lib.rs:9–140`, `1045–1541`): the
list of ownership operations that a block of its control-flow graph performs, and the kinds of
panics it can raise.  Only the variables in `eligible`, the uniquely named flat arrays of the
function, are tracked.

The source keeps sets of names in `BTreeSet`s; here they are lists without repetition, and since
each set is consumed as a whole the order makes no difference.
-/

namespace Nomo.Mir

open Nomo.Ir

/-- What the analysis knows of an array variable. -/
inductive OwnershipState where
  | unique | shared | unknown | moved
deriving DecidableEq, Repr

/-- The panics an operation can raise. -/
inductive PanicKind where
  | bounds | overflow | divisionByZero | explicit
deriving DecidableEq, Repr

/-- What a call may do to its arguments. -/
structure CallEffectSummary where
  mayEscapeArguments : Bool
  maySuspend : Bool
  invalidatesOwnershipProofs : Bool
deriving DecidableEq, Repr

/-- `CallEffectSummary::SYNC_UNKNOWN`. -/
def CallEffectSummary.syncUnknown : CallEffectSummary :=
  { mayEscapeArguments := true, maySuspend := false, invalidatesOwnershipProofs := true }

/-- Ownership operations (`lib.rs:42–85`). -/
inductive Operation where
  | freshArray (binding : String)
  | retain (binding : String)
  | release (binding : String)
  | aliasArray (target source : String)
  | assignUnknown (binding : String)
  | call (effect : CallEffectSummary) (arrayArguments : List String)
  | escape (bindings : List String)
  | arrayMutation (binding : String)
  | checkedArrayBounds (statement : Nat) (binding : String)
  | cowDetach (statement : Nat) (binding : String) (flatArray elided : Bool)
  | arrayStore (statement : Nat) (binding : String)
  | move (binding : String)
  | read (binding : String)
deriving DecidableEq, Repr

/-- How the value of an expression is used. -/
inductive ExprContext where
  | value | read | move
deriving DecidableEq, Repr

/-- The effects collected while walking an expression. -/
structure ExprEffects where
  operations : List Operation
  escapes : List String
  moves : List String
  reads : List String
  panicKinds : List PanicKind
deriving DecidableEq, Repr

namespace ExprEffects

/-- No effects. -/
def empty : ExprEffects := ⟨[], [], [], [], []⟩

/-- Append an operation. -/
def push (effects : ExprEffects) (operation : Operation) : ExprEffects :=
  { effects with operations := effects.operations ++ [operation] }

/-- Append an operation on an array if that array is tracked. -/
def pushIf (effects : ExprEffects) (tracked : Bool) (operation : Operation) : ExprEffects :=
  if tracked then effects.push operation else effects

/-- Record a possible panic. -/
def panics (effects : ExprEffects) (kind : PanicKind) : ExprEffects :=
  { effects with panicKinds := effects.panicKinds.insert kind }

/-- `flush_uses`: turn the pending uses into operations. -/
def flushUses (effects : ExprEffects) : ExprEffects :=
  { effects with
    operations := effects.operations
      ++ (if effects.escapes.isEmpty then [] else [.escape effects.escapes])
      ++ effects.moves.map .move ++ effects.reads.map .read
    escapes := [], moves := [], reads := [] }

/-- `finish`. -/
def finish (effects : ExprEffects) : List Operation × List PanicKind :=
  (effects.flushUses.operations, effects.panicKinds)

end ExprEffects

/-- `is_primitive_pod`. -/
def isPrimitivePod : ValueType → Bool
  | .bool | .char | .int | .i32 | .u32 | .u64 | .float => true
  | _ => false

/-- `is_flat_pod_array`. -/
def isFlatPodArray : ValueType → Bool
  | .array element => isPrimitivePod element
  | _ => false

/-- `record_variable_use`. -/
def recordVariableUse (eligible : List String) (name : String) (context : ExprContext)
    (effects : ExprEffects) : ExprEffects :=
  if name ∈ eligible then
    match context with
    | .value => { effects with escapes := effects.escapes.insert name }
    | .read => { effects with reads := effects.reads.insert name }
    | .move => { effects with moves := effects.moves.insert name }
  else effects

/-- Record the root of a mutable borrow. -/
def recordBorrow (eligible : List String) (path : List String) (effects : ExprEffects) :
    ExprEffects :=
  match path with
  | root :: _ =>
    if root ∈ eligible then { effects with escapes := effects.escapes.insert root } else effects
  | [] => effects

/-- The panics of a binary operator. -/
def binaryPanics (op : BinaryOp) (valueType : ValueType) (effects : ExprEffects) : ExprEffects :=
  if valueType.isInteger then
    match op with
    | .add | .subtract | .multiply | .shiftLeft | .shiftRight => effects.panics .overflow
    | .divide | .remainder => (effects.panics .divisionByZero).panics .overflow
    | _ => effects
  else effects

mutual

/-- `collect_array_variables`: the tracked arrays that occur in an argument. -/
def collectArrayVariables (eligible : List String) : ValueExpr → List String → List String
  | .variable name, arrays | .fieldAccess name _, arrays =>
    if name ∈ eligible then arrays.insert name else arrays
  | .mutBorrow (root :: _), arrays => if root ∈ eligible then arrays.insert root else arrays
  | .mutBorrow [], arrays => arrays
  | .arrayPop array _, arrays | .arrayClear array _, arrays =>
    if array ∈ eligible then arrays.insert array else arrays
  | .arrayRemove array child _, arrays | .arrayPush array child _, arrays =>
    collectArrayVariables eligible child
      (if array ∈ eligible then arrays.insert array else arrays)
  | .arraySet array index value _ _, arrays | .arrayInsert array index value _, arrays =>
    collectArrayVariables eligible value (collectArrayVariables eligible index
      (if array ∈ eligible then arrays.insert array else arrays))
  | .literal _, arrays | .functionRef _, arrays | .arrayNew _, arrays => arrays
  | .binary left _ right _, arrays | .unwrapOr _ left right, arrays
  | .arrayIndex left right _, arrays | .arrayGet left right _, arrays =>
    collectArrayVariables eligible right (collectArrayVariables eligible left arrays)
  | .unary _ child, arrays | .cast child _, arrays | .combine _ child _, arrays
  | .arrayLen child, arrays | .arrayIter child _, arrays | .enumPayload child _, arrays
  | .enumPayloadFieldAccess child _ _, arrays | .panic child _, arrays =>
    collectArrayVariables eligible child arrays
  | .builtin _ args, arrays | .call _ args, arrays | .arrayLiteral args _, arrays
  | .structLiteral _ _ args, arrays => collectArrayVariablesAll eligible args arrays
  | .enumVariant _ _ _ none, arrays => arrays
  | .enumVariant _ _ _ (some child), arrays => collectArrayVariables eligible child arrays
  | .matchOn value arms, arrays =>
    collectArrayVariablesArms eligible arms (collectArrayVariables eligible value arrays)
  | .ifThenElse condition thenBranch elseBranch, arrays =>
    collectArrayVariables eligible elseBranch (collectArrayVariables eligible thenBranch
      (collectArrayVariables eligible condition arrays))

/-- `collect_array_variables` over a list of expressions. -/
def collectArrayVariablesAll (eligible : List String) : List ValueExpr → List String → List String
  | [], arrays => arrays
  | e :: es, arrays =>
    collectArrayVariablesAll eligible es (collectArrayVariables eligible e arrays)

/-- `collect_array_variables` over the values of match arms. -/
def collectArrayVariablesArms (eligible : List String) :
    List MatchValueArm → List String → List String
  | [], arrays => arrays
  | ⟨_, _, value⟩ :: arms, arrays =>
    collectArrayVariablesArms eligible arms (collectArrayVariables eligible value arrays)

end

mutual

/-- `collect_expr_effects` (`lib.rs:1388–1504`). -/
def collectExprEffects (eligible : List String) :
    ValueExpr → ExprContext → ExprEffects → ExprEffects
  | .variable name, context, effects => recordVariableUse eligible name context effects
  | .mutBorrow path, _, effects => recordBorrow eligible path effects
  | .fieldAccess base _, _, effects => recordVariableUse eligible base .value effects
  | .arrayLen array, _, effects => collectExprEffects eligible array .read effects
  | .arrayIndex array index _, _, effects =>
    (collectExprEffects eligible index .value
      (collectExprEffects eligible array .read effects)).panics .bounds
  | .arrayGet array index _, _, effects =>
    collectExprEffects eligible index .value (collectExprEffects eligible array .read effects)
  | .arraySet array index value _ _, _, effects =>
    ((collectExprEffects eligible value .value
      (collectExprEffects eligible index .value effects)).pushIf (array ∈ eligible)
        (.arrayMutation array)).panics .bounds
  | .arrayPush array value _, _, effects =>
    (collectExprEffects eligible value .value effects).pushIf (array ∈ eligible)
      (.arrayMutation array)
  | .arrayInsert array index value _, _, effects =>
    ((collectExprEffects eligible value .value
      (collectExprEffects eligible index .value effects)).pushIf (array ∈ eligible)
        (.arrayMutation array)).panics .bounds
  | .arrayRemove array index _, _, effects =>
    (collectExprEffects eligible index .value effects).pushIf (array ∈ eligible)
      (.arrayMutation array)
  | .arrayPop array _, _, effects | .arrayClear array _, _, effects =>
    effects.pushIf (array ∈ eligible) (.arrayMutation array)
  | .call _ args, _, effects =>
    (collectExprsEffects eligible args effects).push
      (.call .syncUnknown (collectArrayVariablesAll eligible args []))
  | .binary left op right valueType, _, effects =>
    collectExprEffects eligible right .value
      (collectExprEffects eligible left .value (binaryPanics op valueType effects))
  | .panic message _, _, effects =>
    (collectExprEffects eligible message .value effects).panics .explicit
  | .literal _, _, effects | .functionRef _, _, effects | .arrayNew _, _, effects => effects
  | .unary _ child, _, effects | .cast child _, _, effects | .combine _ child _, _, effects
  | .arrayIter child _, _, effects | .enumPayload child _, _, effects
  | .enumPayloadFieldAccess child _ _, _, effects =>
    collectExprEffects eligible child .value effects
  | .builtin _ args, _, effects | .arrayLiteral args _, _, effects
  | .structLiteral _ _ args, _, effects => collectExprsEffects eligible args effects
  | .unwrapOr _ operand default, _, effects =>
    collectExprEffects eligible default .value (collectExprEffects eligible operand .value effects)
  | .enumVariant _ _ _ none, _, effects => effects
  | .enumVariant _ _ _ (some payload), _, effects =>
    collectExprEffects eligible payload .value effects
  | .matchOn value arms, _, effects =>
    collectArmsEffects eligible arms (collectExprEffects eligible value .value effects)
  | .ifThenElse condition thenBranch elseBranch, _, effects =>
    collectExprEffects eligible elseBranch .value (collectExprEffects eligible thenBranch .value
      (collectExprEffects eligible condition .value effects))

/-- `collect_expr_effects` over a list of expressions, each used as a value. -/
def collectExprsEffects (eligible : List String) : List ValueExpr → ExprEffects → ExprEffects
  | [], effects => effects
  | e :: es, effects =>
    collectExprsEffects eligible es (collectExprEffects eligible e .value effects)

/-- `collect_expr_effects` over the values of match arms. -/
def collectArmsEffects (eligible : List String) : List MatchValueArm → ExprEffects → ExprEffects
  | [], effects => effects
  | ⟨_, _, value⟩ :: arms, effects =>
    collectArmsEffects eligible arms (collectExprEffects eligible value .value effects)

end

/-- `assign_unknown`. -/
def assignUnknown (eligible : List String) (name : String) (overwrite : Bool)
    (effects : ExprEffects) : ExprEffects :=
  (effects.pushIf (name ∈ eligible ∧ overwrite) (.release name)).pushIf (name ∈ eligible)
    (.assignUnknown name)

/-- The bounds check, detachment and store of an element assignment. -/
def pushStore (name : String) (statementId : Nat) (flatArray : Bool) (effects : ExprEffects) :
    ExprEffects :=
  ((effects.push (.checkedArrayBounds statementId name)).push
    (.cowDetach statementId name flatArray false)).push (.arrayStore statementId name)

/-- What `assign_operations` does with a value it has no rule for. -/
def assignOther (eligible : List String) (name : String) (value : ValueExpr) (overwrite : Bool)
    (effects : ExprEffects) : ExprEffects :=
  assignUnknown eligible name overwrite (collectExprEffects eligible value .value effects).flushUses

/-- `assign_operations` (`lib.rs:1216–1334`). -/
def assignOperations (eligible : List String) (name : String) (value : ValueExpr)
    (overwrite : Bool) (statementId : Nat) (effects : ExprEffects) : ExprEffects :=
  if name ∈ eligible then
    match value with
    | .arrayNew elementType | .arrayLiteral _ elementType =>
      if isPrimitivePod elementType then
        let effects := (collectExprsEffects eligible value.childExpressions effects).flushUses
        (effects.pushIf overwrite (.release name)).push (.freshArray name)
      else assignOther eligible name value overwrite effects
    | .variable source =>
      if source ∈ eligible then
        ((effects.pushIf overwrite (.release name)).push (.retain source)).push
          (.aliasArray name source)
      else assignOther eligible name value overwrite effects
    | .arraySet array index element elementType _ =>
      if array = name ∧ isPrimitivePod elementType then
        let effects := (collectExprEffects eligible element .value
          (collectExprEffects eligible index .value effects)).flushUses
        (pushStore name statementId true effects).panics .bounds
      else assignOther eligible name value overwrite effects
    | .arrayPush array element _ =>
      if array = name then
        ((collectExprEffects eligible element .value effects).flushUses).push (.arrayMutation name)
      else assignOther eligible name value overwrite effects
    | .arrayInsert array index element _ =>
      if array = name then
        (((collectExprEffects eligible element .value
          (collectExprEffects eligible index .value effects)).flushUses).push
            (.arrayMutation name)).panics .bounds
      else assignOther eligible name value overwrite effects
    | .arrayClear array _ | .arrayPop array _ | .arrayRemove array _ _ =>
      if array = name then
        ((collectExprsEffects eligible value.childExpressions effects).flushUses).push
          (.arrayMutation name)
      else assignOther eligible name value overwrite effects
    | _ => assignOther eligible name value overwrite effects
  else assignOther eligible name value overwrite effects

/-- The effects of the operation of a select arm. -/
def selectOperationEffects (eligible : List String) (effects : ExprEffects) :
    TaskSelectOperation → ExprEffects
  | .receive channel _ => collectExprEffects eligible channel .value effects
  | .send channel value _ =>
    collectExprEffects eligible value .value (collectExprEffects eligible channel .value effects)
  | .sleep duration => collectExprEffects eligible duration .value effects
  | .join _ => effects

/-- `statement_operations` before `finish` (`lib.rs:1045–1196`). -/
def statementEffects (eligible : List String) (statement : Statement) (statementId : Nat) :
    ExprEffects :=
  match statement with
  | .letBind name _ initializer =>
    assignOperations eligible name initializer false statementId .empty
  | .assign name value => assignOperations eligible name value true statementId .empty
  | .arrayIndexAssign root indices arrayTypes value _ =>
    let effects := (collectExprEffects eligible value .value
      (collectExprsEffects eligible indices .empty)).flushUses
    let flatArray := indices.length = 1 ∧ arrayTypes.length = 1 ∧
      (arrayTypes.head?.elim false isPrimitivePod)
    (if root ∈ eligible then pushStore root statementId flatArray effects else effects).panics
      .bounds
  | .letIf name _ condition _ _ =>
    assignUnknown eligible name false (collectExprEffects eligible condition .value .empty)
  | .letMatch name _ value _ _ =>
    assignUnknown eligible name false (collectExprEffects eligible value .value .empty)
  | .questionLet _ name _ resultExpr _ =>
    assignUnknown eligible name false (collectExprEffects eligible resultExpr .value .empty)
  | .questionReturn _ _ resultExpr _ => collectExprEffects eligible resultExpr .move .empty
  | .letElse binding _ value _ _ =>
    assignUnknown eligible binding false (collectExprEffects eligible value .value .empty)
  | .ifLet (some binding) _ value _ _ _ =>
    assignUnknown eligible binding false (collectExprEffects eligible value .value .empty)
  | .ifLet none _ value _ _ _ => collectExprEffects eligible value .value .empty
  | .ifThenElse condition _ _ => collectExprEffects eligible condition .value .empty
  | .assignField base _ _ value =>
    collectExprEffects eligible value .value
      (if base ∈ eligible then { ExprEffects.empty with escapes := [base] } else .empty)
  | .eprintln value | .eprint value | .println value | .print value | .expr value =>
    collectExprEffects eligible value .value .empty
  | .panic value => (collectExprEffects eligible value .value .empty).panics .explicit
  | .returnValue (some value) => collectExprEffects eligible value .move .empty
  | .matchOn value _ _ => collectExprEffects eligible value .value .empty
  | .taskSelect arms =>
    arms.foldl (fun effects ⟨operation, _, _, _⟩ =>
      selectOperationEffects eligible effects operation) .empty
  | .loop .infinite _ => .empty
  | .loop (.whileTrue condition) _ => collectExprEffects eligible condition .value .empty
  | .loop (.cStyle _ _ initializer condition update) _ =>
    collectExprEffects eligible update .value (collectExprEffects eligible condition .value
      (collectExprEffects eligible initializer .value .empty))
  | .loop (.iterate _ _ iterable) _ => collectExprEffects eligible iterable .value .empty
  | .defer call => collectExprEffects eligible call.operand .value .empty
  | .breakLoop | .continueLoop | .returnValue none => .empty

/-- `statement_operations`: the operations and possible panics of a statement's block. -/
def statementOperations (eligible : List String) (statement : Statement) (statementId : Nat) :
    List Operation × List PanicKind :=
  (statementEffects eligible statement statementId).finish

end Nomo.Mir
