import Nomo.Interpreter.Machine

/-!
# The browser interpreter

`nomo_wasm/src/interpreter.rs:247–259, 381–1256, 1597–1626`. Expressions, calls, statements and loops.

The interpreter calls itself as deep as the program brings it. Here it runs with a number of levels:
what a function does is given by what its calls do one level below, and at the last level nothing comes
to an end (`Level`). A run that comes to an end is the run of the interpreter.
-/

namespace Nomo.Interpreter

open Nomo.Lib.Trace

variable {Op F : Type}

/-- The three functions that call themselves: `eval_expr`, `exec_block`, and the rounds of a loop. -/
structure Level (Op F : Type) where
  evalExpr : ValueExpr Op F → Run F (Value F)
  execBlock : List (Statement Op F) → Run F (Signal F)
  rounds : LoopKind Op F → List (Statement Op F) → Run F (Signal F)

variable (operations : Operations Op F) (program : Program Op F) (limits : ExecutionLimits)

section

variable (level : Level Op F)

/-! ## Calls -/

/-- Evaluate an argument, with its path when it is borrowed. -/
def evalArgument (argument : ValueExpr Op F) : Run F (Value F × Option (List String)) := do
  match argument with
  | .mutBorrow path => do
    let value ← getPath path
    return (value, some path)
  | argument => do
    let value ← level.evalExpr argument
    return (value, none)

/-- Evaluate the arguments of a call: the frame of the function, and what is to be written back. -/
def bindArguments : List (Parameter × ValueExpr Op F) → Frame F → List (String × List String) →
    Run F (Frame F × List (String × List String))
  | [], frame, writebacks => return (frame, writebacks)
  | (parameter, argument) :: rest, frame, writebacks => do
    let (value, sourcePath) ← evalArgument level argument
    let value ← .lift (value.coerce operations.floats parameter.valueType)
    let writebacks :=
      match parameter.mutable, sourcePath with
      | true, some path => writebacks ++ [(parameter.name, path)]
      | _, _ => writebacks
    bindArguments rest (insertEntry frame parameter.name value) writebacks

/-- `frames.push`. -/
def pushFrame (frame : Frame F) : Run F Unit :=
  .update fun machine => { machine with frames := frame :: machine.frames }

/-- `frames.pop`. -/
def popFrame : Run F (Frame F) := do
  match ← .read Machine.frames with
  | [] => Run.refuse "function frame disappeared"
  | frame :: _ => do
    .update fun machine => { machine with frames := machine.frames.tail }
    return frame

/-- Write a mutable parameter back to where its argument was borrowed from. -/
def writeBack (finalFrame : Frame F) (entry : String × List String) : Run F Unit := do
  let (parameter, path) := entry
  let missing := RuntimeError.runtime s!"missing mutable parameter `{parameter}`"
  let value ← .lift (findEntry finalFrame parameter missing)
  let caller ← currentFrame
  let caller ← .lift (setPathInFrame operations.floats caller path value)
  .update fun machine => machine.setCurrentFrame caller

/-- The result of a function whose body came to an end. -/
def resultOf (signal : Signal F) : Except RuntimeError (Value F) :=
  match signal with
  | .returnSignal value => .ok value
  | .next => .ok .void
  | .breakSignal | .continueSignal => runtimeError "loop control escaped a function body"

/-- `Interpreter::call_function` of a function of the program. -/
def callDefined (name : String) (args : List (ValueExpr Op F)) : Run F (Value F) := do
  let depth ← .read fun machine => machine.frames.length
  if depth ≥ limits.maxCallDepth then Run.refuse "maximum call depth exceeded"
  else
    match program.functions.find? (·.name = name) with
    | none => Run.refuse s!"unknown function `{name}`"
    | some function =>
      if function.params.length ≠ args.length then
        let expected := function.params.length
        let found := args.length
        Run.refuse s!"function `{name}` expected {expected} arguments, found {found}"
      else do
        let (frame, writebacks) ← bindArguments operations level (function.params.zip args) [] []
        pushFrame frame
        let signal ← level.execBlock function.body
        let finalFrame ← popFrame
        if depth = 0 then pure () else .each (writeBack operations finalFrame) writebacks
        let result ← .lift (resultOf signal)
        .lift (result.coerce operations.floats function.returnType)

/-- `Interpreter::call_function`. -/
def callFunction (name : String) (args : List (ValueExpr Op F)) : Run F (Value F) := do
  tick limits
  match builtinCall name with
  | some (.unavailable capability) => .fail (.capability capability)
  | some (.result value) => return value
  | some .publicationMove =>
    match args with
    | [] => Run.refuse "task publication move requires one value"
    | argument :: _ => level.evalExpr argument
  | none => callDefined operations program limits level name args

/-! ## Expressions -/

/-- Evaluate the operands of an operation, from left to right. -/
def evalOperands (op : Op) : List (ValueExpr Op F) → List (Value F) → Run F (List (Value F))
  | [], values => return values
  | operand :: rest, values => do
    let value ← level.evalExpr operand
    .lift (operations.check op (values ++ [value]))
    evalOperands op rest (values ++ [value])

/-- The elements of a variable that is an array. -/
def arrayVariable (array : String) : Run F (List (Value F)) := do
  match ← getVariable array with
  | .array values => return values
  | _ => Run.refuse "expected array"

/-- Evaluate an index. -/
def evalIndex (index : ValueExpr Op F) : Run F ℕ := do
  let value ← level.evalExpr index
  .lift value.asIndex

/-- Evaluate a condition. -/
def evalCondition (condition : ValueExpr Op F) : Run F Bool := do
  let value ← level.evalExpr condition
  .lift value.asBool

/-- The value of a variant that carries one, or what else to evaluate. -/
def unwrapOr (variant : String) (value : Value F) (default : ValueExpr Op F) : Run F (Value F) :=
  match value with
  | .enum _ actual (some payload) => if actual = variant then pure payload else level.evalExpr default
  | _ => level.evalExpr default

/-- The match of `Interpreter::eval_expr` on the expression. -/
def evalKind : ValueExpr Op F → Run F (Value F)
  | .literal value => return value
  | .variableRef name => getVariable name
  | .call name args => callFunction operations program limits level name args
  | .mutBorrow path => getPath path
  | .logicalAnd left right => do
    if ← evalCondition level left then
      let right ← evalCondition level right
      return .bool right
    else return .bool false
  | .logicalOr left right => do
    if ← evalCondition level left then return .bool true
    else
      let right ← evalCondition level right
      return .bool right
  | .arrayPush array value => do
    let value ← level.evalExpr value
    let values ← arrayVariable array
    return .array (values ++ [value])
  | .arrayPop array => do
    let values ← arrayVariable array
    insertVariable array (.array values.dropLast)
    return optionValue values.getLast?
  | .arraySet array index value => do
    let index ← evalIndex level index
    let value ← level.evalExpr value
    let values ← arrayVariable array
    match values[index]? with
    | none => Run.refuse "array index out of bounds"
    | some slot => do
      let value ← .lift (value.coerceLike operations.floats slot)
      return .array (values.set index value)
  | .arrayInsert array index value => do
    let index ← evalIndex level index
    let value ← level.evalExpr value
    let values ← arrayVariable array
    if index > values.length then Run.refuse "array index out of bounds"
    else return .array (values.insertIdx index value)
  | .arrayRemove array index => do
    let index ← evalIndex level index
    let values ← arrayVariable array
    insertVariable array (.array (values.eraseIdx index))
    return optionValue values[index]?
  | .arrayClear array => do
    let _ ← arrayVariable array
    return .array []
  | .arrayIter array => level.evalExpr array
  | .fieldAccess base field => do
    match ← getVariable base with
    | .struct _ fields => .lift (findEntry fields field (unknownField field))
    | _ => Run.refuse "field base is not a struct"
  | .matchArms value arms => do
    match ← level.evalExpr value with
    | .enum _ variant payload =>
      match arms.find? (fun | .mk armVariant _ _ => armVariant = variant) with
      | none => Run.refuse "no matching enum arm"
      | some (.mk _ binding value) => do
        bindPayload binding payload
        level.evalExpr value
    | _ => Run.refuse "match value is not an enum"
  | .conditional condition thenBranch elseBranch => do
    if ← evalCondition level condition then level.evalExpr thenBranch
    else level.evalExpr elseBranch
  | .optionUnwrapOr option default => do
    let value ← level.evalExpr option
    unwrapOr level "Some" value default
  | .resultUnwrapOr result default => do
    let value ← level.evalExpr result
    unwrapOr level "Ok" value default
  | .operation op operands => do
    let values ← evalOperands operations level op operands []
    .lift (operations.apply op values)

/-- `Interpreter::eval_expr`. -/
def evalExpr (expression : ValueExpr Op F) : Run F (Value F) := do
  tick limits
  evalKind operations program limits level expression

/-! ## Statements -/

/-- `Interpreter::run_deferred`, of one call. -/
def runDeferred (call : DeferredCall Op F) : Run F Unit := do
  tick limits
  match call with
  | .expr expr => do
    let _ ← level.evalExpr expr
    return
  | .write stderr newline expr => do
    let value ← level.evalExpr expr
    writeOutput operations.floats limits value newline stderr

/-- The rounds of a loop over the values of an array. -/
def iterateValues (binding : String) (body : List (Statement Op F)) :
    List (Value F) → Run F (Signal F)
  | [] => return .next
  | value :: values => do
    tick limits
    insertVariable binding value
    match ← level.execBlock body with
    | .next | .continueSignal => iterateValues binding body values
    | .breakSignal => return .next
    | .returnSignal value => return .returnSignal value

/-- `Interpreter::exec_loop`. -/
def execLoop (kind : LoopKind Op F) (body : List (Statement Op F)) : Run F (Signal F) := do
  match kind with
  | .infinite | .whileLoop _ => level.rounds kind body
  | .cStyle binding valueType initializer _ _ => do
    let value ← level.evalExpr initializer
    let value ← .lift (value.coerce operations.floats valueType)
    insertVariable binding value
    level.rounds kind body
  | .iterate binding iterable => do
    match ← level.evalExpr iterable with
    | .array values => iterateValues limits level binding body values
    | _ => Run.refuse "loop iterable is not an array"

/-- What a C-style loop does after a round. -/
def updateLoop (kind : LoopKind Op F) : Run F Unit := do
  match kind with
  | .cStyle binding valueType _ _ update => do
    let value ← level.evalExpr update
    let value ← .lift (value.coerce operations.floats valueType)
    setVariable operations.floats binding value
  | _ => return

/-- A round of a loop, and those after it. -/
def execRound (kind : LoopKind Op F) (body : List (Statement Op F)) : Run F (Signal F) := do
  tick limits
  match ← level.execBlock body with
  | .next | .continueSignal => do
    updateLoop operations level kind
    level.rounds kind body
  | .breakSignal => return .next
  | .returnSignal value => return .returnSignal value

/-- The rounds of a loop that goes on while it may. -/
def execRounds (kind : LoopKind Op F) (body : List (Statement Op F)) : Run F (Signal F) := do
  match kind with
  | .infinite => execRound operations limits level kind body
  | .whileLoop condition | .cStyle _ _ _ condition _ => do
    if ← evalCondition level condition then execRound operations limits level kind body
    else return .next
  | .iterate .. => return .next

/-- The variants of a question. -/
def QuestionCarrier.variants : QuestionCarrier → String × String
  | .result => ("Ok", "Err")
  | .option => ("Some", "None")

/-- `Statement::QuestionLet`. -/
def execQuestionLet (carrier : QuestionCarrier) (name : String) (valueType : ValueType)
    (resultExpr : ValueExpr Op F) (earlyExitActions : List (ValueExpr Op F)) : Run F (Signal F) := do
  let value ← level.evalExpr resultExpr
  match value with
  | .enum _ variant payload =>
    let (success, early) := carrier.variants
    if variant = early then do
      let _ ← .collect level.evalExpr earlyExitActions
      return .returnSignal value
    else if variant ≠ success then Run.refuse "question carrier variant is invalid"
    else
      match payload with
      | none => Run.refuse "question success has no payload"
      | some payload => do
        let payload ← .lift (payload.coerce operations.floats valueType)
        insertVariable name payload
        return .next
  | _ => Run.refuse "question operand is not an Option or Result"

/-- `Interpreter::exec_statement`. -/
def execStatement : Statement Op F → Run F (Signal F)
  | .letStmt name valueType initializer => do
    let value ← level.evalExpr initializer
    let value ← .lift (value.coerce operations.floats valueType)
    insertVariable name value
    return .next
  | .assign name value => do
    let value ← level.evalExpr value
    setVariable operations.floats name value
    return .next
  | .assignField base field value => do
    let value ← level.evalExpr value
    setPath operations.floats base field value
    return .next
  | .arrayIndexAssign root indices value => do
    let resolved ← .collect (evalIndex level) indices
    let value ← level.evalExpr value
    let rootValue ← getVariable root
    let rootValue ← .lift (setArrayPath operations.floats rootValue resolved value)
    insertVariable root rootValue
    return .next
  | .write stderr newline expr => do
    let value ← level.evalExpr expr
    writeOutput operations.floats limits value newline stderr
    return .next
  | .expr expr => do
    let _ ← level.evalExpr expr
    return .next
  | .returnStmt none => return .returnSignal .void
  | .returnStmt (some value) => do
    let value ← level.evalExpr value
    return .returnSignal value
  | .ifStmt condition body elseBody => do
    if ← evalCondition level condition then level.execBlock body else level.execBlock elseBody
  | .loop kind body => execLoop operations limits level kind body
  | .breakStmt => return .breakSignal
  | .continueStmt => return .continueSignal
  | .matchStmt value arms => do
    match ← level.evalExpr value with
    | .enum _ variant payload =>
      match arms.find? (fun | .mk armVariant _ _ => armVariant = variant) with
      | none => Run.refuse "no matching enum arm"
      | some (.mk _ binding body) => do
        bindPayload binding payload
        level.execBlock body
    | _ => Run.refuse "match value is not an enum"
  | .letElse binding value variant elseBody => do
    match ← level.evalExpr value with
    | .enum _ actual payload =>
      if actual = variant then
        match payload with
        | none => Run.refuse "let-else matched variant has no payload"
        | some payload => do
          insertVariable binding payload
          return .next
      else level.execBlock elseBody
    | _ => Run.refuse "let-else value is not an enum"
  | .ifLet binding value variant body elseBody => do
    match ← level.evalExpr value with
    | .enum _ actual payload =>
      if actual = variant then do
        bindPayload binding payload
        level.execBlock body
      else execElse elseBody
    | _ => execElse elseBody
  | .defer _ => Run.refuse "defer is collected by exec_block"
  | .panic message => do
    let value ← level.evalExpr message
    let shown := value.display operations.floats
    Run.refuse s!"panic: {shown}"
  | .questionLet carrier name valueType resultExpr earlyExitActions =>
    execQuestionLet operations level carrier name valueType resultExpr earlyExitActions
  | .questionReturn resultExpr => do
    let value ← level.evalExpr resultExpr
    return .returnSignal value
  | .taskSelect => .fail (.capability "task select")
  | .letIf | .letMatch =>
    Run.refuse "this control-flow form is not implemented by the browser interpreter yet"
where
  /-- The other branch of an `if let`, if there is one. -/
  execElse : Option (List (Statement Op F)) → Run F (Signal F)
    | some body => level.execBlock body
    | none => return .next

/-- The loop of `Interpreter::exec_block`, with the calls that were deferred before. -/
def execStatements : List (Statement Op F) → List (DeferredCall Op F) → Run F (Signal F)
  | [], deferred => do
    .each (runDeferred operations limits level) deferred.reverse
    return .next
  | .defer call :: rest, deferred => do
    tick limits
    execStatements rest (deferred ++ [call])
  | statement :: rest, deferred => do
    tick limits
    match ← execStatement operations limits level statement with
    | .next => execStatements rest deferred
    | signal => do
      .each (runDeferred operations limits level) deferred.reverse
      return signal

/-- `Interpreter::exec_block`. -/
def execBlock (statements : List (Statement Op F)) : Run F (Signal F) :=
  execStatements operations limits level statements []

end

/-! ## Runs -/

/-- The functions that call themselves, with a number of levels. -/
def levels : ℕ → Level Op F
  | 0 => { evalExpr := fun _ => .unfinished, execBlock := fun _ => .unfinished,
           rounds := fun _ _ => .unfinished }
  | n + 1 => { evalExpr := evalExpr operations program limits (levels n),
               execBlock := execBlock operations limits (levels n),
               rounds := execRounds operations limits (levels n) }

/-- Evaluate a constant. -/
def evalConstant (level : Level Op F) (constant : Constant Op F) : Run F Unit := do
  let value ← level.evalExpr constant.initializer
  let value ← .lift (value.coerce operations.floats constant.valueType)
  .update fun machine => { machine with globals := insertEntry machine.globals constant.name value }

/-- `Interpreter::run_main`, with a number of levels. -/
def runMain (n : ℕ) : Run F Unit := do
  let level := levels operations program limits n
  .each (evalConstant operations level) program.consts
  match ← callFunction operations program limits level "main" [] with
  | .void => return
  | _ => Run.refuse "`main` returned a non-void value"

end Nomo.Interpreter
