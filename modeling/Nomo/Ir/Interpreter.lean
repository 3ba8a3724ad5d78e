import Nomo.Ir.Machine

/-!
# The meaning of a program

A fuel-driven interpreter for the IR, in the shape of the repository's own
(`nomo_wasm/src/interpreter.rs:489–1290`): a frame of variables, a signal for how a statement ends,
deferred calls run at the end of their block.  It differs from that one where native code differs
from it: arrays live in the reference-counted heap, blocks give up their variables at the end
(`nomo_codegen_c/src/statements/statements.rs:415–515`), and a `mut` argument is lent to the callee
for the time of the call rather than copied in and out.  The front end refuses overlapping `mut`
arguments (E0502, `nomo_compiler/src/expressions/expression_helpers.rs:383–402`), so lending cannot
be told from passing a pointer.

Fuel bounds the depth of evaluation; a run that uses it up stops in the state it has reached.
-/

namespace Nomo.Ir

/-- How a statement ends. -/
inductive Signal where
  | next
  | breakLoop
  | continueLoop
  | returned (v : Value)

/-- The buffers a signal refers to. -/
def Signal.handles : Signal → List Nat
  | .returned v => v.handles
  | _ => []

/-- An argument of a call: a value, or a variable or field lent to a `mut` parameter. -/
inductive Argument where
  | value (v : Value)
  | lent (path : List String)

/-- The buffers an argument list refers to. -/
def argumentHandles : List Argument → List Nat
  | [] => []
  | .value v :: rest => v.handles ++ argumentHandles rest
  | .lent _ :: rest => argumentHandles rest

/-- What a run depends on. -/
structure Setting where
  host : Host
  monitor : Bool
  program : Program

/-- The variant that a `?` takes apart. -/
def QuestionCarrier.success : QuestionCarrier → String
  | .result => "Ok"
  | .option => "Some"

/-- The variant that makes a `?` return early. -/
def QuestionCarrier.early : QuestionCarrier → String
  | .result => "Err"
  | .option => "None"

/-- The variant a combinator applies its converter to. -/
def Combinator.variant : Combinator → String
  | .resultMapErr => "Err"
  | .resultMap | .resultAndThen => "Ok"
  | .optionMap | .optionAndThen => "Some"

/-- Whether a combinator wraps the converter's result in that variant again. -/
def Combinator.wraps : Combinator → Bool
  | .resultMapErr | .resultMap | .optionMap => true
  | .resultAndThen | .optionAndThen => false

/-- The statements of the match arm for a variant. -/
def armBody : List MatchStatementArm → String → Option (List Statement)
  | [], _ => none
  | ⟨variant, _, body⟩ :: arms, actual =>
    if variant = actual then some body else armBody arms actual

/-- The value of the match arm for a variant. -/
def armValue : List MatchValueArm → String → Option ValueExpr
  | [], _ => none
  | ⟨variant, _, value⟩ :: arms, actual =>
    if variant = actual then some value else armValue arms actual

/-- Move the lent variables out of the caller's frame; the other arguments are ready. -/
def lendAll : List Argument → Exec (List Value)
  | [] => pure []
  | .value v :: rest => do
    let vs ← lendAll rest
    pure (v :: vs)
  | .lent path :: rest => do
    let v ← lendPath path
    let vs ← lendAll rest
    pure (v :: vs)

/-- After a call: lent variables get their values back, parameters passed by value are given up. -/
def settleAll : List Argument → List Value → Exec Unit
  | .value _ :: rest, v :: vs => do
    discard v
    settleAll rest vs
  | .lent path :: rest, v :: vs => do
    storeField path v
    settleAll rest vs
  | _, _ => pure ()

/-- Store through a path of indices: the arrays on the way are copied out, changed and put back
(`statements.rs:310–412`).  Only the store at depth one has a mode. -/
def storePath (monitor : Bool) : ArrayMutationMode → List Nat → Nat → Value → Exec Nat
  | _, [], _, _ => unsupported
  | mode, [i], h, v => setElement monitor mode h i v
  | _, i :: j :: rest, h, v => do
    match ← fetch h i with
    | some (.array child) =>
      let child ← storePath monitor .checkedCow (j :: rest) child v
      setElement monitor .checkedCow h i (.array child)
    | _ => throw (.panic "array index out of bounds")

/-- Take a value apart as an enum value. -/
def splitVariant : Value → Exec (String × List Value)
  | .enum variant payload => pure (variant, payload)
  | _ => unsupported

/-- The field of a payload that is a struct. -/
def payloadField (field : String) : List Value → Exec Value
  | [.struct _ fieldNames values] =>
    match fieldIndex fieldNames field with
    | some i =>
      match values[i]? with
      | some v => pure v
      | none => unsupported
    | none => unsupported
  | _ => unsupported

/-- Copy a value. -/
def copyValue (v : Value) : Exec Value := fun m => .ok v (m.retain v)

/-- The operator of a statement that changes the array it assigns to: `xs = xs.push(v)` and the
like change `xs` in place. -/
def inPlace (name : String) : ValueExpr → Bool
  | .arraySet array _ _ _ _ | .arrayPush array _ _ | .arrayInsert array _ _ _
  | .arrayClear array _ => array = name
  | _ => false

mutual

/-- Evaluate an expression. -/
def eval (g : Setting) : Nat → ValueExpr → Exec Value
  | 0, _ => throw .outOfFuel
  | n + 1, e =>
    match e with
    | .literal l => pure (.literal l)
    | .variable name => copyVariable name
    | .functionRef name => pure (.functionRef name)
    | .binary left op right valueType =>
      match op with
      | .logicalAnd => do
        let b ← evalBool g n left
        if b then eval g n right else pure (.literal (.bool false))
      | .logicalOr => do
        let b ← evalBool g n left
        if b then pure (.literal (.bool true)) else eval g n right
      | op => do
        let vs ← evalAll g n [left, right]
        request (g.host.primitive (.binary op valueType) vs) vs
    | .unary op operand => do
      let v ← eval g n operand
      request (g.host.primitive (.unary op) [v]) [v]
    | .cast operand targetType => do
      let v ← eval g n operand
      request (g.host.primitive (.cast targetType) [v]) [v]
    | .builtin op args => do
      let vs ← evalAll g n args
      request (g.host.primitive (.builtin op) vs) vs
    | .call name args => callFunction g n name args
    | .mutBorrow path => copyPath path
    | .combine combinator operand converter => do
      let v ← eval g n operand
      let (variant, payload) ← splitVariant v
      if variant = combinator.variant then
        let r ← applyFunction g n converter payload
        if combinator.wraps then pure (.enum variant [r]) else pure r
      else pure v
    | .unwrapOr carrier operand default => do
      let v ← eval g n operand
      let (variant, payload) ← splitVariant v
      if variant = carrier.success then
        match payload with
        | [p] => pure p
        | _ => unsupported
      else
        discard v
        eval g n default
    | .arrayNew _ => do
      let h ← newArray []
      pure (.array h)
    | .arrayLiteral elements _ => do
      let vs ← evalAll g n elements
      let h ← newArray vs
      pure (.array h)
    | .arrayIndex array index _ => do
      match ← evalElement g n array index with
      | some v => pure v
      | none => throw (.panic "array index out of bounds")
    | .arrayGet array index _ => do
      match ← evalElement g n array index with
      | some v => pure (Value.some v)
      | none => pure Value.none
    | .arrayLen array => evalLength g n array
    | .arrayIter array _ => eval g n array
    | .arrayPop array _ =>
      updateArray array fun h => do
        let len ← arrayLength h
        removeElement h (len - 1)
    | .arrayRemove array index _ => do
      let i ← evalIndex g n index
      updateArray array fun h => removeElement h i
    | .arrayPush array value _ => do
      let v ← eval g n value
      let h ← copyVariable array >>= Value.asArray
      let h ← pushElement h v
      pure (.array h)
    | .arraySet array index value _ mutationMode => do
      let i ← evalIndex g n index
      let v ← eval g n value
      let h ← copyVariable array >>= Value.asArray
      let h ← setElement g.monitor mutationMode h i v
      pure (.array h)
    | .arrayInsert array index value _ => do
      let i ← evalIndex g n index
      let v ← eval g n value
      let h ← copyVariable array >>= Value.asArray
      let h ← insertElement h i v
      pure (.array h)
    | .arrayClear array _ => do
      let h ← copyVariable array >>= Value.asArray
      let h ← clearElements h
      pure (.array h)
    | .structLiteral typeName fieldNames fieldValues => do
      let vs ← evalAll g n fieldValues
      pure (.struct typeName fieldNames vs)
    | .fieldAccess base field => copyPath [base, field]
    | .enumPayloadFieldAccess value variant field => do
      let v ← eval g n value
      let (actual, payload) ← splitVariant v
      if actual = variant then
        let inner ← payloadField field payload
        let inner ← copyValue inner
        discard v
        pure inner
      else unsupported
    | .enumVariant _ _ variant none => pure (.enum variant [])
    | .enumVariant _ _ variant (some payload) => do
      let v ← eval g n payload
      pure (.enum variant [v])
    | .enumPayload value variant => do
      let v ← eval g n value
      let (actual, payload) ← splitVariant v
      if actual = variant then
        match payload with
        | [p] => pure p
        | _ => unsupported
      else unsupported
    | .matchOn value arms => do
      let v ← eval g n value
      let (variant, _) ← splitVariant v
      discard v
      match armValue arms variant with
      | some body => eval g n body
      | none => unsupported
    | .ifThenElse condition thenBranch elseBranch => do
      let b ← evalBool g n condition
      if b then eval g n thenBranch else eval g n elseBranch
    | .panic message _ => do
      let v ← eval g n message
      panicWith g.host v

/-- Evaluate expressions from left to right. -/
def evalAll (g : Setting) : Nat → List ValueExpr → Exec (List Value)
  | 0, _ => throw .outOfFuel
  | _ + 1, [] => pure []
  | n + 1, e :: es => do
    let v ← eval g n e
    let vs ← evalAll g n es
    pure (v :: vs)

/-- Evaluate a condition. -/
def evalBool (g : Setting) : Nat → ValueExpr → Exec Bool
  | 0, _ => throw .outOfFuel
  | n + 1, e => do
    let v ← eval g n e
    v.asBool

/-- Evaluate an index. -/
def evalIndex (g : Setting) : Nat → ValueExpr → Exec Nat
  | 0, _ => throw .outOfFuel
  | n + 1, e => do
    let v ← eval g n e
    v.asIndex

/-- Evaluate the indices of a store. -/
def evalIndices (g : Setting) : Nat → List ValueExpr → Exec (List Nat)
  | 0, _ => throw .outOfFuel
  | _ + 1, [] => pure []
  | n + 1, e :: es => do
    let i ← evalIndex g n e
    let is ← evalIndices g n es
    pure (i :: is)

/-- Read an element.  The array of a variable is read where it is, without taking a reference. -/
def evalElement (g : Setting) : Nat → ValueExpr → ValueExpr → Exec (Option Value)
  | 0, _, _ => throw .outOfFuel
  | n + 1, .variable name, index => do
    let i ← evalIndex g n index
    let h ← borrowArray name
    fetch h i
  | n + 1, array, index => do
    let v ← eval g n array
    let i ← evalIndex g n index
    let h ← v.asArray
    let r ← fetch h i
    discard v
    pure r

/-- Read a length, likewise. -/
def evalLength (g : Setting) : Nat → ValueExpr → Exec Value
  | 0, _ => throw .outOfFuel
  | _ + 1, .variable name => do
    let h ← borrowArray name
    let len ← arrayLength h
    pure (.literal (.int len))
  | n + 1, array => do
    let v ← eval g n array
    let h ← v.asArray
    let len ← arrayLength h
    discard v
    pure (.literal (.int len))

/-- Evaluate the arguments of a call. -/
def evalArguments (g : Setting) : Nat → List Parameter → List ValueExpr → Exec (List Argument)
  | 0, _, _ => throw .outOfFuel
  | n + 1, parameter :: parameters, argument :: arguments => do
    let a ← evalArgument g n parameter argument
    let rest ← evalArguments g n parameters arguments
    pure (a :: rest)
  | _ + 1, _, _ => pure []

/-- Evaluate one argument: a `mut` parameter borrows its argument. -/
def evalArgument (g : Setting) : Nat → Parameter → ValueExpr → Exec Argument
  | 0, _, _ => throw .outOfFuel
  | n + 1, parameter, argument =>
    match parameter.mutable, argument with
    | true, .mutBorrow path => pure (.lent path)
    | _, argument => do
      let v ← eval g n argument
      pure (.value v)

/-- A call expression (`interpreter.rs:459–512`). -/
def callFunction (g : Setting) : Nat → String → List ValueExpr → Exec Value
  | 0, _, _ => throw .outOfFuel
  | n + 1, name, args =>
    match g.program.functions.find? (·.name = name) with
    | some function =>
      if function.params.length = args.length then do
        let given ← evalArguments g n function.params args
        let vs ← lendAll given
        let (result, outs) ← invoke g n function vs
        settleAll given outs
        pure result
      else unsupported
    | none => do
      let vs ← evalAll g n args
      request (g.host.external name vs) vs

/-- Call a function by name on values: the converter of a combinator. -/
def applyFunction (g : Setting) : Nat → String → List Value → Exec Value
  | 0, _, _ => throw .outOfFuel
  | n + 1, name, vs =>
    match g.program.functions.find? (·.name = name) with
    | some function => do
      let (result, outs) ← invoke g n function vs
      discardAll outs
      pure result
    | none => request (g.host.external name vs) vs

/-- Run a function body on a frame of its own.  Besides the result this yields the final values of
the parameters. -/
def invoke (g : Setting) : Nat → Function → List Value → Exec (Value × List Value)
  | 0, _, _ => throw .outOfFuel
  | n + 1, function, vs => fun m =>
    if function.params.length = vs.length then
      match execBlock g n function.body
          { m with frame := (function.params.map Parameter.name).zip vs } with
      | .ok (.returned v) m' => .ok (v, m'.frame.map Prod.snd) { m' with frame := m.frame }
      | .ok .next m' => .ok (.unit, m'.frame.map Prod.snd) { m' with frame := m.frame }
      | .ok _ m' => .error .unsupported m'
      | .error e m' => .error e m'
    else .error .unsupported m

/-- Run a block: its statements, its deferred calls, and the end of its scope. -/
def execBlock (g : Setting) : Nat → List Statement → Exec Signal
  | 0, _ => throw .outOfFuel
  | n + 1, body => do
    let depth ← scopeDepth
    let (signal, deferred) ← execAll g n body []
    runDeferred g n deferred
    leaveScope depth
    pure signal

/-- Run statements in order, collecting deferred calls. -/
def execAll (g : Setting) :
    Nat → List Statement → List DeferredCall → Exec (Signal × List DeferredCall)
  | 0, _, _ => throw .outOfFuel
  | _ + 1, [], deferred => pure (.next, deferred)
  | n + 1, statement :: rest, deferred =>
    match statement with
    | .defer call => execAll g n rest (call :: deferred)
    | statement => do
      match ← exec g n statement with
      | .next => execAll g n rest deferred
      | signal => pure (signal, deferred)

/-- Run deferred calls, the last one first. -/
def runDeferred (g : Setting) : Nat → List DeferredCall → Exec Unit
  | 0, _ => throw .outOfFuel
  | _ + 1, [] => pure ()
  | n + 1, call :: rest => do
    let v ← eval g n call.operand
    match call with
    | .expr _ => discard v
    | .println _ | .eprintln _ => write g.host true v
    | .print _ | .eprint _ => write g.host false v
    runDeferred g n rest

/-- Assign to a variable.  An operator on the assigned array itself works in place. -/
def execAssign (g : Setting) : Nat → String → ValueExpr → Exec Unit
  | 0, _, _ => throw .outOfFuel
  | n + 1, name, value =>
    if inPlace name value then
      match value with
      | .arraySet _ index element _ mutationMode => do
        let i ← evalIndex g n index
        let v ← eval g n element
        updateArray name fun h => do
          let h ← setElement g.monitor mutationMode h i v
          pure (h, ())
      | .arrayPush _ element _ => do
        let v ← eval g n element
        updateArray name fun h => do
          let h ← pushElement h v
          pure (h, ())
      | .arrayInsert _ index element _ => do
        let i ← evalIndex g n index
        let v ← eval g n element
        updateArray name fun h => do
          let h ← insertElement h i v
          pure (h, ())
      | _ =>
        updateArray name fun h => do
          let h ← clearElements h
          pure (h, ())
    else do
      let v ← eval g n value
      assignVariable name v

/-- Run the arm of a match. -/
def execArm (g : Setting) : Nat → List MatchStatementArm → String → Exec Signal
  | 0, _, _ => throw .outOfFuel
  | n + 1, arms, variant =>
    match armBody arms variant with
    | some body => execBlock g n body
    | none => unsupported

/-- Run one statement (`interpreter.rs:582–781`). -/
def exec (g : Setting) : Nat → Statement → Exec Signal
  | 0, _ => throw .outOfFuel
  | n + 1, statement =>
    match statement with
    | .letBind name _ initializer => do
      let v ← eval g n initializer
      declare name v
      pure .next
    | .letIf name _ condition body elseBody => do
      let b ← evalBool g n condition
      declare name .unit
      execBlock g n (if b then body else elseBody)
    | .letMatch name _ value _ arms => do
      let v ← eval g n value
      let (variant, _) ← splitVariant v
      discard v
      declare name .unit
      execArm g n arms variant
    | .questionLet carrier name _ resultExpr earlyExitActions => do
      let v ← eval g n resultExpr
      let (variant, payload) ← splitVariant v
      if variant = carrier.early then
        let vs ← evalAll g n earlyExitActions
        discardAll vs
        pure (.returned v)
      else
        match payload with
        | [p] => do
          declare name p
          pure .next
        | _ => unsupported
    | .questionReturn carrier _ resultExpr earlyExitActions => do
      let v ← eval g n resultExpr
      let (variant, _) ← splitVariant v
      if variant = carrier.early then
        let vs ← evalAll g n earlyExitActions
        discardAll vs
        pure (.returned v)
      else pure (.returned v)
    | .letElse binding _ value variant elseBody => do
      let v ← eval g n value
      let (actual, payload) ← splitVariant v
      if actual = variant then
        match payload with
        | [p] => do
          declare binding p
          pure .next
        | _ => unsupported
      else
        discard v
        execBlock g n elseBody
    | .ifLet binding _ value variant body elseBody => do
      let v ← eval g n value
      let (actual, payload) ← splitVariant v
      if actual = variant then
        match binding, payload with
        | some name, [p] => do
          let depth ← scopeDepth
          declare name p
          let signal ← execBlock g n body
          leaveScope depth
          pure signal
        | _, _ => do
          discard v
          execBlock g n body
      else
        discard v
        match elseBody with
        | some elseBody => execBlock g n elseBody
        | none => pure .next
    | .ifThenElse condition body elseBody => do
      let b ← evalBool g n condition
      execBlock g n (if b then body else elseBody)
    | .assign name value => do
      execAssign g n name value
      pure .next
    | .assignField base field _ value => do
      let v ← eval g n value
      storeField [base, field] v
      pure .next
    | .arrayIndexAssign root indices _ value mutationMode => do
      let is ← evalIndices g n indices
      let v ← eval g n value
      updateArray root fun h => do
        let h ← storePath g.monitor mutationMode is h v
        pure (h, ())
      pure .next
    | .println value | .eprintln value => do
      let v ← eval g n value
      write g.host true v
      pure .next
    | .print value | .eprint value => do
      let v ← eval g n value
      write g.host false v
      pure .next
    | .panic message => do
      let v ← eval g n message
      panicWith g.host v
    | .returnValue none => pure (.returned .unit)
    | .returnValue (some value) => do
      let v ← eval g n value
      pure (.returned v)
    | .expr value => do
      let v ← eval g n value
      discard v
      pure .next
    | .matchOn value _ arms => do
      let v ← eval g n value
      let (variant, _) ← splitVariant v
      discard v
      execArm g n arms variant
    | .taskSelect _ => unsupported
    | .loop kind body => execLoop g n kind body
    | .breakLoop => pure .breakLoop
    | .continueLoop => pure .continueLoop
    | .defer _ => pure .next

/-- Run a loop (`interpreter.rs:783–845`). -/
def execLoop (g : Setting) : Nat → LoopKind → List Statement → Exec Signal
  | 0, _, _ => throw .outOfFuel
  | n + 1, kind, body =>
    match kind with
    | .infinite => loopForever g n body
    | .whileTrue condition => loopWhile g n condition body
    | .cStyle binding _ initializer condition update => do
      let v ← eval g n initializer
      let depth ← scopeDepth
      declare binding v
      let signal ← loopCStyle g n binding condition update body
      leaveScope depth
      pure signal
    | .iterate binding _ iterable => do
      let v ← eval g n iterable
      let h ← v.asArray
      let signal ← loopIterate g n binding h 0 body
      discard v
      pure signal

/-- `for { body }`. -/
def loopForever (g : Setting) : Nat → List Statement → Exec Signal
  | 0, _ => throw .outOfFuel
  | n + 1, body => do
    match ← execBlock g n body with
    | .next | .continueLoop => loopForever g n body
    | .breakLoop => pure .next
    | .returned v => pure (.returned v)

/-- `for condition { body }`. -/
def loopWhile (g : Setting) : Nat → ValueExpr → List Statement → Exec Signal
  | 0, _, _ => throw .outOfFuel
  | n + 1, condition, body => do
    let b ← evalBool g n condition
    if b then
      match ← execBlock g n body with
      | .next | .continueLoop => loopWhile g n condition body
      | .breakLoop => pure .next
      | .returned v => pure (.returned v)
    else pure .next

/-- `for binding := initializer; condition; update { body }`, after the initializer. -/
def loopCStyle (g : Setting) :
    Nat → String → ValueExpr → ValueExpr → List Statement → Exec Signal
  | 0, _, _, _, _ => throw .outOfFuel
  | n + 1, binding, condition, update, body => do
    let b ← evalBool g n condition
    if b then
      match ← execBlock g n body with
      | .next | .continueLoop => do
        let v ← eval g n update
        assignVariable binding v
        loopCStyle g n binding condition update body
      | .breakLoop => pure .next
      | .returned v => pure (.returned v)
    else pure .next

/-- `for binding in iterable { body }` from the `i`-th element on.  The buffer stays referenced by
the loop, so a store to it from the body detaches. -/
def loopIterate (g : Setting) : Nat → String → Nat → Nat → List Statement → Exec Signal
  | 0, _, _, _, _ => throw .outOfFuel
  | n + 1, binding, h, i, body => do
    match ← fetch h i with
    | some v => do
      let depth ← scopeDepth
      declare binding v
      let signal ← execBlock g n body
      leaveScope depth
      match signal with
      | .next | .continueLoop => loopIterate g n binding h (i + 1) body
      | .breakLoop => pure .next
      | .returned v => pure (.returned v)
    | none => pure .next

end

end Nomo.Ir
