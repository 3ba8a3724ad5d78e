import Mathlib
import Nomo.Lib.AssocList

/-!
# The typed IR

The syntax trees of `nomo_ir/src/lib.rs`: the form every later stage of the compiler reads.

`ValueExpr` in the source has one constructor for each of about a hundred library operations that
take their operands by value and that no pass distinguishes (`StringLen`, `FsOpen`, …).  Here they
are one constructor, `builtin`, applied to a `Builtin` and to the operands in source evaluation
order; so are the literals.  Every expression that some pass treats on its own keeps its own
constructor, with the source's fields.  Boxes disappear, and a struct literal keeps its field names
and its field values as two lists.
-/

namespace Nomo.Ir

/-- The types of IR values (`nomo_ir/src/lib.rs:318–345`). -/
inductive ValueType where
  | string | cString | opaqueType
  | opaqueHandle (name : String)
  | ownedHandle (name : String)
  | borrowedHandle (name : String)
  | nullable (inner : ValueType)
  | externCallback (params : List ValueType) (returnType : ValueType)
  | taskCallback (params : List ValueType) (returnType : ValueType)
  | int | i32 | u32 | u64 | float | char | bool
  | array (element : ValueType)
  | struct (name : String) (args : List ValueType)
  | enum (name : String) (args : List ValueType)
  | typeParam (name : String)
  | void | never

/-- `ValueType::is_integer`. -/
def ValueType.isInteger : ValueType → Bool
  | .int | .i32 | .u32 | .u64 => true
  | _ => false

/-- Binary operators. -/
inductive BinaryOp where
  | logicalOr | logicalAnd | add | subtract | bitOr | bitXor | multiply | divide | remainder
  | shiftLeft | shiftRight | bitAnd | bitAndNot | equal | notEqual | less | lessEqual | greater
  | greaterEqual
deriving DecidableEq, Repr

/-- Unary operators. -/
inductive UnaryOp where
  | not | negate
deriving DecidableEq, Repr

/-- How an element store treats a buffer that may be shared (`nomo_ir/src/lib.rs:237–240`).
`checkedCow` detaches the buffer first unless its reference count is one; `checkedUnique` stores
without that test. -/
inductive ArrayMutationMode where
  | checkedCow | checkedUnique
deriving DecidableEq, Repr

/-- `?` operates on a `Result` or on an `Option`. -/
inductive QuestionCarrier where
  | result | option
deriving DecidableEq, Repr

/-- The JSON tree operations. -/
inductive JsonOperation where
  | kind | isNull | asBool | numberText | asString | arrayItems | objectMembers | get | fromNull
  | fromBool | fromNumberText | fromI64 | fromU64 | fromString | fromArray | fromObject
deriving DecidableEq, Repr

/-- The JSON-RPC operations. -/
inductive JsonRpcOperation where
  | decoder | feed | finish | parse | encode | value | kind | request | notification | success
  | failure
deriving DecidableEq, Repr

/-- The cron operations. -/
inductive CronOperation where
  | parse | matches | nextAfter
deriving DecidableEq, Repr

/-- One-argument functions of `std.math`. -/
inductive MathUnaryFunction where
  | abs | floor | ceil | round | sqrt | sin | cos
deriving DecidableEq, Repr

/-- Two-argument functions of `std.math`. -/
inductive MathBinaryFunction where
  | min | max | pow
deriving DecidableEq, Repr

/-- Overflow behaviour of the `std.num` operations. -/
inductive NumBinaryFunction where
  | checked | wrapping
deriving DecidableEq, Repr

/-- The library operations that take all their operands by value, left to right, and that no pass
tells apart. -/
inductive Builtin where
  | stringCompare (op : BinaryOp)
  | stringLen | stringConcat | stringIsEmpty | stringContains | stringStartsWith | stringEndsWith
  | stringSplit | stringTrim | stringToLower | stringToUpper
  | charIsDigit | charIsAlpha | charIsWhitespace | charToString
  | osPlatform | osArch | osPathSeparator | osLineEnding
  | timeNowMillis | timeMonotonicMillis | timeDurationMillis | timeDurationSeconds
  | timeDurationAsMillis | timeFormatDuration | timeSleep | timeSleepMillis
  | logEnabled
  | hashNew | hashString | hashBytes | hashWriteString | hashWriteBytes | hashFinish
  | cryptoSha256 | cryptoSha512 | cryptoRandomBytes
  | jsonParse | jsonStringify
  | jsonStructured (operation : JsonOperation)
  | jsonRpc (operation : JsonRpcOperation)
  | cron (operation : CronOperation)
  | regexCompile | regexIsMatch | regexCaptures
  | collectionsStringMapNew | collectionsStringMapLen | collectionsStringMapGet
  | collectionsStringMapContains | collectionsStringMapSet | collectionsStringMapRemove
  | collectionsStringSetNew | collectionsStringSetLen | collectionsStringSetContains
  | collectionsStringSetInsert | collectionsStringSetRemove
  | processExit | processSpawn | processStatus | processExec | processOutput
  | numParseI64 | numParseU64 | numParseF64
  | numToString (valueType : ValueType)
  | numBinary (function : NumBinaryFunction) (op : BinaryOp) (valueType : ValueType)
  | pathJoin | pathBasename | pathDirname | pathExtension | pathNormalize | pathIsAbsolute
  | mathUnary (function : MathUnaryFunction) (valueType : ValueType)
  | mathBinary (function : MathBinaryFunction) (valueType : ValueType)
  | fsReadToString | fsWriteString | fsReadBytes | fsWriteBytes | fsExists | fsMetadata
  | fsCreateDir | fsRemoveDir | fsReadDir | fsOpen
  | ioReadLine
  | fileClose | fileReadToString | fileWriteString
  | netConnect | netListen | netUdpBind
  | tcpListenerAccept | tcpListenerClose
  | tcpStreamClose | tcpStreamReadToString | tcpStreamWriteString
  | udpSocketClose | udpSocketRecvFromString | udpSocketSendToString
  | resultIsOk | resultIsErr | optionIsSome | optionIsNone
  | envGet | envSet | envCwd | envHomeDir | envTempDir | envArgs

/-- The literals. -/
inductive Literal where
  | string (text : String)
  | int (value : Int)
  | float (text : String)
  | char (value : Char)
  | bool (value : Bool)
  | void
deriving DecidableEq, Repr

/-- The combinators that pass a payload to a named converter function. -/
inductive Combinator where
  | resultMapErr | resultMap | resultAndThen | optionMap | optionAndThen
deriving DecidableEq, Repr

mutual

/-- IR expressions (`nomo_ir/src/lib.rs:395–…`). -/
inductive ValueExpr where
  | literal (value : Literal)
  | variable (name : String)
  | functionRef (name : String)
  | binary (left : ValueExpr) (op : BinaryOp) (right : ValueExpr) (valueType : ValueType)
  | unary (op : UnaryOp) (expr : ValueExpr)
  | cast (expr : ValueExpr) (targetType : ValueType)
  | builtin (op : Builtin) (args : List ValueExpr)
  | call (name : String) (args : List ValueExpr)
  | mutBorrow (path : List String)
  | combine (combinator : Combinator) (operand : ValueExpr) (converter : String)
  | unwrapOr (carrier : QuestionCarrier) (operand default : ValueExpr)
  | arrayNew (elementType : ValueType)
  | arrayLiteral (elements : List ValueExpr) (elementType : ValueType)
  | arrayIndex (array index : ValueExpr) (elementType : ValueType)
  | arrayLen (array : ValueExpr)
  | arrayIter (array : ValueExpr) (elementType : ValueType)
  | arrayGet (array index : ValueExpr) (elementType : ValueType)
  | arrayPop (array : String) (elementType : ValueType)
  | arrayRemove (array : String) (index : ValueExpr) (elementType : ValueType)
  | arrayPush (array : String) (value : ValueExpr) (elementType : ValueType)
  | arraySet (array : String) (index value : ValueExpr) (elementType : ValueType)
      (mutationMode : ArrayMutationMode)
  | arrayInsert (array : String) (index value : ValueExpr) (elementType : ValueType)
  | arrayClear (array : String) (elementType : ValueType)
  | structLiteral (typeName : String) (fieldNames : List String) (fieldValues : List ValueExpr)
  | fieldAccess (base field : String)
  | enumPayloadFieldAccess (value : ValueExpr) (variant field : String)
  | enumVariant (enumName : String) (enumArgs : List ValueType) (variant : String)
      (payload : Option ValueExpr)
  | enumPayload (value : ValueExpr) (variant : String)
  | matchOn (value : ValueExpr) (arms : List MatchValueArm)
  | ifThenElse (condition thenBranch elseBranch : ValueExpr)
  | panic (message : ValueExpr) (fallbackType : ValueType)

/-- An arm of a match expression. -/
inductive MatchValueArm where
  | mk (variant : String) (binding : Option String) (value : ValueExpr)

end

/-- A call deferred to the end of its block. -/
inductive DeferredCall where
  | expr (value : ValueExpr)
  | eprintln (value : ValueExpr)
  | eprint (value : ValueExpr)
  | println (value : ValueExpr)
  | print (value : ValueExpr)

/-- The operand of a deferred call. -/
def DeferredCall.operand : DeferredCall → ValueExpr
  | .expr value | .eprintln value | .eprint value | .println value | .print value => value

/-- The operation of a select arm. -/
inductive TaskSelectOperation where
  | receive (channel : ValueExpr) (elementType : ValueType)
  | send (channel value : ValueExpr) (elementType : ValueType)
  | sleep (duration : ValueExpr)
  | join (handle : String)

/-- The four kinds of loops. -/
inductive LoopKind where
  | infinite
  | whileTrue (condition : ValueExpr)
  | cStyle (binding : String) (valueType : ValueType) (initializer condition update : ValueExpr)
  | iterate (binding : String) (elementType : ValueType) (iterable : ValueExpr)

mutual

/-- IR statements (`nomo_ir/src/lib.rs:72–176`). -/
inductive Statement where
  | letBind (name : String) (valueType : ValueType) (initializer : ValueExpr)
  | letIf (name : String) (valueType : ValueType) (condition : ValueExpr)
      (body elseBody : List Statement)
  | letMatch (name : String) (valueType : ValueType) (value : ValueExpr) (enumName : String)
      (arms : List MatchStatementArm)
  | questionLet (carrier : QuestionCarrier) (name : String) (valueType : ValueType)
      (resultExpr : ValueExpr) (earlyExitActions : List ValueExpr)
  | questionReturn (carrier : QuestionCarrier) (okType : ValueType) (resultExpr : ValueExpr)
      (earlyExitActions : List ValueExpr)
  | letElse (binding : String) (valueType : ValueType) (value : ValueExpr) (variant : String)
      (elseBody : List Statement)
  | ifLet (binding : Option String) (valueType : Option ValueType) (value : ValueExpr)
      (variant : String) (body : List Statement) (elseBody : Option (List Statement))
  | ifThenElse (condition : ValueExpr) (body elseBody : List Statement)
  | assign (name : String) (value : ValueExpr)
  | assignField (base field : String) (valueType : ValueType) (value : ValueExpr)
  | arrayIndexAssign (root : String) (indices : List ValueExpr) (arrayTypes : List ValueType)
      (value : ValueExpr) (mutationMode : ArrayMutationMode)
  | eprintln (value : ValueExpr)
  | eprint (value : ValueExpr)
  | println (value : ValueExpr)
  | print (value : ValueExpr)
  | panic (message : ValueExpr)
  | returnValue (value : Option ValueExpr)
  | expr (value : ValueExpr)
  | matchOn (value : ValueExpr) (enumName : String) (arms : List MatchStatementArm)
  | taskSelect (arms : List TaskSelectArm)
  | loop (kind : LoopKind) (body : List Statement)
  | breakLoop
  | continueLoop
  | defer (call : DeferredCall)

/-- An arm of a match statement. -/
inductive MatchStatementArm where
  | mk (variant : String) (binding : Option String) (body : List Statement)

/-- An arm of a `task.select`. -/
inductive TaskSelectArm where
  | mk (operation : TaskSelectOperation) (binding : String) (bindingType : ValueType)
      (body : List Statement)

end

/-- The body of a match arm. -/
def MatchStatementArm.body : MatchStatementArm → List Statement
  | ⟨_, _, body⟩ => body

/-- The body of a select arm. -/
def TaskSelectArm.body : TaskSelectArm → List Statement
  | ⟨_, _, _, body⟩ => body

/-- A function parameter. -/
structure Parameter where
  name : String
  mutable : Bool
  valueType : ValueType

/-- A function (`nomo_ir/src/lib.rs:55–62`). -/
structure Function where
  package : String
  name : String
  isSuspend : Bool
  params : List Parameter
  body : List Statement

/-- A program: its functions.  Imports, type declarations and extern signatures play no part in
the passes modelled here, and constants are the globals of a run. -/
structure Program where
  functions : List Function

/-- `ValueExpr::child_expressions`: the directly nested expressions in source evaluation order
(`nomo_ir/src/lib.rs:920–1165`). -/
def ValueExpr.childExpressions : ValueExpr → List ValueExpr
  | .binary left _ right _ => [left, right]
  | .unary _ expr | .cast expr _ => [expr]
  | .builtin _ args | .call _ args => args
  | .combine _ operand _ => [operand]
  | .unwrapOr _ operand default => [operand, default]
  | .arrayLiteral elements _ => elements
  | .arrayIndex array index _ | .arrayGet array index _ => [array, index]
  | .arrayLen array | .arrayIter array _ => [array]
  | .arrayRemove _ index _ => [index]
  | .arrayPush _ value _ => [value]
  | .arraySet _ index value _ _ | .arrayInsert _ index value _ => [index, value]
  | .structLiteral _ _ values => values
  | .enumPayloadFieldAccess value _ _ | .enumPayload value _ => [value]
  | .enumVariant _ _ _ payload => payload.toList
  | .matchOn value arms => value :: arms.map fun ⟨_, _, armValue⟩ => armValue
  | .ifThenElse condition thenBranch elseBranch => [condition, thenBranch, elseBranch]
  | .panic message _ => [message]
  | .literal _ | .variable _ | .functionRef _ | .mutBorrow _ | .arrayNew _ | .arrayPop ..
  | .arrayClear .. | .fieldAccess .. => []

/-! ## Equality of types

`ValueType` derives `PartialEq` in the source, and the compiler compares types everywhere. The
comparison here follows the derived one: constructors first, then their parts in order. -/


namespace ValueType

mutual

/-- `ValueType::eq`. -/
def beq : ValueType → ValueType → Bool
  | .string, .string => true
  | .cString, .cString => true
  | .opaqueType, .opaqueType => true
  | .opaqueHandle name, .opaqueHandle other => name == other
  | .ownedHandle name, .ownedHandle other => name == other
  | .borrowedHandle name, .borrowedHandle other => name == other
  | .nullable inner, .nullable other => beq inner other
  | .externCallback params returnType, .externCallback params' returnType' =>
    beqAll params params' && beq returnType returnType'
  | .taskCallback params returnType, .taskCallback params' returnType' =>
    beqAll params params' && beq returnType returnType'
  | .int, .int => true
  | .i32, .i32 => true
  | .u32, .u32 => true
  | .u64, .u64 => true
  | .float, .float => true
  | .char, .char => true
  | .bool, .bool => true
  | .array element, .array other => beq element other
  | .struct name args, .struct other args' => name == other && beqAll args args'
  | .enum name args, .enum other args' => name == other && beqAll args args'
  | .typeParam name, .typeParam other => name == other
  | .void, .void => true
  | .never, .never => true
  | _, _ => false

/-- Equality of lists of types. -/
def beqAll : List ValueType → List ValueType → Bool
  | [], [] => true
  | arg :: args, other :: others => beq arg other && beqAll args others
  | _, _ => false

end

mutual

theorem beq_iff_eq : ∀ valueType other, beq valueType other = true ↔ valueType = other
  | .string, other | .cString, other | .opaqueType, other | .int, other | .i32, other
  | .u32, other | .u64, other | .float, other | .char, other | .bool, other | .void, other
  | .never, other | .opaqueHandle _, other | .ownedHandle _, other | .borrowedHandle _, other
  | .typeParam _, other => by
    cases other <;> simp [beq]
  | .nullable inner, other => by
    cases other with
    | nullable inner' => simp [beq, beq_iff_eq inner inner']
    | _ => simp [beq]
  | .array element, other => by
    cases other with
    | array element' => simp [beq, beq_iff_eq element element']
    | _ => simp [beq]
  | .externCallback params returnType, other => by
    cases other with
    | externCallback params' returnType' =>
      simp [beq, beqAll_iff_eq params params', beq_iff_eq returnType returnType']
    | _ => simp [beq]
  | .taskCallback params returnType, other => by
    cases other with
    | taskCallback params' returnType' =>
      simp [beq, beqAll_iff_eq params params', beq_iff_eq returnType returnType']
    | _ => simp [beq]
  | .struct name args, other => by
    cases other with
    | struct name' args' => simp [beq, beqAll_iff_eq args args']
    | _ => simp [beq]
  | .enum name args, other => by
    cases other with
    | enum name' args' => simp [beq, beqAll_iff_eq args args']
    | _ => simp [beq]

theorem beqAll_iff_eq : ∀ types others, beqAll types others = true ↔ types = others
  | [], [] => by simp [beqAll]
  | [], other :: others => by simp [beqAll]
  | arg :: args, [] => by simp [beqAll]
  | arg :: args, other :: others => by simp [beqAll, beq_iff_eq arg other, beqAll_iff_eq args others]

end

instance : DecidableEq ValueType := fun valueType other =>
  decidable_of_iff _ (beq_iff_eq valueType other)

end ValueType

end Nomo.Ir
