import Mathlib

/-!
# Values and programs of the browser interpreter

`nomo_wasm/src/interpreter.rs:27–217, 1743–1812`, `nomo_ir/src/lib.rs:317–381`: the values, their texts,
and how a value is made to fit a type or a place. The interpreter's `f64` is a type `F` that is not
looked into, and a `HashMap` is the list of its entries.

The typed intermediate code, `nomo_ir/src/lib.rs:20–240, 395–700`, as far as the interpreter reads it.

Most expressions evaluate their operands from left to right and compute a value from them. They are
one constructor, `operation`: which operations there are is a type `Op` that is not looked into, and
what one computes, after an operand or at the end, is a pure function of the values of its operands.
An operation that needs the host has no operands here, as the interpreter refuses it before it
evaluates one. Every expression that chooses what to evaluate, or that reads or writes a variable, has
its own constructor.
-/

namespace Nomo.Interpreter

/-! ## Errors -/

/-- The codes of runtime errors. -/
inductive ErrorCode
  | fuel
  | output
  | capability
  | runtime
deriving DecidableEq

/-- The texts of the codes. -/
def ErrorCode.text : ErrorCode → String
  | fuel => "NOMO-WASM-001"
  | output => "NOMO-WASM-002"
  | capability => "NOMO-WASM-003"
  | runtime => "NOMO-WASM-004"

/-- `RuntimeError`. -/
structure RuntimeError where
  code : ErrorCode
  message : String
deriving DecidableEq

namespace RuntimeError

def fuel : RuntimeError := ⟨.fuel, "execution step limit exceeded"⟩

def output : RuntimeError := ⟨.output, "program output limit exceeded"⟩

def capability (capability : String) : RuntimeError :=
  ⟨.capability,
    s!"`{capability}` is unavailable in the browser sandbox because it requires host access"⟩

def runtime (message : String) : RuntimeError := ⟨.runtime, message⟩

end RuntimeError

/-- An error of the program. -/
def runtimeError {α : Type} (message : String) : Except RuntimeError α := .error (.runtime message)

/-! ## Types -/

/-- `ValueType`. -/
inductive ValueType
  | string
  | cString
  | opaquePointer
  | opaqueHandle (name : String)
  | ownedHandle (name : String)
  | borrowedHandle (name : String)
  | nullable (inner : ValueType)
  | externCallback (params : List ValueType) (returnType : ValueType)
  | taskCallback (params : List ValueType) (returnType : ValueType)
  | int
  | i32
  | u32
  | u64
  | float
  | char
  | bool
  | array (element : ValueType)
  | struct (name : String) (args : List ValueType)
  | enum (name : String) (args : List ValueType)
  | typeParam (name : String)
  | void
  | never

/-- `ValueType::name`. -/
def ValueType.name : ValueType → String
  | string => "string"
  | cString => "CString"
  | opaquePointer => "Opaque"
  | opaqueHandle name => name
  | ownedHandle name => name
  | borrowedHandle name => name
  | nullable _ => "Nullable"
  | externCallback .. => "extern C callback"
  | taskCallback .. => "task worker"
  | int => "i64"
  | i32 => "i32"
  | u32 => "u32"
  | u64 => "u64"
  | float => "f64"
  | char => "char"
  | bool => "bool"
  | array _ => "Array"
  | struct name args => if args.isEmpty then name else "struct"
  | enum name _ => name
  | typeParam name => name
  | void => "void"
  | never => "never"

/-! ## Values -/

/-- `Value`. -/
inductive Value (F : Type)
  | string (value : String)
  | i64 (value : ℤ)
  | i32 (value : ℤ)
  | u32 (value : ℤ)
  | u64 (value : ℤ)
  | f64 (value : F)
  | char (value : Char)
  | bool (value : Bool)
  | array (values : List (Value F))
  | struct (name : String) (fields : List (String × Value F))
  | enum (name : String) (variant : String) (payload : Option (Value F))
  | void

/-- What the interpreter does with floating-point numbers. -/
structure Floats (F : Type) where
  display : F → String
  ofInt : ℤ → F

section Operations

variable {F : Type} (floats : Floats F)

namespace Value

mutual

/-- `Value::display`. -/
def display : Value F → String
  | string value => value
  | i64 value => toString value
  | i32 value => toString value
  | u32 value => toString value
  | u64 value => toString value
  | f64 value => floats.display value
  | char value => String.singleton value
  | bool value => if value then "true" else "false"
  | array values =>
    let rendered := ", ".intercalate (displayAll values)
    s!"[{rendered}]"
  | struct name fields =>
    let rendered := ", ".intercalate ((displayFields fields).mergeSort (fun a b => decide (a ≤ b)))
    name ++ " \x7b " ++ rendered ++ " \x7d"
  | enum name variant none => s!"{name}.{variant}"
  | enum name variant (some payload) =>
    let rendered := display payload
    s!"{name}.{variant}({rendered})"
  | void => ""

/-- The texts of values. -/
def displayAll : List (Value F) → List String
  | [] => []
  | value :: values => display value :: displayAll values

/-- The texts of fields. -/
def displayFields : List (String × Value F) → List String
  | [] => []
  | (key, value) :: fields =>
    let rendered := display value
    s!"{key}: {rendered}" :: displayFields fields

end

/-- `Value::as_bool`. -/
def asBool : Value F → Except RuntimeError Bool
  | bool value => .ok value
  | _ => runtimeError "expected a bool value"

/-- `Value::as_index`, with a 64-bit `usize`. -/
def asIndex : Value F → Except RuntimeError ℕ
  | u64 value => .ok value.toNat
  | u32 value => .ok value.toNat
  | i32 value =>
    if 0 ≤ value then .ok value.toNat
    else runtimeError "array index must be a non-negative integer"
  | i64 value =>
    if 0 ≤ value then .ok value.toNat
    else runtimeError "array index must be a non-negative integer"
  | _ => runtimeError "array index must be a non-negative integer"

/-- The integer of an integer value. -/
def asInteger : Value F → Option ℤ
  | i64 value | i32 value | u32 value | u64 value => some value
  | _ => none

/-- An integer made to fit a type: `T::try_from`. -/
def fit (name : String) (low high value : ℤ) (make : ℤ → Value F) : Except RuntimeError (Value F) :=
  if low ≤ value ∧ value < high then .ok (make value)
  else runtimeError s!"integer does not fit in {name}"

/-- `Value::coerce`. -/
def coerce (value : Value F) (valueType : ValueType) : Except RuntimeError (Value F) :=
  let refuse : Except RuntimeError (Value F) :=
    let shown := value.display floats
    let target := valueType.name
    runtimeError s!"cannot coerce runtime value `{shown}` to `{target}`"
  match value.asInteger, valueType with
  | some integer, .int => fit "i64" (-2 ^ 63) (2 ^ 63) integer i64
  | some integer, .i32 => fit "i32" (-2 ^ 31) (2 ^ 31) integer i32
  | some integer, .u32 => fit "u32" 0 (2 ^ 32) integer u32
  | some integer, .u64 => fit "u64" 0 (2 ^ 64) integer u64
  | some integer, .float => .ok (f64 (floats.ofInt integer))
  | some _, _ => refuse
  | none, _ =>
    match value, valueType with
    | string _, .string | char _, .char | bool _, .bool | array _, .array _ | struct .., .struct ..
    | enum .., .enum .. | f64 _, .float => .ok value
    | void, .void | void, .never => .ok void
    | _, _ => refuse

/-- `coerce_like`. -/
def coerceLike (value target : Value F) : Except RuntimeError (Value F) :=
  value.coerce floats <| match target with
    | string _ => .string
    | i64 _ => .int
    | i32 _ => .i32
    | u32 _ => .u32
    | u64 _ => .u64
    | f64 _ => .float
    | char _ => .char
    | bool _ => .bool
    | array _ => .array .void
    | struct name _ => .struct name []
    | enum name _ _ => .enum name []
    | void => .void

end Value

/-! ## Frames -/

/-- The variables of a function that runs, or the globals: the last value of each name. -/
abbrev Frame (F : Type) : Type := List (String × Value F)

/-- `HashMap::insert`. -/
def insertEntry (entries : List (String × Value F)) (key : String) (value : Value F) :
    List (String × Value F) :=
  (key, value) :: entries.filter (·.1 ≠ key)

/-- A name that is not a variable. -/
def unknownVariable (name : String) : RuntimeError := .runtime s!"unknown runtime variable `{name}`"

/-- A name that is not a field. -/
def unknownField (name : String) : RuntimeError := .runtime s!"unknown runtime field `{name}`"

/-- An entry that must be there. -/
def findEntry (entries : List (String × Value F)) (key : String) (missing : RuntimeError) :
    Except RuntimeError (Value F) :=
  match entries.lookup key with
  | some value => .ok value
  | none => .error missing

/-- A value in the place of a field of a struct, made like it. -/
def setField (name : String) (base : Value F) (field : String) (value : Value F) :
    Except RuntimeError (Value F) := do
  match base with
  | .struct structName fields =>
    let target ← findEntry fields field (unknownField field)
    let value ← value.coerceLike floats target
    return .struct structName (insertEntry fields field value)
  | _ => runtimeError s!"`{name}` is not a struct value"

/-- `set_path_in_frame`. -/
def setPathInFrame (frame : Frame F) (path : List String) (value : Value F) :
    Except RuntimeError (Frame F) := do
  match path with
  | [name] =>
    let target ← findEntry frame name (unknownVariable name)
    let value ← value.coerceLike floats target
    return insertEntry frame name value
  | [name, field] =>
    let base ← findEntry frame name (unknownVariable name)
    let base ← setField floats name base field value
    return insertEntry frame name base
  | _ => runtimeError "nested runtime paths deeper than one field are unsupported"

/-- `set_array_path`. -/
def setArrayPath : Value F → List ℕ → Value F → Except RuntimeError (Value F)
  | _, [], _ => runtimeError "empty indexed assignment path"
  | .array values, index :: rest, value => do
    match values[index]? with
    | none => runtimeError "array index out of bounds"
    | some slot =>
      let slot ← if rest.isEmpty then value.coerceLike floats slot else setArrayPath slot rest value
      return .array (values.set index slot)
  | _, _ :: _, _ => runtimeError "expected array"


end Operations

/-! ## Expressions -/

mutual

/-- `ValueExpr`. -/
inductive ValueExpr (Op F : Type)
  /-- `StringLiteral`, `IntLiteral`, `CharLiteral`, `BoolLiteral`, `VoidLiteral`, and the name of a
  `FunctionRef`. -/
  | literal (value : Value F)
  | variableRef (name : String)
  | call (name : String) (args : List (ValueExpr Op F))
  | mutBorrow (path : List String)
  /-- `Binary` with `LogicalAnd`. -/
  | logicalAnd (left right : ValueExpr Op F)
  /-- `Binary` with `LogicalOr`. -/
  | logicalOr (left right : ValueExpr Op F)
  | arrayPush (array : String) (value : ValueExpr Op F)
  | arrayPop (array : String)
  | arraySet (array : String) (index value : ValueExpr Op F)
  | arrayInsert (array : String) (index value : ValueExpr Op F)
  | arrayRemove (array : String) (index : ValueExpr Op F)
  | arrayClear (array : String)
  | arrayIter (array : ValueExpr Op F)
  | fieldAccess (base field : String)
  | matchArms (value : ValueExpr Op F) (arms : List (MatchArm Op F))
  | conditional (condition thenBranch elseBranch : ValueExpr Op F)
  | optionUnwrapOr (option default : ValueExpr Op F)
  | resultUnwrapOr (result default : ValueExpr Op F)
  | operation (op : Op) (operands : List (ValueExpr Op F))

/-- `MatchArm`. -/
inductive MatchArm (Op F : Type)
  | mk (variant : String) (binding : Option String) (value : ValueExpr Op F)

end

/-- What the operations compute: whether to go on after an operand, and the value at the end. -/
structure Operations (Op F : Type) where
  floats : Floats F
  check : Op → List (Value F) → Except RuntimeError Unit
  apply : Op → List (Value F) → Except RuntimeError (Value F)

/-! ## Statements -/

/-- `LoopKind`. -/
inductive LoopKind (Op F : Type)
  | infinite
  | whileLoop (condition : ValueExpr Op F)
  | cStyle (binding : String) (valueType : ValueType) (initializer condition update : ValueExpr Op F)
  | iterate (binding : String) (iterable : ValueExpr Op F)

/-- `DeferredCall`, where the four calls that write are one. -/
inductive DeferredCall (Op F : Type)
  | expr (expr : ValueExpr Op F)
  | write (stderr newline : Bool) (expr : ValueExpr Op F)

/-- `QuestionCarrier`. -/
inductive QuestionCarrier
  | result
  | option

mutual

/-- `Statement`, where `Println`, `Print`, `Eprintln` and `Eprint` are one. -/
inductive Statement (Op F : Type)
  | letStmt (name : String) (valueType : ValueType) (initializer : ValueExpr Op F)
  | letIf
  | letMatch
  | questionLet (carrier : QuestionCarrier) (name : String) (valueType : ValueType)
      (resultExpr : ValueExpr Op F) (earlyExitActions : List (ValueExpr Op F))
  | questionReturn (resultExpr : ValueExpr Op F)
  | letElse (binding : String) (value : ValueExpr Op F) (variant : String)
      (elseBody : List (Statement Op F))
  | ifLet (binding : Option String) (value : ValueExpr Op F) (variant : String)
      (body : List (Statement Op F)) (elseBody : Option (List (Statement Op F)))
  | ifStmt (condition : ValueExpr Op F) (body elseBody : List (Statement Op F))
  | assign (name : String) (value : ValueExpr Op F)
  | assignField (base field : String) (value : ValueExpr Op F)
  | arrayIndexAssign (root : String) (indices : List (ValueExpr Op F)) (value : ValueExpr Op F)
  | write (stderr newline : Bool) (expr : ValueExpr Op F)
  | panic (message : ValueExpr Op F)
  | returnStmt (value : Option (ValueExpr Op F))
  | expr (expr : ValueExpr Op F)
  | matchStmt (value : ValueExpr Op F) (arms : List (MatchStatementArm Op F))
  | taskSelect
  | loop (kind : LoopKind Op F) (body : List (Statement Op F))
  | breakStmt
  | continueStmt
  | defer (call : DeferredCall Op F)

/-- `MatchStatementArm`. -/
inductive MatchStatementArm (Op F : Type)
  | mk (variant : String) (binding : Option String) (body : List (Statement Op F))

end

/-! ## Programs -/

/-- `Parameter`. -/
structure Parameter where
  name : String
  mutable : Bool
  valueType : ValueType

/-- `Function`. -/
structure Function (Op F : Type) where
  name : String
  params : List Parameter
  returnType : ValueType
  body : List (Statement Op F)

/-- `Constant`. -/
structure Constant (Op F : Type) where
  name : String
  valueType : ValueType
  initializer : ValueExpr Op F

/-- `Program`. -/
structure Program (Op F : Type) where
  consts : List (Constant Op F)
  functions : List (Function Op F)

/-- `ExecutionLimits`. -/
structure ExecutionLimits where
  maxSteps : ℕ
  maxOutputBytes : ℕ
  maxCallDepth : ℕ

/-- `ExecutionLimits::default`. -/
def ExecutionLimits.default : ExecutionLimits where
  maxSteps := 100000
  maxOutputBytes := 64 * 1024
  maxCallDepth := 64

end Nomo.Interpreter
