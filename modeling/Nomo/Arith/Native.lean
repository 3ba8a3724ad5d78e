import Nomo.Lib.CInteger
import Nomo.Arith.Syntax

/-!
# Integer expressions in C

What `emit_expr` (`nomo_codegen_c/src/expressions/expressions.rs:40–173`) makes of an integer
expression, and what the C program then computes.  Signed arithmetic, every division and every shift
go through helper functions (`nomo_runtime/src/lib.rs:19–186`) that stop the program instead of
overflowing; the rest is left to the operators of C.

The helpers of one operation differ in their types only, so each family is one body with the type as
a parameter and one lemma about what it computes, free of undefined behaviour.
-/

namespace Nomo.Arith

open Nomo.Lib

/-! ## Helper functions -/

/-- `nomo_panic`. -/
def panicWith {α : Type} (message : String) : Outcome α :=
  .exit message

/-- The test for overflow of `nomo_add_i64` and `nomo_add_i32`.  The signs of `right` that its two
halves ask for exclude each other. -/
def addOverflows (t : CType) (left right : Int) : Outcome Bool := do
  if right > 0 then return decide (left > (← t.sub t.format.maxValue right))
  else if right < 0 then return decide (left < (← t.sub t.format.minValue right))
  else return false

/-- The bodies of `nomo_add_i64` and `nomo_add_i32`. -/
def checkedAdd (t : CType) (left right : Int) : Outcome Int := do
  if ← addOverflows t left right then panicWith "signed integer overflow"
  else t.add left right

/-- The test for overflow of `nomo_sub_i64` and `nomo_sub_i32`. -/
def subOverflows (t : CType) (left right : Int) : Outcome Bool := do
  if right < 0 then return decide (left > (← t.add t.format.maxValue right))
  else if right > 0 then return decide (left < (← t.add t.format.minValue right))
  else return false

/-- The bodies of `nomo_sub_i64` and `nomo_sub_i32`. -/
def checkedSub (t : CType) (left right : Int) : Outcome Int := do
  if ← subOverflows t left right then panicWith "signed integer overflow"
  else t.sub left right

/-- The test for overflow of `nomo_mul_i64` and `nomo_mul_i32`, once neither operand is zero. -/
def mulOverflows (t : CType) (left right : Int) : Outcome Bool := do
  if left > 0 then
    if right > 0 then return decide (left > (← t.div t.format.maxValue right))
    else return decide (right < (← t.div t.format.minValue left))
  else
    if right > 0 then return decide (left < (← t.div t.format.minValue right))
    else return decide (left < (← t.div t.format.maxValue right))

/-- The bodies of `nomo_mul_i64` and `nomo_mul_i32`. -/
def checkedMul (t : CType) (left right : Int) : Outcome Int := do
  if left = 0 ∨ right = 0 then return 0
  else if (left = -1 ∧ right = t.format.minValue) ∨ (right = -1 ∧ left = t.format.minValue) then
    panicWith "signed integer overflow"
  else if ← mulOverflows t left right then panicWith "signed integer overflow"
  else t.mul left right

/-- The bodies of `nomo_div_i64` and `nomo_div_i32`. -/
def checkedDiv (t : CType) (left right : Int) : Outcome Int :=
  if right = 0 then panicWith "division by zero"
  else if left = t.format.minValue ∧ right = -1 then panicWith "signed integer overflow"
  else t.div left right

/-- The bodies of `nomo_rem_i64` and `nomo_rem_i32`. -/
def checkedRem (t : CType) (left right : Int) : Outcome Int :=
  if right = 0 then panicWith "division by zero"
  else if left = t.format.minValue ∧ right = -1 then panicWith "signed integer overflow"
  else t.rem left right

/-- The bodies of `nomo_div_u32` and `nomo_div_u64`. -/
def checkedDivUnsigned (t : CType) (left right : Int) : Outcome Int :=
  if right = 0 then panicWith "division by zero"
  else t.div left right

/-- The bodies of `nomo_rem_u32` and `nomo_rem_u64`. -/
def checkedRemUnsigned (t : CType) (left right : Int) : Outcome Int :=
  if right = 0 then panicWith "division by zero"
  else t.rem left right

/-- The bodies of `nomo_shl_i64` and `nomo_shl_i32`: the shift is carried out on the magnitude, in
the unsigned type of the same width. -/
def checkedShl (t : CType) (left right : Int) : Outcome Int := do
  let u := t.toUnsigned
  if right ≥ t.format.bits then panicWith "invalid shift amount"
  else if right = 0 ∨ left = 0 then return left
  else
    let negativeLimit ← u.shl 1 (t.format.bits - 1)
    if left > 0 then
      let limit ← u.shr (u.convert t.format.maxValue) right
      if u.convert left > limit then panicWith "signed integer overflow"
      else return t.convert (← u.shl (u.convert left) right)
    else
      let successor ← t.add left 1
      let negated ← t.neg successor
      let magnitude ← u.add (u.convert negated) 1
      let limit ← u.shr negativeLimit right
      if magnitude > limit then panicWith "signed integer overflow"
      else
        let shifted ← u.shl magnitude right
        if shifted = negativeLimit then return t.format.minValue
        else t.neg (t.convert shifted)

/-- The bodies of `nomo_shr_i64` and `nomo_shr_i32`: the sign is put back by hand. -/
def checkedShr (t : CType) (left right : Int) : Outcome Int := do
  let u := t.toUnsigned
  if right ≥ t.format.bits then panicWith "invalid shift amount"
  else
    let bits := u.convert left
    if right = 0 then return left
    else if left ≥ 0 then return t.convert (← u.shr bits right)
    else
      let low ← u.shr bits right
      let high ← u.shl u.format.maxValue (t.format.bits - right)
      let rest ← u.sub u.format.maxValue (Int.lor low high)
      t.sub (-1) (t.convert rest)

/-- The bodies of `nomo_shl_u32` and `nomo_shl_u64`. -/
def checkedShlUnsigned (t : CType) (left right : Int) : Outcome Int :=
  if right ≥ t.format.bits then panicWith "invalid shift amount"
  else t.shl left right

/-- The bodies of `nomo_shr_u32` and `nomo_shr_u64`. -/
def checkedShrUnsigned (t : CType) (left right : Int) : Outcome Int :=
  if right ≥ t.format.bits then panicWith "invalid shift amount"
  else t.shr left right

/-- A helper function: the types of its parameters and of its result, and its body. -/
structure Helper where
  leftType : CType
  rightType : CType
  resultType : CType
  body : Int → Int → Outcome Int

/-- A helper all of whose types are one. -/
def Helper.uniform (t : CType) (body : CType → Int → Int → Outcome Int) : Helper :=
  ⟨t, t, t, body t⟩

/-- A shift takes its amount as a `uint64_t`. -/
def Helper.shift (t : CType) (body : CType → Int → Int → Outcome Int) : Helper :=
  ⟨t, .unsignedLong, t, body t⟩

def nomoAddI64 : Helper := .uniform .longLong checkedAdd

def nomoSubI64 : Helper := .uniform .longLong checkedSub

def nomoMulI64 : Helper := .uniform .longLong checkedMul

def nomoDivI64 : Helper := .uniform .longLong checkedDiv

def nomoRemI64 : Helper := .uniform .longLong checkedRem

def nomoAddI32 : Helper := .uniform .int checkedAdd

def nomoSubI32 : Helper := .uniform .int checkedSub

def nomoMulI32 : Helper := .uniform .int checkedMul

def nomoDivI32 : Helper := .uniform .int checkedDiv

def nomoRemI32 : Helper := .uniform .int checkedRem

def nomoDivU32 : Helper := .uniform .unsignedInt checkedDivUnsigned

def nomoRemU32 : Helper := .uniform .unsignedInt checkedRemUnsigned

def nomoDivU64 : Helper := .uniform .unsignedLong checkedDivUnsigned

def nomoRemU64 : Helper := .uniform .unsignedLong checkedRemUnsigned

def nomoShlI64 : Helper := .shift .longLong checkedShl

def nomoShrI64 : Helper := .shift .longLong checkedShr

def nomoShlI32 : Helper := .shift .int checkedShl

def nomoShrI32 : Helper := .shift .int checkedShr

def nomoShlU32 : Helper := .shift .unsignedInt checkedShlUnsigned

def nomoShrU32 : Helper := .shift .unsignedInt checkedShrUnsigned

def nomoShlU64 : Helper := .shift .unsignedLong checkedShlUnsigned

def nomoShrU64 : Helper := .shift .unsignedLong checkedShrUnsigned

/-- `checked_binary_helper` (`nomo_codegen_c/src/core/names.rs:105–132`). -/
def checkedBinaryHelper (op : BinaryOp) (valueType : ExprType) : Option Helper :=
  match op, valueType with
  | .add, .integer .int => some nomoAddI64
  | .subtract, .integer .int => some nomoSubI64
  | .multiply, .integer .int => some nomoMulI64
  | .divide, .integer .int => some nomoDivI64
  | .remainder, .integer .int => some nomoRemI64
  | .add, .integer .i32 => some nomoAddI32
  | .subtract, .integer .i32 => some nomoSubI32
  | .multiply, .integer .i32 => some nomoMulI32
  | .divide, .integer .i32 => some nomoDivI32
  | .remainder, .integer .i32 => some nomoRemI32
  | .divide, .integer .u32 => some nomoDivU32
  | .remainder, .integer .u32 => some nomoRemU32
  | .divide, .integer .u64 => some nomoDivU64
  | .remainder, .integer .u64 => some nomoRemU64
  | .shiftLeft, .integer .int => some nomoShlI64
  | .shiftRight, .integer .int => some nomoShrI64
  | .shiftLeft, .integer .i32 => some nomoShlI32
  | .shiftRight, .integer .i32 => some nomoShrI32
  | .shiftLeft, .integer .u32 => some nomoShlU32
  | .shiftRight, .integer .u32 => some nomoShrU32
  | .shiftLeft, .integer .u64 => some nomoShlU64
  | .shiftRight, .integer .u64 => some nomoShrU64
  | _, _ => none

/-! ## Emission -/

/-- The C expressions that integer expressions become. -/
inductive CExpr where
  | constant (n : Nat)
  | negate (expr : CExpr)
  | variable (name : String)
  | cast (type : CType) (expr : CExpr)
  | call (helper : Helper) (left right : CExpr)
  | complement (expr : CExpr)
  | binary (left : CExpr) (op : COperator) (right : CExpr)

/-- `c_type`: `long long`, `int32_t`, `uint32_t` and `uint64_t`. -/
def cType : IntType → CType
  | .int => .longLong
  | .i32 => .int
  | .u32 => .unsignedInt
  | .u64 => .unsignedLong

@[simp] theorem cType_format (t : IntType) : (cType t).format = t.format := by
  cases t <;> rfl

/-- `c_binary_op`.  `&^` is no operator of C; `emit_expr` never asks for it. -/
def cBinaryOp : BinaryOp → COperator
  | .add => .add
  | .subtract => .sub
  | .bitOr => .bitOr
  | .bitXor => .bitXor
  | .multiply => .mul
  | .divide => .div
  | .remainder => .rem
  | .shiftLeft => .shl
  | .shiftRight => .shr
  | .bitAnd | .bitAndNot => .bitAnd
  | .equal => .equal
  | .notEqual => .notEqual
  | .less => .less
  | .lessEqual => .lessEqual
  | .greater => .greater
  | .greaterEqual => .greaterEqual

/-- A literal is emitted as its decimal digits, after a minus sign if it is negative. -/
def emitIntLiteral (value : Int) : CExpr :=
  if value < 0 then .negate (.constant value.natAbs) else .constant value.natAbs

/-- `emit_expr`. -/
def emitExpr : Expr → CExpr
  | .intLiteral value => emitIntLiteral value.1
  | .variable name => .variable name
  | .cast expr targetType => .cast (cType targetType) (emitExpr expr)
  | .binary left op right valueType =>
    match checkedBinaryHelper op valueType with
    | some helper => .call helper (emitExpr left) (emitExpr right)
    | none =>
      if op = .bitAndNot then .binary (emitExpr left) .bitAnd (.complement (emitExpr right))
      else .binary (emitExpr left) (cBinaryOp op) (emitExpr right)

/-! ## Evaluation -/

/-- A call converts the arguments to the types of the parameters, and the result to its type. -/
def Helper.call (helper : Helper) (left right : CInt) : Outcome CInt :=
  CInt.ofInt helper.resultType <$>
    helper.body (helper.leftType.convert left.value) (helper.rightType.convert right.value)

/-- The value of a C expression. -/
def evalC (ρ : Store) : CExpr → Outcome CInt
  | .constant n => CInt.constant n
  | .negate expr => do (← evalC ρ expr).neg
  | .variable name =>
    match ρ name with
    | some v => .value (CInt.ofInt (cType v.type) v.value)
    | none => .undefined
  | .cast type expr => do return CInt.ofInt type (← evalC ρ expr).value
  | .call helper left right => do helper.call (← evalC ρ left) (← evalC ρ right)
  | .complement expr => do return (← evalC ρ expr).complement
  | .binary left op right => do op.eval (← evalC ρ left) (← evalC ρ right)

/-- The value of an expression in the native program. -/
def evalNative (ρ : Store) (e : Expr) : Outcome CInt :=
  evalC ρ (emitExpr e)

end Nomo.Arith
