import Nomo.Arith.Reference

/-!
# Integer expressions in the interpreter

What the interpreter computes (`nomo_wasm/src/interpreter.rs:159–213, 841–887, 1597–1631,
1812–1867, 1943–2029`).  A value carries its type at run time; the operands of an operator are brought
to the later of their two types in the order `i64`, `i32`, `u32`, `u64`, whatever type the compiler
found, and every operation of that type is checked.
-/

namespace Nomo.Arith

open Nomo.Lib

/-! ## Values -/

/-- A runtime value. -/
inductive Value where
  | integer (v : IntValue)
  | bool (b : Bool)
deriving DecidableEq, Repr

namespace Value

/-- `Value::display`. -/
def display : Value → String
  | .integer v => toString v.value
  | .bool b => toString b

/-- The type of a value. -/
def type : Value → ExprType
  | .integer v => .integer v.type
  | .bool _ => .bool

/-- The integer a value stands for. -/
def toInt : Value → Int
  | .integer v => v.value
  | .bool b => truth b

end Value

/-- `coerce`, from one integer type to another. -/
def IntValue.coerce (v : IntValue) (t : IntType) : Except String IntValue :=
  if h : t.format.Fits v.value then .ok ⟨t, v.value, h⟩
  else .error s!"integer does not fit in {t.name}"

/-- `coerce`. -/
def Value.coerce (value : Value) (target : ExprType) : Except String Value :=
  match value, target with
  | .integer v, .integer t => .integer <$> v.coerce t
  | .bool b, .bool => .ok (.bool b)
  | value, target =>
    .error s!"cannot coerce runtime value `{value.display}` to `{target.name}`"

/-- `numeric_pair`. -/
def numericPair (left right : Value) : Except String (Value × Value) :=
  let both (t : IntType) : Except String (Value × Value) := do
    return (← left.coerce (.integer t), ← right.coerce (.integer t))
  if left.type = .integer .u64 ∨ right.type = .integer .u64 then both .u64
  else if left.type = .integer .u32 ∨ right.type = .integer .u32 then both .u32
  else if left.type = .integer .i32 ∨ right.type = .integer .i32 then both .i32
  else if left.type = .integer .int ∧ right.type = .integer .int then .ok (left, right)
  else .error "expected matching numeric values"

/-! ## Operations -/

/-- An integer within the bounds of a type, as Rust's own types have it. -/
abbrev Bounded (t : IntType) := { x : Int // t.format.Fits x }

/-- A result, if it fits. -/
def Bounded.checked (t : IntType) (x : Int) : Option (Bounded t) :=
  if h : t.format.Fits x then some ⟨x, h⟩ else none

variable {t : IntType}

/-- `checked_div`. -/
def Bounded.checkedDiv (left right : Bounded t) : Option (Bounded t) :=
  if right.1 = 0 then none else Bounded.checked t (left.1.tdiv right.1)

/-- `checked_rem`, which has no result where the quotient overflows. -/
def Bounded.checkedRem (left right : Bounded t) : Option (Bounded t) :=
  if right.1 = 0 ∨ ¬ t.format.Fits (left.1.tdiv right.1) then none
  else some ⟨left.1.tmod right.1, IntFormat.fits_tmod left.2⟩

/-- `checked_shl`: the amount is checked, the result is wrapped. -/
def Bounded.checkedShl (left : Bounded t) (amount : Nat) : Option (Bounded t) :=
  if amount < t.format.bits then some ⟨t.format.wrap (left.1 * 2 ^ amount), t.format.fits_wrap _⟩
  else none

/-- `checked_shr`. -/
def Bounded.checkedShr (left : Bounded t) (amount : Nat) : Option (Bounded t) :=
  if amount < t.format.bits then some ⟨left.1 / 2 ^ amount, IntFormat.fits_shiftRight left.2 amount⟩
  else none

/-- `shift`: the amount as a `u32`. -/
def Bounded.shift (right : Bounded t) : Except String Nat :=
  if IntType.u32.format.Fits right.1 then .ok right.1.toNat
  else .error "invalid shift count"

/-- `!`. -/
def Bounded.not (right : Bounded t) : Bounded t :=
  ⟨t.format.complement right.1, t.format.fits_wrap _⟩

/-- `integer_operation`, before the missing result becomes an error. -/
def integerResult (left : Bounded t) (op : BinaryOp) (right : Bounded t) :
    Except String (Option (Bounded t)) :=
  match op with
  | .add => .ok (Bounded.checked t (left.1 + right.1))
  | .subtract => .ok (Bounded.checked t (left.1 - right.1))
  | .multiply => .ok (Bounded.checked t (left.1 * right.1))
  | .divide => .ok (left.checkedDiv right)
  | .remainder => .ok (left.checkedRem right)
  | .shiftLeft => left.checkedShl <$> right.shift
  | .shiftRight => left.checkedShr <$> right.shift
  | .bitOr => .ok (some ⟨Int.lor left.1 right.1, IntFormat.fits_lor left.2 right.2⟩)
  | .bitXor => .ok (some ⟨Int.xor left.1 right.1, IntFormat.fits_xor left.2 right.2⟩)
  | .bitAnd => .ok (some ⟨Int.land left.1 right.1, IntFormat.fits_land left.2 right.2⟩)
  | .bitAndNot =>
    .ok (some ⟨Int.land left.1 right.not.1, IntFormat.fits_land left.2 right.not.2⟩)
  | _ => .error "invalid integer operator"

/-- What the last line of `integer_operation` makes of a missing result. -/
def orOverflow (value : Option (Bounded t)) : Except String (Bounded t) :=
  match value with
  | some value => .ok value
  | none => .error "integer overflow or division by zero"

/-- `integer_operation`. -/
def integerOperation (left : Bounded t) (op : BinaryOp) (right : Bounded t) :
    Except String (Bounded t) := do
  orOverflow (← integerResult left op right)

/-- `numeric_operation`. -/
def numericOperation (left : Value) (op : BinaryOp) (right : Value) : Except String Value := do
  match ← numericPair left right with
  | (.integer a, .integer b) =>
    if h : b.type = a.type then
      let value ← integerOperation ⟨a.value, a.fits⟩ op ⟨b.value, h ▸ b.fits⟩
      return .integer ⟨a.type, value.1, value.2⟩
    else .error "expected matching numeric values"
  | _ => .error "expected matching numeric values"

/-- `values_equal`: operands that cannot be brought to one type are compared as they are. -/
def valuesEqual (left right : Value) : Bool :=
  match numericPair left right with
  | .ok (a, b) => a = b
  | .error _ => left = right

/-- `compare_order`. -/
def compareOrder (left : Int) (op : BinaryOp) (right : Int) : Except String Bool :=
  match op with
  | .less => .ok (left < right)
  | .lessEqual => .ok (left ≤ right)
  | .greater => .ok (left > right)
  | .greaterEqual => .ok (left ≥ right)
  | _ => .error "invalid comparison operator"

/-- `compare_values`. -/
def compareValues (left : Value) (op : BinaryOp) (right : Value) : Except String Bool := do
  match ← numericPair left right with
  | (.integer a, .integer b) =>
    if a.type = b.type then compareOrder a.value op b.value
    else .error "values are not comparable"
  | _ => .error "values are not comparable"

/-- `eval_binary`, on the values of the operands. -/
def evalBinary (left : Value) (op : BinaryOp) (right : Value) : Except String Value :=
  match op with
  | .equal => .ok (.bool (valuesEqual left right))
  | .notEqual => .ok (.bool (!valuesEqual left right))
  | .less | .lessEqual | .greater | .greaterEqual => .bool <$> compareValues left op right
  | _ => numericOperation left op right

/-- `eval_expr`. -/
def evalWasm (ρ : Store) : Expr → Except String Value
  | .intLiteral value => .ok (.integer ⟨.int, value.1, value.2⟩)
  | .variable name =>
    match ρ name with
    | some v => .ok (.integer v)
    | none => .error s!"unknown runtime variable `{name}`"
  | .cast expr targetType => do (← evalWasm ρ expr).coerce (.integer targetType)
  | .binary left op right _ => do evalBinary (← evalWasm ρ left) op (← evalWasm ρ right)

end Nomo.Arith
