import Nomo.Arith.Syntax

/-!
# What an integer expression means

The meaning the two back ends are compared through: every operator is checked in the type its
expression was lowered with, and has no value where the exact result does not fit, the divisor is
zero or the shift amount is not a number of bits.  Neither back end is consulted here.

`OpAgrees` and `NodeAgrees` are the conditions under which both back ends compute this meaning at an
operator, or both stop.
-/

namespace Nomo.Arith

open Nomo.Lib

/-- A truth value is an integer of one bit. -/
def ExprType.format : ExprType → IntFormat
  | .integer t => t.format
  | .bool => ⟨false, 1, by decide⟩

/-- A comparison as an integer. -/
def truth (p : Prop) [Decidable p] : Int :=
  if p then 1 else 0

/-- Division has a result in a format. -/
def Divides (f : IntFormat) (a b : Int) : Prop :=
  b ≠ 0 ∧ ¬ (f.signed = true ∧ a = f.minValue ∧ b = -1)

/-- A shift amount is a number of bits of a format. -/
def ShiftAmount (f : IntFormat) (b : Int) : Prop :=
  0 ≤ b ∧ b < f.bits

instance (f : IntFormat) (a b : Int) : Decidable (Divides f a b) :=
  inferInstanceAs (Decidable (_ ∧ _))

instance (f : IntFormat) (b : Int) : Decidable (ShiftAmount f b) :=
  inferInstanceAs (Decidable (_ ∧ _))

/-- A shift to the left of a signed integer loses no bit. -/
def Shifts (f : IntFormat) (a b : Int) : Prop :=
  ShiftAmount f b ∧ (f.signed = true → f.Fits (a * 2 ^ b.toNat))

instance (f : IntFormat) (a b : Int) : Decidable (Shifts f a b) :=
  inferInstanceAs (Decidable (_ ∧ _))

/-- A value, if there is one. -/
def given (p : Prop) [Decidable p] (x : Int) : Option Int :=
  if p then some x else none

/-- The checked operation of a format. -/
def BinaryOp.checked (op : BinaryOp) (f : IntFormat) (a b : Int) : Option Int :=
  match op with
  | .add => given (f.Fits (a + b)) (a + b)
  | .subtract => given (f.Fits (a - b)) (a - b)
  | .multiply => given (f.Fits (a * b)) (a * b)
  | .divide => given (Divides f a b) (a.tdiv b)
  | .remainder => given (Divides f a b) (a.tmod b)
  | .shiftLeft => given (Shifts f a b) (f.wrap (a * 2 ^ b.toNat))
  | .shiftRight => given (ShiftAmount f b) (a / 2 ^ b.toNat)
  | .bitOr => some (Int.lor a b)
  | .bitXor => some (Int.xor a b)
  | .bitAnd => some (Int.land a b)
  | .bitAndNot => some (Int.ldiff a b)
  | .equal => some (truth (a = b))
  | .notEqual => some (truth (a ≠ b))
  | .less => some (truth (a < b))
  | .lessEqual => some (truth (a ≤ b))
  | .greater => some (truth (b < a))
  | .greaterEqual => some (truth (b ≤ a))

/-- The meaning of an expression. -/
def denote (ρ : Store) : Expr → Option Int
  | .intLiteral value => some value.1
  | .variable name => (ρ name).map IntValue.value
  | .cast expr targetType => do
    let a ← denote ρ expr
    given (targetType.format.Fits a) a
  | .binary left op right valueType => do
    let a ← denote ρ left
    let b ← denote ρ right
    op.checked valueType.format a b

/-- The type an expression was lowered with.  A literal has lost its own. -/
def declaredType (Γ : Scope) : Expr → ExprType
  | .intLiteral _ => .integer .int
  | .variable name => .integer ((Γ name).getD .int)
  | .cast _ targetType => .integer targetType
  | .binary _ _ _ valueType => valueType

/-! ## Where the back ends agree -/

/-- The type the interpreter brings the operands of two types to: the later one in the order `i64`,
`i32`, `u32`, `u64` (`nomo_wasm/src/interpreter.rs:1843–1867`). -/
def pairType (s t : IntType) : IntType :=
  if s = .u64 ∨ t = .u64 then .u64
  else if s = .u32 ∨ t = .u32 then .u32
  else if s = .i32 ∨ t = .i32 then .i32
  else .int

/-- The type of the interpreter's value.  It is the declared one, save that every literal is an
`i64` and an operator has the type its operands are brought to. -/
def runtimeType (Γ : Scope) : Expr → ExprType
  | .intLiteral _ => .integer .int
  | .variable name => .integer ((Γ name).getD .int)
  | .cast _ targetType => .integer targetType
  | .binary left _ right valueType =>
    match valueType, runtimeType Γ left, runtimeType Γ right with
    | .integer _, .integer s, .integer t => .integer (pairType s t)
    | _, _, _ => .bool

/-- The format the interpreter carries an operator out in. -/
def pairFormat (Γ : Scope) (left right : Expr) : IntFormat :=
  match runtimeType Γ left, runtimeType Γ right with
  | .integer s, .integer t => (pairType s t).format
  | _, _ => ExprType.bool.format

/-- Addition, subtraction and multiplication: the exact result `r` fits the declared format `f` and
the format `w` of the interpreter, or neither; and it does fit an unsigned one. -/
def ArithmeticAgrees (f w : IntFormat) (a b r : Int) : Prop :=
  (f.signed = false → f.Fits r) ∧ (f.Fits r ↔ w.Fits a ∧ w.Fits b ∧ w.Fits r)

instance (f w : IntFormat) (a b r : Int) : Decidable (ArithmeticAgrees f w a b r) :=
  inferInstanceAs (Decidable (_ ∧ _))

/-- The condition on the operands `a` and `b` of an operator, for a declared format `f` and a format
`w` of the interpreter. -/
def OpAgrees (op : BinaryOp) (f w : IntFormat) (a b : Int) : Prop :=
  match op with
  | .add => ArithmeticAgrees f w a b (a + b)
  | .subtract => ArithmeticAgrees f w a b (a - b)
  | .multiply => ArithmeticAgrees f w a b (a * b)
  | .divide | .remainder => Divides f a b ↔ w.Fits a ∧ w.Fits b ∧ Divides w a b
  | .shiftLeft =>
    (Shifts f a b ↔ w.Fits a ∧ w.Fits b ∧ ShiftAmount w b) ∧
      (Shifts f a b → f.wrap (a * 2 ^ b.toNat) = w.wrap (a * 2 ^ b.toNat))
  | .shiftRight => ShiftAmount f b ↔ w.Fits a ∧ w.Fits b ∧ ShiftAmount w b
  | .bitOr | .bitXor | .bitAnd | .bitAndNot => w.Fits a ∧ w.Fits b
  | .less | .lessEqual | .greater | .greaterEqual => w.Fits a ∧ w.Fits b
  | .equal | .notEqual => True

instance (op : BinaryOp) (f w : IntFormat) (a b : Int) : Decidable (OpAgrees op f w a b) :=
  match op with
  | .add => inferInstanceAs (Decidable (ArithmeticAgrees f w a b (a + b)))
  | .subtract => inferInstanceAs (Decidable (ArithmeticAgrees f w a b (a - b)))
  | .multiply => inferInstanceAs (Decidable (ArithmeticAgrees f w a b (a * b)))
  | .divide | .remainder =>
    inferInstanceAs (Decidable (Divides f a b ↔ w.Fits a ∧ w.Fits b ∧ Divides w a b))
  | .shiftLeft => inferInstanceAs (Decidable
      ((Shifts f a b ↔ w.Fits a ∧ w.Fits b ∧ ShiftAmount w b) ∧
        (Shifts f a b → f.wrap (a * 2 ^ b.toNat) = w.wrap (a * 2 ^ b.toNat))))
  | .shiftRight =>
    inferInstanceAs (Decidable (ShiftAmount f b ↔ w.Fits a ∧ w.Fits b ∧ ShiftAmount w b))
  | .bitOr | .bitXor | .bitAnd | .bitAndNot => inferInstanceAs (Decidable (w.Fits a ∧ w.Fits b))
  | .less | .lessEqual | .greater | .greaterEqual =>
    inferInstanceAs (Decidable (w.Fits a ∧ w.Fits b))
  | .equal | .notEqual => inferInstanceAs (Decidable True)

/-- The condition at one node of an expression, on the meanings of its operands: a cast is given an
integer of its target type, and an operator operands as `OpAgrees` wants them. -/
def NodeAgrees (ρ : Store) : Expr → Prop
  | .cast expr targetType =>
    match denote ρ expr with
    | some a => targetType.format.Fits a
    | none => True
  | .binary left op right valueType =>
    match denote ρ left, denote ρ right with
    | some a, some b => OpAgrees op valueType.format (pairFormat ρ.scope left right) a b
    | _, _ => True
  | _ => True

end Nomo.Arith
