import Nomo.Lib.IntFormat

/-!
# Integer expressions

Integer expressions as the parser gives them and as the compiler lowers them
(`nomo_compiler/src/core/typing.rs:105–280`, `nomo_compiler/src/expressions/expression_ops.rs:3–330`).

A literal has no type of its own: it takes the one its context expects, and lowering then forgets it
(`IntLiteral` keeps the integer only).  Both back ends are left to guess, each in its own way, which
is why the judgement `HasType` keeps track of where a literal may stand.
-/

namespace Nomo.Arith

open Nomo.Lib

/-! ## Types and values -/

/-- The integer types. -/
inductive IntType where
  | int | i32 | u32 | u64
deriving DecidableEq, Repr

namespace IntType

/-- The name in a program. -/
def name : IntType → String
  | .int => "i64"
  | .i32 => "i32"
  | .u32 => "u32"
  | .u64 => "u64"

/-- Bits and sign. -/
def format : IntType → IntFormat
  | .int => ⟨true, 64, by decide⟩
  | .i32 => ⟨true, 32, by decide⟩
  | .u32 => ⟨false, 32, by decide⟩
  | .u64 => ⟨false, 64, by decide⟩

end IntType

/-- What an expression may be: an integer, or the result of a comparison. -/
inductive ExprType where
  | integer (type : IntType)
  | bool
deriving DecidableEq, Repr

namespace ExprType

def name : ExprType → String
  | .integer t => t.name
  | .bool => "bool"

def isInteger : ExprType → Bool
  | .integer _ => true
  | .bool => false

end ExprType

/-- An integer of a type. -/
structure IntValue where
  type : IntType
  value : Int
  fits : type.format.Fits value
deriving DecidableEq, Repr

/-- The variables in scope, each with a value of its type. -/
abbrev Store := String → Option IntValue

/-- The types of the variables in scope. -/
abbrev Scope := String → Option IntType

def Store.scope (ρ : Store) : Scope :=
  fun name => (ρ name).map IntValue.type

/-! ## Expressions -/

/-- The operators on integers. -/
inductive BinaryOp where
  | add | subtract | bitOr | bitXor | multiply | divide | remainder | shiftLeft | shiftRight
  | bitAnd | bitAndNot | equal | notEqual | less | lessEqual | greater | greaterEqual
deriving DecidableEq, Repr

namespace BinaryOp

/-- `ast_binary_symbol`. -/
def symbol : BinaryOp → String
  | .add => "+"
  | .subtract => "-"
  | .bitOr => "|"
  | .bitXor => "^"
  | .multiply => "*"
  | .divide => "/"
  | .remainder => "%"
  | .shiftLeft => "<<"
  | .shiftRight => ">>"
  | .bitAnd => "&"
  | .bitAndNot => "&^"
  | .equal => "=="
  | .notEqual => "!="
  | .less => "<"
  | .lessEqual => "<="
  | .greater => ">"
  | .greaterEqual => ">="

def isArithmetic : BinaryOp → Bool
  | .add | .subtract | .multiply | .divide | .remainder => true
  | _ => false

def isBitwise : BinaryOp → Bool
  | .bitOr | .bitXor | .bitAnd | .bitAndNot => true
  | _ => false

def isShift : BinaryOp → Bool
  | .shiftLeft | .shiftRight => true
  | _ => false

def isEquality : BinaryOp → Bool
  | .equal | .notEqual => true
  | _ => false

def isComparison : BinaryOp → Bool
  | .equal | .notEqual | .less | .lessEqual | .greater | .greaterEqual => true
  | _ => false

end BinaryOp

/-- A literal of the source.  The lexer reads it as an `i64`, and never as a negative one: a minus
sign is an operator. -/
abbrev Literal := { n : Nat // n < 2 ^ 63 }

/-- An `i64` of the compiler, which is written in Rust. -/
abbrev I64 := { x : Int // IntType.int.format.Fits x }

namespace Literal

theorem fits (value : Literal) : IntType.int.format.Fits (value.1 : Int) := by
  have h := value.2
  rw [IntFormat.fits_signed rfl]
  simp [IntType.format]
  omega

theorem fits_neg (value : Literal) : IntType.int.format.Fits (-(value.1 : Int)) := by
  have h := value.2
  rw [IntFormat.fits_signed rfl]
  simp [IntType.format]
  omega

def toI64 (value : Literal) : I64 := ⟨value.1, value.fits⟩

def negated (value : Literal) : I64 := ⟨-value.1, value.fits_neg⟩

end Literal

/-- An expression as parsed. -/
inductive AstExpr where
  | int (value : Literal)
  | variable (name : String)
  | cast (expr : AstExpr) (target : IntType)
  | negate (expr : AstExpr)
  | binary (left : AstExpr) (op : BinaryOp) (right : AstExpr)

/-- An expression as lowered. -/
inductive Expr where
  | intLiteral (value : I64)
  | variable (name : String)
  | cast (expr : Expr) (targetType : IntType)
  | binary (left : Expr) (op : BinaryOp) (right : Expr) (valueType : ExprType)
deriving DecidableEq, Repr

namespace Expr

def isLiteral : Expr → Bool
  | .intLiteral _ => true
  | _ => false

/-- An expression and all its parts. -/
def subexpressions : Expr → List Expr
  | .intLiteral value => [.intLiteral value]
  | .variable name => [.variable name]
  | .cast expr targetType => .cast expr targetType :: expr.subexpressions
  | .binary left op right valueType =>
    .binary left op right valueType :: (left.subexpressions ++ right.subexpressions)

theorem mem_subexpressions_self (e : Expr) : e ∈ e.subexpressions := by
  cases e <;> simp [subexpressions]

end Expr

/-! ## Lowering -/

def AstExpr.isInt : AstExpr → Bool
  | .int _ => true
  | _ => false

/-- `lower_int_literal`. -/
def lowerIntLiteral (value : Literal) (expected : Option ExprType) : Except String (ExprType × Expr) :=
  let valueType := match expected with
    | some (.integer t) => t
    | _ => .int
  if valueType.format.Fits value.1 then .ok (.integer valueType, .intLiteral value.toI64)
  else .error s!"integer literal `{value.1}` does not fit in `{valueType.name}`"

/-- The first case of `lower_negate_expr`: the negation of a literal is a literal. -/
def lowerNegatedLiteral (value : Literal) (expected : Option ExprType) :
    Except String (ExprType × Expr) :=
  match expected with
  | some (.integer .i32) =>
    if (value.1 : Int) ≤ IntType.i32.format.maxValue + 1 then
      .ok (.integer .i32, .intLiteral value.negated)
    else .error s!"integer literal `-{value.1}` does not fit in `i32`"
  | _ => .ok (.integer .int, .intLiteral value.negated)

/-- The literal zero. -/
def zeroLiteral : Expr := .intLiteral ⟨0, IntType.int.format.fits_zero⟩

/-- The other cases of `lower_negate_expr`: subtraction from zero. -/
def lowerNegated (operand : ExprType × Expr) : Except String (ExprType × Expr) :=
  match operand with
  | (.integer .int, expr) =>
    .ok (.integer .int, .binary zeroLiteral .subtract expr (.integer .int))
  | (.integer .i32, expr) =>
    .ok (.integer .i32, .binary zeroLiteral .subtract expr (.integer .i32))
  | _ => .error "`-` expects an i32, i64, or f64 operand"

/-- What `lower_negate_expr` expects of its operand. -/
def signedExpected : Option ExprType → Option ExprType
  | some (.integer .int) => some (.integer .int)
  | some (.integer .i32) => some (.integer .i32)
  | _ => none

/-- `numeric_pair_matches`. -/
def numericPairMatches (left right : ExprType) : Bool :=
  left == right && left.isInteger

/-- The type of a binary expression (`lower_binary_value_expr`). -/
def binaryValueType (op : BinaryOp) (left right : ExprType) : Except String ExprType :=
  if op.isArithmetic then
    if numericPairMatches left right then .ok left
    else .error s!"`{op.symbol}` expects two matching numeric operands"
  else if op.isBitwise then
    if numericPairMatches left right then .ok left
    else .error s!"`{op.symbol}` expects two matching integer operands"
  else if op.isShift then
    if left.isInteger && right.isInteger then .ok left
    else .error s!"`{op.symbol}` expects two matching integer operands"
  else if op.isEquality && left == .bool && right == .bool then .ok .bool
  else if numericPairMatches left right then .ok .bool
  else .error s!"`{op.symbol}` expects two matching comparable operands"

/-- `lower_binary_value_expr`, on lowered operands. -/
def lowerBinaryOf (op : BinaryOp) (left right : ExprType × Expr) :
    Except String (ExprType × Expr) :=
  match binaryValueType op left.1 right.1 with
  | .ok valueType => .ok (valueType, .binary left.2 op right.2 valueType)
  | .error message => .error message

/-- `lower_cast_value_expr`, on a lowered operand. -/
def lowerCastOf (operand : ExprType × Expr) (target : IntType) :
    Except String (ExprType × Expr) :=
  match operand with
  | (.integer _, expr) => .ok (.integer target, .cast expr target)
  | (.bool, _) => .error s!"cannot cast `bool` to `{target.name}`"

/-- `lower_value_expr_with_expected`. -/
def lowerExpr (Γ : Scope) : AstExpr → Option ExprType → Except String (ExprType × Expr)
  | .int value, expected => lowerIntLiteral value expected
  | .variable name, _ =>
    match Γ name with
    | some t => .ok (.integer t, .variable name)
    | none => .error s!"unknown variable `{name}`"
  | .cast expr target, _ =>
    match lowerExpr Γ expr none with
    | .ok operand => lowerCastOf operand target
    | .error message => .error message
  | .negate (.int value), expected => lowerNegatedLiteral value expected
  | .negate expr, expected =>
    match lowerExpr Γ expr (signedExpected expected) with
    | .ok operand => lowerNegated operand
    | .error message => .error message
  | .binary left op right, _ =>
    -- `lower_binary_operands`: the right operand follows the left one, and a literal on the left
    -- follows the right operand where that failed
    match lowerExpr Γ left none with
    | .error message => .error message
    | .ok leftDefault =>
      match lowerExpr Γ right (some leftDefault.1) with
      | .error message => .error message
      | .ok rightWithLeft =>
        if numericPairMatches leftDefault.1 rightWithLeft.1 then
          lowerBinaryOf op leftDefault rightWithLeft
        else if left.isInt then
          match lowerExpr Γ right none with
          | .error message => .error message
          | .ok rightDefault =>
            if rightDefault.1.isInteger then
              match lowerExpr Γ left (some rightDefault.1) with
              | .error message => .error message
              | .ok leftWithRight => lowerBinaryOf op leftWithRight rightDefault
            else lowerBinaryOf op leftDefault rightWithLeft
        else lowerBinaryOf op leftDefault rightWithLeft

/-! ## Well-typed expressions -/

/-- The integers a literal of a type may stand for.  `-9223372036854775808` cannot be written. -/
def LiteralFits (t : IntType) (value : I64) : Prop :=
  t.format.Fits value.1 ∧ value.1.natAbs < 2 ^ 63

/-- The shape of lowered expressions.  Two literals never meet under an unsigned type: one of them
took its type from the other operand. -/
inductive HasType (Γ : Scope) : Expr → ExprType → Prop where
  | intLiteral {value : I64} {t : IntType} (fits : LiteralFits t value) :
    HasType Γ (.intLiteral value) (.integer t)
  | variable {name : String} {t : IntType} (known : Γ name = some t) :
    HasType Γ (.variable name) (.integer t)
  | cast {expr : Expr} {source target : IntType} (operand : HasType Γ expr (.integer source)) :
    HasType Γ (.cast expr target) (.integer target)
  | numeric {left right : Expr} {op : BinaryOp} {t : IntType}
    (numericOp : op.isArithmetic = true ∨ op.isBitwise = true)
    (leftType : HasType Γ left (.integer t)) (rightType : HasType Γ right (.integer t))
    (literals : t.format.signed = true ∨ left.isLiteral = false ∨ right.isLiteral = false) :
    HasType Γ (.binary left op right (.integer t)) (.integer t)
  | shift {left right : Expr} {op : BinaryOp} {t s : IntType} (shiftOp : op.isShift = true)
    (leftType : HasType Γ left (.integer t)) (rightType : HasType Γ right (.integer s)) :
    HasType Γ (.binary left op right (.integer t)) (.integer t)
  | comparison {left right : Expr} {op : BinaryOp} {t : IntType}
    (comparisonOp : op.isComparison = true)
    (leftType : HasType Γ left (.integer t)) (rightType : HasType Γ right (.integer t))
    (literals : t.format.signed = true ∨ left.isLiteral = false ∨ right.isLiteral = false) :
    HasType Γ (.binary left op right .bool) .bool
  | equality {left right : Expr} {op : BinaryOp} (equalityOp : op.isEquality = true)
    (leftType : HasType Γ left .bool) (rightType : HasType Γ right .bool) :
    HasType Γ (.binary left op right .bool) .bool

/-! ## Lowering gives well-typed expressions -/

variable {Γ : Scope}

theorem lowerIntLiteral_hasType {value : Literal}
    {expected : Option ExprType} {T : ExprType} {e : Expr}
    (h : lowerIntLiteral value expected = .ok (T, e)) : HasType Γ e T := by
  simp only [lowerIntLiteral] at h
  split_ifs at h with hfits
  cases h
  exact .intLiteral ⟨hfits, by simpa [Literal.toI64] using value.2⟩

theorem lowerNegatedLiteral_hasType {value : Literal}
    {expected : Option ExprType} {T : ExprType} {e : Expr}
    (h : lowerNegatedLiteral value expected = .ok (T, e)) : HasType Γ e T := by
  have habs : value.negated.1.natAbs < 2 ^ 63 := by simpa [Literal.negated] using value.2
  unfold lowerNegatedLiteral at h
  split at h
  · split at h
    · next hfits =>
      cases h
      refine .intLiteral ⟨?_, habs⟩
      rw [IntFormat.fits_signed rfl]
      simp [IntFormat.maxValue, IntType.format, Literal.negated] at hfits ⊢
      omega
    · cases h
  · cases h
    exact .intLiteral ⟨value.fits_neg, habs⟩

theorem lowerNegated_hasType {operand : ExprType × Expr} {T : ExprType} {e : Expr}
    (hoperand : HasType Γ operand.2 operand.1) (h : lowerNegated operand = .ok (T, e)) :
    HasType Γ e T := by
  have hzero (t : IntType) : HasType Γ zeroLiteral (.integer t) :=
    .intLiteral ⟨t.format.fits_zero, by norm_num⟩
  unfold lowerNegated at h
  split at h
  · cases h
    exact .numeric (Or.inl rfl) (hzero _) hoperand (Or.inl rfl)
  · cases h
    exact .numeric (Or.inl rfl) (hzero _) hoperand (Or.inl rfl)
  · cases h

theorem lowerCastOf_hasType {operand : ExprType × Expr} {target : IntType} {T : ExprType}
    {e : Expr} (hoperand : HasType Γ operand.2 operand.1)
    (h : lowerCastOf operand target = .ok (T, e)) : HasType Γ e T := by
  unfold lowerCastOf at h
  split at h
  · cases h
    exact .cast hoperand
  · cases h

theorem numericPairMatches_eq {left right : ExprType} (h : numericPairMatches left right = true) :
    ∃ t, left = .integer t ∧ right = .integer t := by
  simp only [numericPairMatches, Bool.and_eq_true, beq_iff_eq] at h
  obtain ⟨rfl, hleft⟩ := h
  cases left with
  | integer t => exact ⟨t, rfl, rfl⟩
  | bool => cases hleft

theorem lowerBinaryOf_hasType {op : BinaryOp} {left right : ExprType × Expr} {T : ExprType}
    {e : Expr} (hleft : HasType Γ left.2 left.1) (hright : HasType Γ right.2 right.1)
    (hliterals : ∀ t : IntType, left.1 = .integer t → right.1 = .integer t →
      t.format.signed = true ∨ left.2.isLiteral = false ∨ right.2.isLiteral = false)
    (h : lowerBinaryOf op left right = .ok (T, e)) : HasType Γ e T := by
  obtain ⟨leftType, left⟩ := left
  obtain ⟨rightType, right⟩ := right
  simp only at hleft hright hliterals
  unfold lowerBinaryOf at h
  split at h
  swap
  · cases h
  next valueType hvalueType =>
  cases h
  simp only at hvalueType ⊢
  unfold binaryValueType at hvalueType
  split_ifs at hvalueType with harith hmatch hbit hmatch hshift hints hequality hmatch
  · cases hvalueType
    obtain ⟨t, rfl, rfl⟩ := numericPairMatches_eq hmatch
    exact .numeric (Or.inl harith) hleft hright (hliterals t rfl rfl)
  · cases hvalueType
    obtain ⟨t, rfl, rfl⟩ := numericPairMatches_eq hmatch
    exact .numeric (Or.inr hbit) hleft hright (hliterals t rfl rfl)
  · cases hvalueType
    cases T with
    | bool => simp [ExprType.isInteger] at hints
    | integer t =>
      cases rightType with
      | bool => simp [ExprType.isInteger] at hints
      | integer s => exact .shift hshift hleft hright
  · cases hvalueType
    simp only [Bool.and_eq_true, beq_iff_eq] at hequality
    obtain ⟨⟨hop, rfl⟩, rfl⟩ := hequality
    exact .equality hop hleft hright
  · cases hvalueType
    obtain ⟨t, rfl, rfl⟩ := numericPairMatches_eq hmatch
    have hcomparison : op.isComparison = true := by
      cases op <;> simp_all [BinaryOp.isComparison, BinaryOp.isArithmetic, BinaryOp.isBitwise,
        BinaryOp.isShift]
    exact .comparison hcomparison hleft hright (hliterals t rfl rfl)

theorem lowerBinaryOf_not_literal {op : BinaryOp} {left right : ExprType × Expr} {T : ExprType}
    {e : Expr} (h : lowerBinaryOf op left right = .ok (T, e)) : e.isLiteral = false := by
  unfold lowerBinaryOf at h
  split at h
  · cases h
    rfl
  · cases h

theorem lowerExpr_literal {source : AstExpr} {T : ExprType} {e : Expr}
    (h : lowerExpr Γ source none = .ok (T, e)) (hliteral : e.isLiteral = true) :
    T = .integer .int := by
  cases source with
  | int value =>
    simp only [lowerExpr, lowerIntLiteral] at h
    split at h
    · cases h
      rfl
    · cases h
  | «variable» name =>
    simp only [lowerExpr] at h
    split at h <;> cases h
    cases hliteral
  | cast expr target =>
    simp only [lowerExpr, lowerCastOf] at h
    split at h
    · split at h <;> cases h
      cases hliteral
    · cases h
  | negate expr =>
    cases expr with
    | int value =>
      simp only [lowerExpr, lowerNegatedLiteral] at h
      cases h
      rfl
    | _ =>
      simp only [lowerExpr, lowerNegated] at h
      split at h
      · split at h <;> cases h <;> cases hliteral
      · cases h
  | binary left op right =>
    simp only [lowerExpr] at h
    repeat' split at h
    all_goals first
      | cases h
      | rw [lowerBinaryOf_not_literal h] at hliteral; cases hliteral

/-- **What lowering accepts is well typed.** -/
theorem lowerExpr_hasType (source : AstExpr) : ∀ {expected : Option ExprType} {T : ExprType}
    {e : Expr}, lowerExpr Γ source expected = .ok (T, e) → HasType Γ e T := by
  induction source with
  | int value =>
    intro expected T e h
    exact lowerIntLiteral_hasType h
  | «variable» name =>
    intro expected T e h
    simp only [lowerExpr] at h
    split at h
    · next t known =>
      cases h
      exact .variable known
    · cases h
  | cast expr target ih =>
    intro expected T e h
    simp only [lowerExpr] at h
    split at h
    · next operand hoperand => exact lowerCastOf_hasType (ih hoperand) h
    · cases h
  | negate expr ih =>
    intro expected T e h
    cases expr with
    | int value => exact lowerNegatedLiteral_hasType h
    | _ =>
      unfold lowerExpr at h
      split at h
      · next operand hoperand => exact lowerNegated_hasType (ih hoperand) h
      · cases h
  | binary left op right ihLeft ihRight =>
    intro expected T e h
    simp only [lowerExpr] at h
    split at h
    · cases h
    next leftDefault hleft =>
    have hleftSigned : ∀ t, leftDefault.1 = .integer t → t.format.signed = true ∨
        leftDefault.2.isLiteral = false := fun t ht => by
      by_cases hliteral : leftDefault.2.isLiteral = true
      · have := lowerExpr_literal hleft hliteral
        rw [ht] at this
        cases this
        exact Or.inl rfl
      · exact Or.inr (by simpa using hliteral)
    split at h
    · cases h
    next rightWithLeft hright =>
    have hdefault : lowerBinaryOf op leftDefault rightWithLeft = .ok (T, e) → HasType Γ e T :=
      lowerBinaryOf_hasType (ihLeft hleft) (ihRight hright)
        (fun t ht _ => (hleftSigned t ht).imp id Or.inl)
    split_ifs at h with hmatch hint
    · exact hdefault h
    · split at h
      · cases h
      next rightDefault hrightDefault =>
      split_ifs at h
      · split at h
        · cases h
        next leftWithRight hleftWithRight =>
        refine lowerBinaryOf_hasType (ihLeft hleftWithRight) (ihRight hrightDefault) ?_ h
        intro t _ ht
        by_cases hliteral : rightDefault.2.isLiteral = true
        · have := lowerExpr_literal hrightDefault hliteral
          rw [ht] at this
          cases this
          exact Or.inl rfl
        · exact Or.inr (Or.inr (by simpa using hliteral))
      · exact hdefault h
    · exact hdefault h

end Nomo.Arith
