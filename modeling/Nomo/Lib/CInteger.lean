import Nomo.Lib.IntFormat

/-!
# Integer arithmetic of C

The part of C (C11 6.2.5, 6.3.1.8, 6.4.4.1, 6.5) that integer expressions rest on, on a platform with
a 32-bit `int` and 64-bit `long` and `long long`.  Operands of different types are first converted to
a common type; unsigned results wrap, and a signed result out of bounds is undefined behaviour, as
are division by zero and a shift by more bits than there are.

A program run by C may also stop itself, so an evaluation has three outcomes.
-/

namespace Nomo.Lib

universe u v

/-- What becomes of evaluating a C expression: a value, an exit with a message, or anything. -/
inductive Outcome (α : Type u) where
  | value (a : α)
  | exit (message : String)
  | undefined
deriving DecidableEq, Repr

namespace Outcome

/-- Go on with the value, if there is one. -/
def bind {α : Type u} {β : Type v} : Outcome α → (α → Outcome β) → Outcome β
  | .value a, f => f a
  | .exit message, _ => .exit message
  | .undefined, _ => .undefined

instance : Monad Outcome where
  pure := .value
  bind := bind

variable {α β : Type u}

@[simp] theorem pure_eq (a : α) : (pure a : Outcome α) = .value a := rfl

@[simp] theorem value_bind (a : α) (f : α → Outcome β) : (Outcome.value a >>= f) = f a := rfl

/-- The evaluation ends the program. -/
def Exits (x : Outcome α) : Prop :=
  ∃ message, x = .exit message

@[simp] theorem exits_exit (message : String) : (Outcome.exit message : Outcome α).Exits :=
  ⟨message, rfl⟩

@[simp] theorem not_exits_value (a : α) : ¬ (Outcome.value a).Exits := by
  rintro ⟨message, h⟩
  cases h

@[simp] theorem not_exits_undefined : ¬ (Outcome.undefined : Outcome α).Exits := by
  rintro ⟨message, h⟩
  cases h

theorem not_exits_map {f : α → β} {x : Outcome α} (h : ¬ x.Exits) : ¬ (f <$> x).Exits := by
  cases x with
  | value a => exact not_exits_value (f a)
  | exit message => exact absurd ⟨message, rfl⟩ h
  | undefined => exact not_exits_undefined

end Outcome

/-! ## Types -/

/-- The integer types no narrower than `int`. -/
inductive CType where
  | int | unsignedInt | long | unsignedLong | longLong | unsignedLongLong
deriving DecidableEq, Repr

namespace CType

/-- Bits and sign of a type. -/
def format : CType → IntFormat
  | .int => ⟨true, 32, IntFormat.bits32_pos⟩
  | .unsignedInt => ⟨false, 32, IntFormat.bits32_pos⟩
  | .long | .longLong => ⟨true, 64, IntFormat.bits64_pos⟩
  | .unsignedLong | .unsignedLongLong => ⟨false, 64, IntFormat.bits64_pos⟩

/-- The conversion rank. -/
def rank : CType → Nat
  | .int | .unsignedInt => 1
  | .long | .unsignedLong => 2
  | .longLong | .unsignedLongLong => 3

/-- The unsigned type of the same rank. -/
def toUnsigned : CType → CType
  | .int | .unsignedInt => .unsignedInt
  | .long | .unsignedLong => .unsignedLong
  | .longLong | .unsignedLongLong => .unsignedLongLong

/-- The usual arithmetic conversions: the type two operands are brought to. -/
def usual (s t : CType) : CType :=
  if s.format.signed = t.format.signed then
    if s.rank < t.rank then t else s
  else
    let signed := if s.format.signed then s else t
    let unsigned := if s.format.signed then t else s
    if signed.rank ≤ unsigned.rank then unsigned
    else if unsigned.format.Within signed.format then signed
    else signed.toUnsigned

/-- The type of a decimal constant: the first of `int` and `long` that holds it. -/
def ofConstant (n : Nat) : Option CType :=
  if CType.int.format.Fits n then some .int
  else if CType.long.format.Fits n then some .long
  else none

/-- The result of an operation carried out in a type. -/
def compute (t : CType) (x : Int) : Outcome Int :=
  if t.format.signed ∧ ¬ t.format.Fits x then .undefined else .value (t.format.wrap x)

theorem compute_of_fits {t : CType} {x : Int} (h : t.format.Fits x) : t.compute x = .value x := by
  rw [compute, if_neg (by simp [h]), IntFormat.wrap_of_fits h]

theorem compute_not_exits (t : CType) (x : Int) : ¬ (t.compute x).Exits := by
  unfold compute
  split_ifs <;> simp

/-! ## Operations within one type -/

def add (t : CType) (x y : Int) : Outcome Int := t.compute (x + y)

def sub (t : CType) (x y : Int) : Outcome Int := t.compute (x - y)

def mul (t : CType) (x y : Int) : Outcome Int := t.compute (x * y)

def neg (t : CType) (x : Int) : Outcome Int := t.compute (-x)

/-- Division truncates towards zero. -/
def div (t : CType) (x y : Int) : Outcome Int :=
  if y = 0 then .undefined else t.compute (x.tdiv y)

/-- The remainder is undefined where the quotient is. -/
def rem (t : CType) (x y : Int) : Outcome Int :=
  if y = 0 ∨ ¬ t.format.Fits (x.tdiv y) then .undefined else t.compute (x.tmod y)

/-- A negative integer must not be shifted to the left. -/
def shl (t : CType) (x count : Int) : Outcome Int :=
  if count < 0 ∨ t.format.bits ≤ count ∨ (t.format.signed ∧ x < 0) then .undefined
  else t.compute (x * 2 ^ count.toNat)

def shr (t : CType) (x count : Int) : Outcome Int :=
  if count < 0 ∨ t.format.bits ≤ count then .undefined else .value (x / 2 ^ count.toNat)

/-- Conversion wraps; for signed types this is what the implementation defines. -/
def convert (t : CType) (x : Int) : Int := t.format.wrap x

theorem convert_of_fits {t : CType} {x : Int} (h : t.format.Fits x) : t.convert x = x :=
  IntFormat.wrap_of_fits h

end CType

/-! ## Values -/

/-- An integer of a type. -/
structure CInt where
  type : CType
  value : Int
  fits : type.format.Fits value
deriving DecidableEq, Repr

namespace CInt

/-- An integer brought to a type. -/
def ofInt (t : CType) (x : Int) : CInt :=
  ⟨t, t.convert x, t.format.fits_wrap x⟩

theorem ofInt_value {t : CType} {x : Int} (h : t.format.Fits x) : (ofInt t x).value = x :=
  CType.convert_of_fits h

/-- A comparison gives an `int`. -/
def ofBool (b : Bool) : CInt :=
  ofInt .int (if b then 1 else 0)

@[simp] theorem ofBool_value (b : Bool) : (ofBool b).value = if b then 1 else 0 := by
  cases b <;> decide

end CInt

/-- The binary operators on integers. -/
inductive COperator where
  | add | sub | mul | div | rem | shl | shr | bitOr | bitXor | bitAnd
  | equal | notEqual | less | lessEqual | greater | greaterEqual
deriving DecidableEq, Repr

namespace COperator

/-- An operation both of whose operands have been brought to type `t`. -/
def within (op : COperator) (t : CType) (x y : Int) : Outcome CInt :=
  match op with
  | .add => CInt.ofInt t <$> t.add x y
  | .sub => CInt.ofInt t <$> t.sub x y
  | .mul => CInt.ofInt t <$> t.mul x y
  | .div => CInt.ofInt t <$> t.div x y
  | .rem => CInt.ofInt t <$> t.rem x y
  | .shl => CInt.ofInt t <$> t.shl x y
  | .shr => CInt.ofInt t <$> t.shr x y
  | .bitOr => .value (CInt.ofInt t (Int.lor x y))
  | .bitXor => .value (CInt.ofInt t (Int.xor x y))
  | .bitAnd => .value (CInt.ofInt t (Int.land x y))
  | .equal => .value (CInt.ofBool (x == y))
  | .notEqual => .value (CInt.ofBool (x != y))
  | .less => .value (CInt.ofBool (decide (x < y)))
  | .lessEqual => .value (CInt.ofBool (decide (x ≤ y)))
  | .greater => .value (CInt.ofBool (decide (y < x)))
  | .greaterEqual => .value (CInt.ofBool (decide (y ≤ x)))

/-- A binary expression.  A shift takes the type of its left operand, every other operator the common
type of both. -/
def eval (op : COperator) (x y : CInt) : Outcome CInt :=
  if op = .shl ∨ op = .shr then op.within x.type x.value y.value
  else
    let t := x.type.usual y.type
    op.within t (t.convert x.value) (t.convert y.value)

end COperator

namespace CInt

/-- A decimal constant. -/
def constant (n : Nat) : Outcome CInt :=
  match CType.ofConstant n with
  | some t => .value (ofInt t n)
  | none => .undefined

/-- Unary minus. -/
def neg (x : CInt) : Outcome CInt :=
  ofInt x.type <$> x.type.neg x.value

/-- The complement operator. -/
def complement (x : CInt) : CInt :=
  ofInt x.type (Int.lnot x.value)

@[simp] theorem complement_type (x : CInt) : x.complement.type = x.type := rfl

theorem complement_value (x : CInt) : x.complement.value = x.type.format.complement x.value := rfl

end CInt

end Nomo.Lib
