import Nomo.Arith.Helpers

/-!
# The checked and wrapping helpers of `std.num`

`num.checked_*` and `num.wrapping_*` in C: the wrapping helpers (`nomo_runtime/src/lib.rs:187–228`)
compute in the unsigned type of the same width and bring the bits back by hand, and the checked
helpers (`nomo_codegen_c/src/runtime/host_num_checked_helpers.rs`) put a test for overflow before
them.

`helpers_exact` is about all helpers on integers, those of the operators included: each is compared
with the mathematical result of its operation, `BinaryOp.exact`.
-/

namespace Nomo.Arith

open Nomo.Lib

/-! ## Wrapping helpers -/

/-- `nomo_wrap_i64` and `nomo_wrap_i32`: bits of the unsigned type read as a signed integer. -/
def wrapBits (t : CType) (bits : Int) : Outcome Int := do
  let u := t.toUnsigned
  if bits ≤ u.convert t.format.maxValue then return t.convert bits
  else
    let rest ← u.sub u.format.maxValue bits
    t.sub (-1) (t.convert rest)

/-- The bodies of the signed wrapping helpers. -/
def wrappingSigned (operation : CType → Int → Int → Outcome Int) (t : CType) (left right : Int) :
    Outcome Int := do
  let u := t.toUnsigned
  wrapBits t (← operation u (u.convert left) (u.convert right))

def nomoNumWrappingAddI64 : Int → Int → Outcome Int := wrappingSigned CType.add .longLong

def nomoNumWrappingSubI64 : Int → Int → Outcome Int := wrappingSigned CType.sub .longLong

def nomoNumWrappingMulI64 : Int → Int → Outcome Int := wrappingSigned CType.mul .longLong

def nomoNumWrappingAddI32 : Int → Int → Outcome Int := wrappingSigned CType.add .int

def nomoNumWrappingSubI32 : Int → Int → Outcome Int := wrappingSigned CType.sub .int

def nomoNumWrappingMulI32 : Int → Int → Outcome Int := wrappingSigned CType.mul .int

def nomoNumWrappingAddU32 : Int → Int → Outcome Int := CType.add .unsignedInt

def nomoNumWrappingSubU32 : Int → Int → Outcome Int := CType.sub .unsignedInt

def nomoNumWrappingMulU32 : Int → Int → Outcome Int := CType.mul .unsignedInt

def nomoNumWrappingAddU64 : Int → Int → Outcome Int := CType.add .unsignedLong

def nomoNumWrappingSubU64 : Int → Int → Outcome Int := CType.sub .unsignedLong

def nomoNumWrappingMulU64 : Int → Int → Outcome Int := CType.mul .unsignedLong

/-- `num_wrapping_binary_helper_name` (`nomo_codegen_c/src/core/names.rs:173–192`). -/
def numWrappingBinaryHelper (op : BinaryOp) (t : IntType) : Option (Int → Int → Outcome Int) :=
  match op, t with
  | .add, .int => some nomoNumWrappingAddI64
  | .subtract, .int => some nomoNumWrappingSubI64
  | .multiply, .int => some nomoNumWrappingMulI64
  | .add, .i32 => some nomoNumWrappingAddI32
  | .subtract, .i32 => some nomoNumWrappingSubI32
  | .multiply, .i32 => some nomoNumWrappingMulI32
  | .add, .u32 => some nomoNumWrappingAddU32
  | .subtract, .u32 => some nomoNumWrappingSubU32
  | .multiply, .u32 => some nomoNumWrappingMulU32
  | .add, .u64 => some nomoNumWrappingAddU64
  | .subtract, .u64 => some nomoNumWrappingSubU64
  | .multiply, .u64 => some nomoNumWrappingMulU64
  | _, _ => none

/-! ## Checked helpers -/

/-- The condition for a signed product: unlike in `checkedMul`, the tests are one expression. -/
def numMulOverflows (t : CType) (left right : Int) : Outcome Bool := do
  if left ≠ 0 ∧ right ≠ 0 then
    if (left = -1 ∧ right = t.format.minValue) ∨ (right = -1 ∧ left = t.format.minValue) then
      return true
    else mulOverflows t left right
  else return false

def numAddOverflowsUnsigned (t : CType) (left right : Int) : Outcome Bool := do
  return decide (left > (← t.sub t.format.maxValue right))

def numSubOverflowsUnsigned (left right : Int) : Outcome Bool := do
  return decide (left < right)

def numMulOverflowsUnsigned (t : CType) (left right : Int) : Outcome Bool := do
  if right ≠ 0 then return decide (left > (← t.div t.format.maxValue right))
  else return false

/-- `num_checked_overflow_condition`.  The tests of sums and differences are those of the operators,
text for text. -/
def numCheckedOverflowCondition (op : BinaryOp) (t : IntType) :
    Option (Int → Int → Outcome Bool) :=
  match op, t with
  | .add, .int => some (addOverflows .longLong)
  | .subtract, .int => some (subOverflows .longLong)
  | .multiply, .int => some (numMulOverflows .longLong)
  | .add, .i32 => some (addOverflows .int)
  | .subtract, .i32 => some (subOverflows .int)
  | .multiply, .i32 => some (numMulOverflows .int)
  | .add, .u32 => some (numAddOverflowsUnsigned .unsignedInt)
  | .subtract, .u32 => some numSubOverflowsUnsigned
  | .multiply, .u32 => some (numMulOverflowsUnsigned .unsignedInt)
  | .add, .u64 => some (numAddOverflowsUnsigned .unsignedLong)
  | .subtract, .u64 => some numSubOverflowsUnsigned
  | .multiply, .u64 => some (numMulOverflowsUnsigned .unsignedLong)
  | _, _ => none

/-- `emit_num_checked_binary_helper`: the helper of an operation and a type. -/
def numCheckedBinaryHelper (op : BinaryOp) (t : IntType) :
    Option (Int → Int → Outcome (Option Int)) := do
  let condition ← numCheckedOverflowCondition op t
  let wrapping ← numWrappingBinaryHelper op t
  return fun left right => do
    if ← condition left right then return none
    else return some (← wrapping left right)

/-! ## What they compute -/

/-- The mathematical result of an operation, where it is defined. -/
def BinaryOp.exact (op : BinaryOp) (f : IntFormat) (a b : Int) : Option Int :=
  match op with
  | .add => some (a + b)
  | .subtract => some (a - b)
  | .multiply => some (a * b)
  | .divide => if b = 0 then none else some (a.tdiv b)
  | .remainder => if b = 0 then none else some (a.tmod b)
  | .shiftLeft => if ShiftAmount f b then some (a * 2 ^ b.toNat) else none
  | .shiftRight => if ShiftAmount f b then some (a / 2 ^ b.toNat) else none
  | _ => none

/-- The mathematical result, where it is defined and representable. -/
def BinaryOp.representable (op : BinaryOp) (f : IntFormat) (a b : Int) : Option Int :=
  (op.exact f a b).filter fun x => f.Fits x

/-- The operations with helpers in `std.num`. -/
def BinaryOp.hasNumHelper : BinaryOp → Bool
  | .add | .subtract | .multiply => true
  | _ => false

/-- The operations with helpers for their operators. -/
def BinaryOp.hasHelper (op : BinaryOp) : Bool :=
  op.hasNumHelper || op == .divide || op == .remainder || op.isShift

/-- The remainder of the least integer by -1: it is 0, but C divides to find it. -/
def LeastRemainder (op : BinaryOp) (f : IntFormat) (a b : Int) : Prop :=
  op = .remainder ∧ f.signed = true ∧ a = f.minValue ∧ b = -1

theorem filter_some_eq_given {f : IntFormat} {x : Int} :
    (some x).filter (fun x => decide (f.Fits x)) = given (f.Fits x) x := by
  by_cases h : f.Fits x <;> simp [given, h, Option.filter]

/-- The checked operations of signed formats are the representable results. -/
theorem checked_eq_representable {op : BinaryOp} {f : IntFormat} {a b : Int}
    (hf : f.signed = true) (hop : op.hasHelper = true) (ha : f.Fits a)
    (hb : op.isShift = false → f.Fits b) (hleast : ¬ LeastRemainder op f a b) :
    op.checked f a b = op.representable f a b := by
  have hmin := IntFormat.minValue_eq hf
  have hmax := f.maxValue_nonneg
  cases op with
  | add | subtract | multiply => exact filter_some_eq_given.symm
  | divide =>
    simp only [BinaryOp.representable, BinaryOp.exact, BinaryOp.checked]
    by_cases hzero : b = 0
    · simp [hzero, given, Divides]
    rw [if_neg hzero, filter_some_eq_given]
    by_cases hleast' : a = f.minValue ∧ b = -1
    · have hnot : ¬ f.Fits (a.tdiv b) := IntFormat.not_fits_tdiv ⟨hf, hleast'⟩
      rw [given, given, if_neg hnot, if_neg fun h => h.2 ⟨hf, hleast'⟩]
    · have hfits : f.Fits (a.tdiv b) :=
        IntFormat.fits_tdiv ha (hb rfl) fun h => hleast' h.2
      have hdivides : Divides f a b := ⟨hzero, fun h => hleast' h.2⟩
      rw [given, given, if_pos hfits, if_pos hdivides]
  | remainder =>
    simp only [BinaryOp.representable, BinaryOp.exact, BinaryOp.checked]
    by_cases hzero : b = 0
    · simp [hzero, given, Divides]
    · have hdivides : Divides f a b := ⟨hzero, fun h => hleast ⟨rfl, h⟩⟩
      rw [if_neg hzero, filter_some_eq_given, given, given, if_pos hdivides,
        if_pos (IntFormat.fits_tmod ha)]
  | shiftLeft =>
    simp only [BinaryOp.representable, BinaryOp.exact, BinaryOp.checked]
    by_cases hamount : ShiftAmount f b
    · rw [if_pos hamount, filter_some_eq_given]
      by_cases hfits : f.Fits (a * 2 ^ b.toNat)
      · rw [given, given, if_pos hfits, if_pos ⟨hamount, fun _ => hfits⟩, IntFormat.wrap_of_fits hfits]
      · rw [given, given, if_neg hfits, if_neg fun h => hfits (h.2 hf)]
    · rw [if_neg hamount, given, if_neg fun h => hamount h.1]
      rfl
  | shiftRight =>
    simp only [BinaryOp.representable, BinaryOp.exact, BinaryOp.checked]
    by_cases hamount : ShiftAmount f b
    · rw [if_pos hamount, filter_some_eq_given, given, given, if_pos hamount,
        if_pos (IntFormat.fits_shiftRight ha b.toNat)]
    · rw [if_neg hamount, given, if_neg hamount]
      rfl
  | _ => cases hop

/-! ### Wrapping helpers -/

section Signed

variable {t : CType} (ht : t.format.signed = true) {l r : Int}

include ht in
theorem wrapBits_eq {bits : Int} (hbits : t.toUnsigned.format.Fits bits) :
    wrapBits t bits = .value (t.format.wrap bits) := by
  obtain ⟨half, hh⟩ := halves ht
  have hbounds := (hh.unsigned bits).mp hbits
  have hconvert : t.toUnsigned.convert (half - 1) = half - 1 :=
    CType.convert_of_fits ((hh.unsigned _).mpr (by omega))
  unfold wrapBits
  simp only [hh.maxValue, hconvert, hh.maxUnsigned]
  split_ifs with hlow
  · rfl
  have hrest : t.toUnsigned.sub (2 * half - 1) bits = .value (2 * half - 1 - bits) :=
    CType.compute_of_fits ((hh.unsigned _).mpr (by omega))
  have hsigned : t.format.Fits (2 * half - 1 - bits) := (hh.signed _).mpr (by omega)
  have hresult : t.format.Fits (bits - 2 * half) := (hh.signed _).mpr (by omega)
  have hperiod : t.format.wrap bits = t.format.wrap (bits - 2 * half) := by
    refine IntFormat.wrap_congr ?_
    have hpower : 2 * half = 2 ^ t.format.bits := by rw [hh.power, t.format.two_pow_bits]
    rw [hpower]
    exact (Int.sub_modulus_modEq_iff.mpr rfl).symm
  rw [hrest]
  simp only [Outcome.value_bind]
  rw [CType.convert_of_fits hsigned, CType.sub,
    show -1 - (2 * half - 1 - bits) = bits - 2 * half by ring, CType.compute_of_fits hresult,
    hperiod, IntFormat.wrap_of_fits hresult]

include ht in
/-- The operation in the unsigned type, read as a signed integer, is the operation modulo the number
of integers. -/
theorem wrappingSigned_eq {operation : CType → Int → Int → Outcome Int} {g : Int → Int → Int}
    (hoperation : ∀ x y, operation t.toUnsigned x y = t.toUnsigned.compute (g x y))
    (hg : ∀ {n x x' y y' : Int}, x ≡ x' [ZMOD n] → y ≡ y' [ZMOD n] → g x y ≡ g x' y' [ZMOD n]) :
    wrappingSigned operation t l r = .value (t.format.wrap (g l r)) := by
  have hunsigned := toUnsigned_signed t
  have hwrap (x) : t.toUnsigned.format.wrap x ≡ x [ZMOD 2 ^ t.format.bits] := by
    rw [← toUnsigned_bits]
    exact IntFormat.wrap_emod
  unfold wrappingSigned
  dsimp only
  rw [hoperation, CType.compute, if_neg (by simp [hunsigned])]
  simp only [Outcome.value_bind]
  rw [wrapBits_eq ht (IntFormat.fits_wrap _ _)]
  exact congrArg _ (IntFormat.wrap_congr ((hwrap _).trans (hg (hwrap l) (hwrap r))))

end Signed

/-- **Each wrapping helper computes modulo the number of integers of its type.** -/
theorem numWrappingBinaryHelper_eq {op : BinaryOp} {t : IntType} (hop : op.hasNumHelper = true)
    (a b : Int) :
    ∃ helper x, numWrappingBinaryHelper op t = some helper ∧ op.exact t.format a b = some x ∧
      helper a b = .value (t.format.wrap x) := by
  have hunsigned (t : CType) (x : Int) : t.format.signed = false →
      t.compute x = .value (t.format.wrap x) := by
    intro ht
    rw [CType.compute, if_neg (by simp [ht])]
  cases op with
  | add =>
    cases t with
    | int | i32 => exact ⟨_, _, rfl, rfl, wrappingSigned_eq rfl (fun _ _ => rfl) Int.ModEq.add⟩
    | u32 => exact ⟨_, _, rfl, rfl, hunsigned .unsignedInt _ rfl⟩
    | u64 => exact ⟨_, _, rfl, rfl, hunsigned .unsignedLong _ rfl⟩
  | subtract =>
    cases t with
    | int | i32 => exact ⟨_, _, rfl, rfl, wrappingSigned_eq rfl (fun _ _ => rfl) Int.ModEq.sub⟩
    | u32 => exact ⟨_, _, rfl, rfl, hunsigned .unsignedInt _ rfl⟩
    | u64 => exact ⟨_, _, rfl, rfl, hunsigned .unsignedLong _ rfl⟩
  | multiply =>
    cases t with
    | int | i32 => exact ⟨_, _, rfl, rfl, wrappingSigned_eq rfl (fun _ _ => rfl) Int.ModEq.mul⟩
    | u32 => exact ⟨_, _, rfl, rfl, hunsigned .unsignedInt _ rfl⟩
    | u64 => exact ⟨_, _, rfl, rfl, hunsigned .unsignedLong _ rfl⟩
  | _ => cases hop

/-! ### Checked helpers -/

section Unsigned

variable {t : CType} (ht : t.format.signed = false) {l r : Int}

include ht in
theorem numAddOverflowsUnsigned_eq (hl : t.format.Fits l) (hr : t.format.Fits r) :
    numAddOverflowsUnsigned t l r = .value (decide (¬ t.format.Fits (l + r))) := by
  have hmin := IntFormat.minValue_unsigned ht
  obtain ⟨hl0, hl1⟩ := hl
  obtain ⟨hr0, hr1⟩ := hr
  rw [hmin] at hl0 hr0
  have hlimit : t.format.Fits (t.format.maxValue - r) := ⟨by omega, by omega⟩
  rw [numAddOverflowsUnsigned, CType.sub, CType.compute_of_fits hlimit]
  simp only [Outcome.value_bind, Outcome.pure_eq, IntFormat.Fits, hmin]
  congr 2
  exact propext ⟨fun h => by omega, fun h => by omega⟩

include ht in
theorem numSubOverflowsUnsigned_eq (hl : t.format.Fits l) (hr : t.format.Fits r) :
    numSubOverflowsUnsigned l r = .value (decide (¬ t.format.Fits (l - r))) := by
  have hmin := IntFormat.minValue_unsigned ht
  obtain ⟨hl0, hl1⟩ := hl
  obtain ⟨hr0, hr1⟩ := hr
  rw [hmin] at hl0 hr0
  simp only [numSubOverflowsUnsigned, Outcome.pure_eq, IntFormat.Fits, hmin]
  congr 2
  exact propext ⟨fun h => by omega, fun h => by omega⟩

include ht in
theorem numMulOverflowsUnsigned_eq (hl : t.format.Fits l) (hr : t.format.Fits r) :
    numMulOverflowsUnsigned t l r = .value (decide (¬ t.format.Fits (l * r))) := by
  have hmin := IntFormat.minValue_unsigned ht
  have hmax := t.format.maxValue_nonneg
  have hl0 : 0 ≤ l := hmin ▸ hl.1
  have hr0 : 0 ≤ r := hmin ▸ hr.1
  have hproduct : 0 ≤ l * r := mul_nonneg hl0 hr0
  unfold numMulOverflowsUnsigned
  split_ifs with hzero
  · have hpos : 0 < r := by omega
    have hfits : t.format.Fits t.format.maxValue := ⟨by omega, le_rfl⟩
    rw [div_eq hfits hr ⟨hzero, fun h => by simp [ht] at h⟩]
    simp only [Outcome.value_bind, Outcome.pure_eq, IntFormat.Fits, hmin, gt_iff_lt, tdiv_lt_iff hmax hpos]
    congr 2
    exact propext ⟨fun h => by omega, fun h => by omega⟩
  · have hr : r = 0 := by omega
    simp [hr, t.format.fits_zero]

end Unsigned

theorem numMulOverflows_eq {t : CType} (ht : t.format.signed = true) {l r : Int}
    (hl : t.format.Fits l) (hr : t.format.Fits r) :
    numMulOverflows t l r = .value (decide (¬ t.format.Fits (l * r))) := by
  have hmin := IntFormat.minValue_eq ht
  have hmax := t.format.maxValue_nonneg
  unfold numMulOverflows
  split_ifs with hzero hleast
  · have hnot : ¬ t.format.Fits (l * r) := by
      intro h
      obtain ⟨h1, h2⟩ := h
      rcases hleast with ⟨rfl, rfl⟩ | ⟨rfl, rfl⟩ <;> omega
    simp [hnot]
  · exact mulOverflows_eq ht hl hr hzero.1 hzero.2
  · have hproduct : l * r = 0 := by
      by_cases hl0 : l = 0
      · simp [hl0]
      · have hr0 : r = 0 := by
          by_contra hr0
          exact hzero ⟨hl0, hr0⟩
        simp [hr0]
    simp [hproduct, t.format.fits_zero]

/-- The condition of a checked helper tells whether the result is not representable. -/
theorem numCheckedOverflowCondition_eq {op : BinaryOp} {t : IntType} (hop : op.hasNumHelper = true)
    {a b : Int} (ha : t.format.Fits a) (hb : t.format.Fits b) :
    ∃ condition x, numCheckedOverflowCondition op t = some condition ∧
      op.exact t.format a b = some x ∧ condition a b = .value (decide (¬ t.format.Fits x)) := by
  cases op with
  | add =>
    cases t with
    | int | i32 => exact ⟨_, _, rfl, rfl, addOverflows_eq rfl hb ha⟩
    | u32 | u64 => exact ⟨_, _, rfl, rfl, numAddOverflowsUnsigned_eq rfl ha hb⟩
  | subtract =>
    cases t with
    | int | i32 => exact ⟨_, _, rfl, rfl, subOverflows_eq rfl hb ha⟩
    | u32 => exact ⟨_, _, rfl, rfl, numSubOverflowsUnsigned_eq (t := .unsignedInt) rfl ha hb⟩
    | u64 => exact ⟨_, _, rfl, rfl, numSubOverflowsUnsigned_eq (t := .unsignedLong) rfl ha hb⟩
  | multiply =>
    cases t with
    | int | i32 => exact ⟨_, _, rfl, rfl, numMulOverflows_eq rfl ha hb⟩
    | u32 | u64 => exact ⟨_, _, rfl, rfl, numMulOverflowsUnsigned_eq rfl ha hb⟩
  | _ => exact nomatch hop

/-- **Each checked helper gives the representable result**, or none. -/
theorem numCheckedBinaryHelper_eq {op : BinaryOp} {t : IntType} (hop : op.hasNumHelper = true)
    {a b : Int} (ha : t.format.Fits a) (hb : t.format.Fits b) :
    ∃ helper, numCheckedBinaryHelper op t = some helper ∧
      helper a b = .value (op.representable t.format a b) := by
  obtain ⟨condition, x, hcondition, hexact, htest⟩ := numCheckedOverflowCondition_eq hop ha hb
  obtain ⟨wrapping, y, hwrapping, hexact', hresult⟩ := numWrappingBinaryHelper_eq (t := t) hop a b
  obtain rfl : x = y := Option.some.inj (hexact.symm.trans hexact')
  rw [numCheckedBinaryHelper, hcondition, hwrapping]
  refine ⟨_, rfl, ?_⟩
  rw [htest, BinaryOp.representable, hexact, filter_some_eq_given]
  by_cases hfits : t.format.Fits x
  · simp [hfits, hresult, given, IntFormat.wrap_of_fits hfits]
  · simp [hfits, given]

/-! ### All helpers -/

theorem exists_checkedBinaryHelper {op : BinaryOp} {t : IntType} (ht : t.format.signed = true)
    (hop : op.hasHelper = true) : ∃ helper, checkedBinaryHelper op (.integer t) = some helper := by
  cases t with
  | int | i32 => cases op <;> first | exact ⟨_, rfl⟩ | cases hop
  | u32 | u64 => cases ht

/-- **The helpers on integers are exact.**  A helper of a signed operator gives the mathematical result
where that is defined and representable, and panics otherwise; it also panics for the remainder of the
least integer by -1.  A checked helper gives that result or none, and a wrapping helper the result
modulo the number of integers of its type.  No evaluation is undefined. -/
theorem helpers_exact {op : BinaryOp} {t : IntType} {a b : Int} (ha : t.format.Fits a)
    (hb : if op.isShift then IntType.u64.format.Fits b else t.format.Fits b) :
    (t.format.signed = true → op.hasHelper = true →
      ∃ helper, checkedBinaryHelper op (.integer t) = some helper ∧
        (¬ LeastRemainder op t.format a b → Yields (helper.body a b) (op.representable t.format a b)) ∧
        (LeastRemainder op t.format a b → (helper.body a b).Exits)) ∧
      (op.hasNumHelper = true →
        (∃ helper, numCheckedBinaryHelper op t = some helper ∧
          helper a b = .value (op.representable t.format a b)) ∧
        ∃ helper x, numWrappingBinaryHelper op t = some helper ∧ op.exact t.format a b = some x ∧
          helper a b = .value (t.format.wrap x)) := by
  constructor
  · intro ht hop
    obtain ⟨helper, hhelper⟩ := exists_checkedBinaryHelper ht hop
    have hyields : Yields (helper.body a b) (op.checked t.format a b) := by
      refine checkedBinaryHelper_yields hhelper ha ?_
      split_ifs at hb ⊢ with hshift
      · exact hb.1
      · exact hb
    refine ⟨helper, hhelper, fun hleast => ?_, fun hleast => ?_⟩
    · rw [← checked_eq_representable ht hop ha (fun hshift => by simpa [hshift] using hb) hleast]
      exact hyields
    · obtain ⟨rfl, hleast⟩ := hleast
      have hnone : BinaryOp.remainder.checked t.format a b = none :=
        if_neg fun h => h.2 hleast
      rwa [hnone] at hyields
  · intro hop
    have hshift : op.isShift = false := by
      cases op <;> first | rfl | cases hop
    rw [if_neg (by simp [hshift])] at hb
    exact ⟨numCheckedBinaryHelper_eq hop ha hb, numWrappingBinaryHelper_eq hop a b⟩

/-- Two factors whose product is not representable. -/
theorem helpers_exact_product :
    (∃ helper, numCheckedBinaryHelper .multiply .i32 = some helper ∧
      helper 65536 65536 = .value none) ∧
    ∃ helper, numWrappingBinaryHelper .multiply .i32 = some helper ∧
      helper 65536 65536 = .value 0 := by
  have hfits : IntType.i32.format.Fits 65536 := by decide
  have hexact := (@helpers_exact .multiply .i32 65536 65536 hfits hfits).2 rfl
  obtain ⟨hchecked, helper, x, hhelper, hx, hresult⟩ := hexact
  cases hx
  exact ⟨hchecked, helper, hhelper, hresult⟩

/-- The remainder of the least integer by -1 is 0, but `nomo_rem_i64` panics. -/
theorem least_remainder_exits :
    BinaryOp.remainder.representable IntType.int.format (-2 ^ 63) (-1) = some 0 ∧
      nomoRemI64.body (-2 ^ 63) (-1) = .exit "signed integer overflow" := by
  decide

end Nomo.Arith
