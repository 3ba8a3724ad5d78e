import Nomo.Arith.Helpers

/-!
# The C program computes the meaning

Emission forgets the types of literals, so the C type of an emitted expression need not be that of
its declared type: a `u32` may be carried by a `long`, and a literal by an `int`.  `carriers` lists
the C types an expression may have; they are closed under the usual arithmetic conversions and wide
enough, so that the conversions never change a value.

What remains is arithmetic of unsigned integers by the operators of C.  It never stops the program,
and so has the checked meaning just where the result fits.
-/

namespace Nomo.Arith

open Nomo.Lib

/-! ## The C types of emitted expressions -/

/-- The C types a literal of a type, or another expression of that type, may have. -/
def carriers (literal : Bool) : IntType → List CType
  | .int | .i32 => [.int, .long, .longLong]
  | .u32 => if literal then [.int, .long] else [.unsignedInt, .long]
  | .u64 => if literal then [.int, .long] else [.unsignedLong]

/-- `carriers`, for all types. -/
def Carries (literal : Bool) : ExprType → CType → Prop
  | .integer t, c => c ∈ carriers literal t
  | .bool, c => c = .int

/-- A C value stands for an integer of a type. -/
structure Represents (literal : Bool) (T : ExprType) (a : Int) (x : CInt) : Prop where
  value : x.value = a
  carries : Carries literal T x.type
  fits : T.format.Fits a

/-- An evaluation gives a C value for the integer there is, and ends the program where there is
none. -/
def NativeYields (literal : Bool) (T : ExprType) (x : Outcome CInt) : Option Int → Prop
  | some a => ∃ c, x = .value c ∧ Represents literal T a c
  | none => x.Exits

/-- The operands take their type from each other: two literals only meet in a signed type. -/
def Anchored (t : IntType) (left right : Bool) : Prop :=
  t.format.signed = true ∨ left = false ∨ right = false

theorem cType_mem_carriers (t : IntType) : cType t ∈ carriers false t := by
  cases t <;> decide

theorem usual_mem_carriers {t : IntType} {l r : Bool} (h : Anchored t l r) {c d : CType}
    (hc : c ∈ carriers l t) (hd : d ∈ carriers r t) : c.usual d ∈ carriers false t := by
  have key : ∀ c ∈ carriers l t, ∀ d ∈ carriers r t, c.usual d ∈ carriers false t := by
    cases t <;> cases l <;> cases r <;> first
      | decide
      | simp [Anchored, IntType.format] at h
  exact key c hc d hd

theorem within_usual_of_signed {t : IntType} (ht : t.format.signed = true) {l r : Bool}
    {c d : CType} (hc : c ∈ carriers l t) (hd : d ∈ carriers r t) :
    c.format.Within (c.usual d).format ∧ d.format.Within (c.usual d).format := by
  have key : ∀ c ∈ carriers l t, ∀ d ∈ carriers r t,
      c.format.Within (c.usual d).format ∧ d.format.Within (c.usual d).format := by
    cases t <;> cases l <;> cases r <;> first
      | decide
      | cases ht
  exact key c hc d hd

/-- A carrier of an unsigned type that is not the type of a literal has room for all its
integers. -/
theorem within_of_unsigned {t : IntType} (ht : t.format.signed = false) {c : CType}
    (hc : c ∈ carriers false t) : t.format.Within c.format := by
  have key : ∀ c ∈ carriers false t, t.format.Within c.format := by
    cases t <;> first
      | decide
      | cases ht
  exact key c hc

/-- An operand of unsigned type has room for the integers of the declared type; and an operand fits
the common type, unless it is signed and the common type is not. -/
theorem within_usual {t : IntType} {l r : Bool} {c d : CType}
    (hc : c ∈ carriers l t) (hd : d ∈ carriers r t) :
    (d.format.signed = false → t.format.Within d.format) ∧
      ((d.format.signed = true → (c.usual d).format.signed = true) →
        d.format.Within (c.usual d).format) := by
  have key : ∀ c ∈ carriers l t, ∀ d ∈ carriers r t, (d.format.signed = false → t.format.Within d.format) ∧
        ((d.format.signed = true → (c.usual d).format.signed = true) →
          d.format.Within (c.usual d).format) := by
    cases t <;> cases l <;> cases r <;> decide
  exact key c hc d hd

section Operands

variable {t : IntType} {l r : Bool} {a b : Int} {x y : CInt}

/-- **The usual arithmetic conversions change no operand.** -/
theorem usual_fits (h : Anchored t l r) (hx : Represents l (.integer t) a x)
    (hy : Represents r (.integer t) b y) :
    (x.type.usual y.type).format.Fits a ∧ (x.type.usual y.type).format.Fits b := by
  cases ht : t.format.signed with
  | true =>
    obtain ⟨hwx, hwy⟩ := within_usual_of_signed ht hx.carries hy.carries
    rw [← hx.value, ← hy.value]
    exact ⟨x.fits.within hwx, y.fits.within hwy⟩
  | false =>
    have hw := within_of_unsigned ht (usual_mem_carriers h hx.carries hy.carries)
    exact ⟨hx.fits.within hw, hy.fits.within hw⟩

theorem eval_eq (h : Anchored t l r) (hx : Represents l (.integer t) a x)
    (hy : Represents r (.integer t) b y) (op : COperator) (hop : ¬ (op = .shl ∨ op = .shr)) :
    op.eval x y = op.within (x.type.usual y.type) a b := by
  obtain ⟨ha, hb⟩ := usual_fits h hx hy
  rw [COperator.eval, if_neg hop]
  simp only [hx.value, hy.value, CType.convert_of_fits ha, CType.convert_of_fits hb]

theorem represents_usual (h : Anchored t l r) (hx : Represents l (.integer t) a x)
    (hy : Represents r (.integer t) b y) {z : Int} (hz : t.format.Fits z)
    (hc : (x.type.usual y.type).format.Fits z) :
    Represents false (.integer t) z (CInt.ofInt (x.type.usual y.type) z) :=
  ⟨CInt.ofInt_value hc, usual_mem_carriers h hx.carries hy.carries, hz⟩

end Operands

/-! ## One operator -/

/-- The emitted operator, on the values of its operands. -/
def emittedBinary (op : BinaryOp) (valueType : ExprType) (x y : CInt) : Outcome CInt :=
  match checkedBinaryHelper op valueType with
  | some helper => helper.call x y
  | none =>
    if op = .bitAndNot then COperator.bitAnd.eval x y.complement
    else (cBinaryOp op).eval x y

theorem evalNative_binary (ρ : Store) (left right : Expr) (op : BinaryOp) (valueType : ExprType) :
    evalNative ρ (.binary left op right valueType) = (do
      let x ← evalNative ρ left
      let y ← evalNative ρ right
      emittedBinary op valueType x y) := by
  unfold evalNative emittedBinary
  rw [emitExpr]
  cases checkedBinaryHelper op valueType with
  | some helper => rfl
  | none =>
    simp only
    split_ifs with hop
    · simp only [evalC]
      cases evalC ρ (emitExpr left) with
      | value x =>
        cases evalC ρ (emitExpr right) with
        | value y => rfl
        | _ => rfl
      | _ => rfl
    · rfl

/-- The operators that are left to C and never stop the program. -/
def wrapsInC (op : BinaryOp) (t : IntType) : Bool :=
  !t.format.signed && (op == .add || op == .subtract || op == .multiply)

theorem checkedBinaryHelper_isSome {op : BinaryOp} {t : IntType} :
    (checkedBinaryHelper op (.integer t)).isSome =
      ((op.isArithmetic && !wrapsInC op t) || op.isShift) := by
  cases op <;> cases t <;> rfl

theorem checkedBinaryHelper_types {op : BinaryOp} {t : IntType} {helper : Helper}
    (h : checkedBinaryHelper op (.integer t) = some helper) :
    helper.leftType = cType t ∧ helper.resultType = cType t ∧
      helper.rightType = if op.isShift then .unsignedLong else cType t := by
  cases op <;> cases t <;> cases h <;> exact ⟨rfl, rfl, rfl⟩

theorem checked_fits {op : BinaryOp} {f : IntFormat} {a b r : Int} (ha : f.Fits a)
    (hb : op.isShift = false → f.Fits b) (hop : op.isComparison = false) (h : op.checked f a b = some r) : f.Fits r := by
  have hgiven : ∀ {p : Prop} [Decidable p] {x : Int}, given p x = some r → (p → f.Fits x) →
      f.Fits r := fun {p} _ {x} hx hfits => by
    unfold given at hx
    split_ifs at hx with hp
    cases hx
    exact hfits hp
  cases op with
  | add | subtract | multiply => exact hgiven h id
  | divide => exact hgiven h fun hdiv => IntFormat.fits_tdiv ha (hb rfl) hdiv.2
  | remainder => exact hgiven h fun _ => IntFormat.fits_tmod ha
  | shiftLeft => exact hgiven h fun _ => f.fits_wrap _
  | shiftRight => exact hgiven h fun _ => IntFormat.fits_shiftRight ha _
  | bitOr => cases h; exact IntFormat.fits_lor ha (hb rfl)
  | bitXor => cases h; exact IntFormat.fits_xor ha (hb rfl)
  | bitAnd => cases h; exact IntFormat.fits_land ha (hb rfl)
  | bitAndNot => cases h; exact IntFormat.fits_ldiff ha (hb rfl)
  | _ => cases hop

/-- A call of a helper, on operands that the conversion to its parameters brings to `a` and `b`. -/
theorem helper_call_yields {op : BinaryOp} {t : IntType} {helper : Helper}
    (hhelper : checkedBinaryHelper op (.integer t) = some helper)
    (hop : op.isComparison = false) {a b : Int} {x y : CInt} (hx : x.value = a)
    (hy : (if op.isShift then CType.unsignedLong else cType t).convert y.value = b)
    (ha : t.format.Fits a) (hb : if op.isShift then 0 ≤ b else t.format.Fits b) :
    NativeYields false (.integer t) (helper.call x y) (op.checked t.format a b) := by
  obtain ⟨hleft, hresult, hright⟩ := checkedBinaryHelper_types hhelper
  have hconvertLeft : helper.leftType.convert x.value = a := by
    rw [hx, hleft]
    exact CType.convert_of_fits (by simpa using ha)
  have hbody := checkedBinaryHelper_yields hhelper ha hb
  rw [Helper.call, hconvertLeft, hright, hy, hresult]
  cases hchecked : op.checked t.format a b with
  | none =>
    rw [hchecked] at hbody
    obtain ⟨message, hmessage⟩ := hbody
    exact ⟨message, by rw [hmessage]; rfl⟩
  | some r =>
    rw [hchecked] at hbody
    have hfits : t.format.Fits r := checked_fits ha
      (fun hshift => by simpa [hshift] using hb) hop hchecked
    refine ⟨CInt.ofInt (cType t) r, by rw [hbody]; rfl, ?_, cType_mem_carriers t, hfits⟩
    exact CInt.ofInt_value (by simpa using hfits)

/-- Shifts: a negative amount becomes a huge one, which is no more valid. -/
theorem shift_yields {op : BinaryOp} (hop : op.isShift = true) {t s : IntType} {a b : Int}
    {x y : CInt} (hx : x.value = a) (hy : y.value = b) (ha : t.format.Fits a)
    (hb : s.format.Fits b) :
    NativeYields false (.integer t) (emittedBinary op (.integer t) x y)
      (op.checked t.format a b) := by
  have hcomparison : op.isComparison = false := by
    cases op <;> first
      | rfl
      | cases hop
  obtain ⟨helper, hhelper⟩ : ∃ helper, checkedBinaryHelper op (.integer t) = some helper := by
    rw [← Option.isSome_iff_exists, checkedBinaryHelper_isSome, hop, Bool.or_true]
  have hconverted : 0 ≤ CType.unsignedLong.convert b :=
    (CType.unsignedLong.format.fits_wrap b).1
  have hamount : ShiftAmount t.format (CType.unsignedLong.convert b) ↔ ShiftAmount t.format b := by
    by_cases hnonneg : 0 ≤ b
    · have hfits : CType.unsignedLong.format.Fits b := by
        rw [IntFormat.fits_unsigned rfl]
        refine ⟨hnonneg, hb.2.trans_lt ?_⟩
        cases s <;> decide
      rw [CType.convert_of_fits hfits]
    · have hlow : -(2 ^ 63) ≤ b := le_trans (by cases s <;> decide) hb.1
      have hwrap : CType.unsignedLong.convert b = b + 2 ^ 64 := by
        show b % 2 ^ 64 = _
        rw [← Int.add_emod_right, Int.emod_eq_of_lt (by omega) (by omega)]
      have hbits : (t.format.bits : Int) ≤ 64 := by cases t <;> decide
      unfold ShiftAmount
      omega
  have hsame : op.checked t.format a (CType.unsignedLong.convert b) = op.checked t.format a b := by
    by_cases hvalid : ShiftAmount t.format b
    · have hfits : CType.unsignedLong.format.Fits b := by
        rw [IntFormat.fits_unsigned rfl]
        refine ⟨hvalid.1, hb.2.trans_lt ?_⟩
        cases s <;> decide
      rw [CType.convert_of_fits hfits]
    · have hinvalid := mt hamount.mp hvalid
      cases op with
      | shiftLeft => simp [BinaryOp.checked, given, Shifts, hvalid, hinvalid]
      | shiftRight => simp [BinaryOp.checked, given, hvalid, hinvalid]
      | _ => cases hop
  have hcall := helper_call_yields hhelper hcomparison hx (y := y)
    (b := CType.unsignedLong.convert b) (by rw [if_pos hop, hy]) ha (by rwa [if_pos hop])
  rw [hsame] at hcall
  simpa only [emittedBinary, hhelper] using hcall

theorem arithmetic_yields {op : BinaryOp} {t : IntType} (hop : op.isArithmetic = true)
    (hwraps : wrapsInC op t = false) {a b : Int} {x y : CInt} (hx : x.value = a) (hy : y.value = b)
    (ha : t.format.Fits a) (hb : t.format.Fits b) :
    NativeYields false (.integer t) (emittedBinary op (.integer t) x y)
      (op.checked t.format a b) := by
  obtain ⟨helper, hhelper⟩ : ∃ helper, checkedBinaryHelper op (.integer t) = some helper := by
    rw [← Option.isSome_iff_exists, checkedBinaryHelper_isSome, hop, hwraps]
    rfl
  have hkind : op.isComparison = false ∧ op.isShift = false := by
    cases op <;> first
      | exact ⟨rfl, rfl⟩
      | cases hop
  have hcall := helper_call_yields hhelper hkind.1 hx (y := y) (b := b)
    (by rw [if_neg (by simp [hkind.2]), hy]; exact CType.convert_of_fits (by simpa using hb)) ha
    (by rwa [if_neg (by simp [hkind.2])])
  simpa only [emittedBinary, hhelper] using hcall

/-! ### Operators of C -/

section Operators

variable {t : IntType} {l r : Bool} {a b : Int} {x y : CInt}

/-- Unsigned arithmetic by an operator of C computes a result that fits. -/
theorem wrapping_yields (h : Anchored t l r) (hx : Represents l (.integer t) a x)
    (hy : Represents r (.integer t) b y) {op : BinaryOp} (hop : wrapsInC op t = true)
    {z : Int} (hz : op.checked t.format a b = some z) :
    NativeYields false (.integer t) (emittedBinary op (.integer t) x y) (some z) := by
  simp only [wrapsInC, Bool.and_eq_true, Bool.not_eq_true', Bool.or_eq_true, beq_iff_eq] at hop
  obtain ⟨ht, hop⟩ := hop
  have hw := within_of_unsigned ht (usual_mem_carriers h hx.carries hy.carries)
  have hhelper : checkedBinaryHelper op (.integer t) = none := by
    rw [← Option.not_isSome_iff_eq_none, checkedBinaryHelper_isSome]
    rcases hop with (rfl | rfl) | rfl <;> simp [wrapsInC, ht, BinaryOp.isShift]
  have hfits : t.format.Fits z := checked_fits hx.fits (fun _ => hy.fits)
    (by rcases hop with (rfl | rfl) | rfl <;> rfl) hz
  refine ⟨CInt.ofInt (x.type.usual y.type) z, ?_, represents_usual h hx hy hfits (hfits.within hw)⟩
  have hgiven : ∀ {w : Int}, given (t.format.Fits w) w = some z → w = z := fun {w} hw' => by
    unfold given at hw'
    split_ifs at hw'
    exact Option.some.inj hw'
  simp only [emittedBinary, hhelper]
  rcases hop with (rfl | rfl) | rfl
  · rw [if_neg (by decide), cBinaryOp, eval_eq h hx hy _ (by decide), COperator.within, CType.add,
      hgiven hz, CType.compute_of_fits (hfits.within hw)]
    rfl
  · rw [if_neg (by decide), cBinaryOp, eval_eq h hx hy _ (by decide), COperator.within, CType.sub,
      hgiven hz, CType.compute_of_fits (hfits.within hw)]
    rfl
  · rw [if_neg (by decide), cBinaryOp, eval_eq h hx hy _ (by decide), COperator.within, CType.mul,
      hgiven hz, CType.compute_of_fits (hfits.within hw)]
    rfl

theorem wrapping_not_exits {op : BinaryOp} (hop : wrapsInC op t = true) :
    ¬ (emittedBinary op (.integer t) x y).Exits := by
  simp only [wrapsInC, Bool.and_eq_true, Bool.not_eq_true', Bool.or_eq_true, beq_iff_eq] at hop
  obtain ⟨ht, hop⟩ := hop
  have hhelper : checkedBinaryHelper op (.integer t) = none := by
    rw [← Option.not_isSome_iff_eq_none, checkedBinaryHelper_isSome]
    rcases hop with (rfl | rfl) | rfl <;> simp [wrapsInC, ht, BinaryOp.isShift]
  simp only [emittedBinary, hhelper]
  rcases hop with (rfl | rfl) | rfl
  all_goals
    rw [if_neg (by decide)]
    exact Outcome.not_exits_map (CType.compute_not_exits _ _)

/-- Masking with a complement, which is taken in the type of the right operand before the two are
brought to one type. -/
theorem land_converted_complement (h : Anchored t l r) (hx : Represents l (.integer t) a x)
    (hy : Represents r (.integer t) b y) :
    Int.land a ((x.type.usual y.type).convert (y.type.format.complement b)) = Int.ldiff a b := by
  obtain ⟨ha, hb⟩ := usual_fits h hx hy
  obtain ⟨hroom, hwithin⟩ := within_usual hx.carries hy.carries
  have hby : y.type.format.Fits b := hy.value ▸ y.fits
  have hcomplement : y.type.format.Fits (y.type.format.complement b) := y.type.format.fits_wrap _
  cases hd : y.type.format.signed with
  | false =>
    rw [CType.convert_of_fits (hcomplement.within (hwithin (by simp [hd])))]
    exact IntFormat.land_complement (hx.fits.within (hroom hd)) hby
  | true =>
    rw [IntFormat.complement_signed hd hby]
    cases hu : (x.type.usual y.type).format.signed with
    | false =>
      -- the conversion wraps the complement, which makes it the complement of the common type
      exact IntFormat.land_complement ha hb
    | true =>
      have hfits : y.type.format.Fits (Int.lnot b) := by
        rwa [IntFormat.complement_signed hd hby] at hcomplement
      rw [CType.convert_of_fits (hfits.within (hwithin fun _ => hu))]
      exact IntFormat.land_lnot a b

theorem bitwise_yields (h : Anchored t l r) (hx : Represents l (.integer t) a x)
    (hy : Represents r (.integer t) b y) {op : BinaryOp} (hop : op.isBitwise = true) :
    NativeYields false (.integer t) (emittedBinary op (.integer t) x y)
      (op.checked t.format a b) := by
  obtain ⟨ha, hb⟩ := usual_fits h hx hy
  cases op with
  | bitOr =>
    refine ⟨_, ?_, represents_usual h hx hy (IntFormat.fits_lor hx.fits hy.fits) (IntFormat.fits_lor ha hb)⟩
    exact eval_eq h hx hy .bitOr (by decide)
  | bitXor =>
    refine ⟨_, ?_, represents_usual h hx hy (IntFormat.fits_xor hx.fits hy.fits) (IntFormat.fits_xor ha hb)⟩
    exact eval_eq h hx hy .bitXor (by decide)
  | bitAnd =>
    refine ⟨_, ?_, represents_usual h hx hy (IntFormat.fits_land hx.fits hy.fits)
      (IntFormat.fits_land ha hb)⟩
    exact eval_eq h hx hy .bitAnd (by decide)
  | bitAndNot =>
    refine ⟨_, ?_, represents_usual h hx hy (IntFormat.fits_ldiff hx.fits hy.fits)
      (IntFormat.fits_ldiff ha hb)⟩
    rw [← land_converted_complement h hx hy]
    show COperator.bitAnd.eval x y.complement = _
    rw [COperator.eval, if_neg (by decide)]
    simp only [hx.value, CType.convert_of_fits ha, CInt.complement_type, CInt.complement_value,
      hy.value, COperator.within]
  | _ => cases hop

theorem comparison_yields (h : Anchored t l r) (hx : Represents l (.integer t) a x)
    (hy : Represents r (.integer t) b y) {op : BinaryOp} (hop : op.isComparison = true)
    (f : IntFormat) :
    NativeYields false .bool (emittedBinary op .bool x y) (op.checked f a b) := by
  have hbool : ∀ (p : Prop) [Decidable p] (q : Bool), (q = true ↔ p) →
      Represents false .bool (truth p) (CInt.ofBool q) := fun p _ q hq => by
    refine ⟨?_, rfl, ?_⟩
    · rw [CInt.ofBool_value, truth]
      simp only [hq]
    · unfold truth
      split_ifs <;> decide
  cases op with
  | equal =>
    exact ⟨_, eval_eq h hx hy .equal (by decide), hbool (a = b) (a == b) (by simp)⟩
  | notEqual =>
    exact ⟨_, eval_eq h hx hy .notEqual (by decide), hbool (a ≠ b) (a != b) (by simp)⟩
  | less => exact ⟨_, eval_eq h hx hy .less (by decide), hbool (a < b) _ (by simp)⟩
  | lessEqual =>
    exact ⟨_, eval_eq h hx hy .lessEqual (by decide), hbool (a ≤ b) _ (by simp)⟩
  | greater => exact ⟨_, eval_eq h hx hy .greater (by decide), hbool (b < a) _ (by simp)⟩
  | greaterEqual =>
    exact ⟨_, eval_eq h hx hy .greaterEqual (by decide), hbool (b ≤ a) _ (by simp)⟩
  | _ => cases hop

theorem equality_yields (hx : Represents l .bool a x) (hy : Represents r .bool b y)
    {op : BinaryOp} (hop : op.isEquality = true) (f : IntFormat) :
    NativeYields false .bool (emittedBinary op .bool x y) (op.checked f a b) := by
  -- truth values are integers of type `int` with the values zero and one
  have hint : ∀ {k : Bool} {c : Int} {z : CInt}, Represents k .bool c z →
      Represents k (.integer .i32) c z := fun {k c z} hz => by
    refine ⟨hz.value, ?_, hz.fits.within (by decide)⟩
    have : z.type = .int := hz.carries
    simp [Carries, carriers, this]
  refine comparison_yields (t := .i32) (Or.inl rfl) (hint hx) (hint hy) ?_ f
  cases op <;> first
    | rfl
    | cases hop

end Operators

/-! ## Leaves and casts -/

theorem emitIntLiteral_yields (ρ : Store) {value : I64} {t : IntType}
    (h : LiteralFits t value) :
    NativeYields true (.integer t) (evalNative ρ (.intLiteral value)) (some value.1) := by
  obtain ⟨hfits, hsmall⟩ := h
  have hconstant : ∀ n, n < 2 ^ 63 → ∃ c, CInt.constant n = .value c ∧ c.value = n ∧
      (c.type = .int ∨ c.type = .long) := fun n hn => by
    have hlong : CType.long.format.Fits (n : Int) := by
      rw [IntFormat.fits_signed rfl]
      simp [CType.format]
      omega
    unfold CInt.constant CType.ofConstant
    split_ifs with hint
    · exact ⟨_, rfl, CInt.ofInt_value hint, Or.inl rfl⟩
    · exact ⟨_, rfl, CInt.ofInt_value hlong, Or.inr rfl⟩
  have hcarries : ∀ c, c = .int ∨ c = .long → Carries true (.integer t) c := by
    rintro c (rfl | rfl) <;> cases t <;> simp [Carries, carriers]
  obtain ⟨c, hc, hvalue, htype⟩ := hconstant value.1.natAbs hsmall
  unfold evalNative
  rw [emitExpr, emitIntLiteral]
  split_ifs with hneg
  · refine ⟨CInt.ofInt c.type value.1, ?_, ?_, hcarries _ htype, hfits⟩
    · show (do (← CInt.constant value.1.natAbs).neg) = _
      rw [hc]
      show CInt.ofInt c.type <$> c.type.neg c.value = _
      have hnegated : -c.value = value.1 := by
        rw [hvalue]
        omega
      rw [CType.neg, hnegated, CType.compute_of_fits]
      · rfl
      · have := c.fits
        rcases htype with htype | htype <;> rw [htype] at this ⊢ <;>
          rw [IntFormat.fits_signed rfl] at this ⊢ <;> omega
    · refine CInt.ofInt_value ?_
      have := c.fits
      rcases htype with htype | htype <;> rw [htype] at this ⊢ <;>
        rw [IntFormat.fits_signed rfl] at this ⊢ <;> omega
  · refine ⟨c, hc, ?_, hcarries _ htype, hfits⟩
    rw [hvalue]
    omega

theorem variable_yields (ρ : Store) {name : String} {v : IntValue} (h : ρ name = some v) :
    NativeYields false (.integer v.type) (evalNative ρ (.variable name)) (some v.value) := by
  refine ⟨CInt.ofInt (cType v.type) v.value, ?_, ?_, cType_mem_carriers _, v.fits⟩
  · show evalC ρ (.variable name) = _
    simp only [evalC, h]
  · exact CInt.ofInt_value (by simpa using v.fits)

theorem cast_yields {target : IntType} {a : Int} {x : CInt} (hx : x.value = a)
    (hfits : target.format.Fits a) :
    NativeYields false (.integer target) (.value (CInt.ofInt (cType target) x.value)) (some a) := by
  refine ⟨_, rfl, ?_, cType_mem_carriers _, hfits⟩
  rw [hx]
  exact CInt.ofInt_value (by simpa using hfits)

end Nomo.Arith
