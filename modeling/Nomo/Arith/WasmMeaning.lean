import Nomo.Arith.Wasm

/-!
# What the interpreter computes

The interpreter checks each operation too, but in the type it has brought the operands to, and a
shift to the left is checked for its amount only.  `BinaryOp.interpreted` says so of one operator,
and `opAgrees_iff` compares that with the checked operation of the declared type.
-/

namespace Nomo.Arith

open Nomo.Lib

/-- The operation as the interpreter carries it out in a format. -/
def BinaryOp.interpreted (op : BinaryOp) (w : IntFormat) (a b : Int) : Option Int :=
  match op with
  | .equal | .notEqual => op.checked w a b
  | .shiftLeft => given (w.Fits a ∧ w.Fits b ∧ ShiftAmount w b) (w.wrap (a * 2 ^ b.toNat))
  | _ => if w.Fits a ∧ w.Fits b then op.checked w a b else none

/-- Of operands that fit, only a shift to the left is carried out otherwise than the compiler would
have it. -/
theorem interpreted_of_fits {op : BinaryOp} {w : IntFormat} {a b : Int} (hop : op ≠ .shiftLeft)
    (ha : w.Fits a) (hb : w.Fits b) : op.interpreted w a b = op.checked w a b := by
  cases op <;> first
    | exact if_pos ⟨ha, hb⟩
    | rfl
    | exact absurd rfl hop

/-- An evaluation gives the value there is, of a type, and an error where there is none. -/
def WasmYields (T : ExprType) (x : Except String Value) : Option Int → Prop
  | some r => ∃ v, x = .ok v ∧ v.toInt = r ∧ v.type = T
  | none => ∃ message, x = .error message

/-! ## Bringing operands to one type -/

theorem coerce_of_fits (v : IntValue) {t : IntType} (h : t.format.Fits v.value) :
    v.coerce t = .ok ⟨t, v.value, h⟩ :=
  dif_pos h

theorem coerce_of_not_fits (v : IntValue) {t : IntType} (h : ¬ t.format.Fits v.value) :
    ∃ message, v.coerce t = .error message :=
  ⟨_, dif_neg h⟩

theorem coerce_self (v : IntValue) : v.coerce v.type = .ok v :=
  coerce_of_fits v v.fits

theorem numericPair_integer (a b : IntValue) :
    numericPair (.integer a) (.integer b) = (do
      let x ← a.coerce (pairType a.type b.type)
      let y ← b.coerce (pairType a.type b.type)
      return (.integer x, .integer y)) := by
  have hboth : ∀ t,
      (do return (← (Value.integer a).coerce (.integer t), ← (Value.integer b).coerce (.integer t)) :
        Except String (Value × Value)) = (do
      let x ← a.coerce t
      let y ← b.coerce t
      return (.integer x, .integer y)) := fun t => by
    simp only [Value.coerce]
    cases a.coerce t with
    | error message => rfl
    | ok x =>
      cases b.coerce t with
      | error message | ok y => rfl
  unfold numericPair pairType
  simp only [Value.type, ExprType.integer.injEq]
  split_ifs with h1 h2 h3 h4
  · exact hboth .u64
  · exact hboth .u32
  · exact hboth .i32
  · have ha := coerce_self a
    have hb := coerce_self b
    rw [h4.1] at ha
    rw [h4.2] at hb
    rw [ha, hb]
    rfl
  · exfalso
    obtain ⟨s, _, _⟩ := a
    obtain ⟨t, _, _⟩ := b
    cases s <;> cases t <;> simp_all

/-! ## One operator -/

section Integers

variable {t : IntType}

/-- An operation gives the integer there is, and an error where there is none. -/
def Computes (x : Except String (Bounded t)) : Option Int → Prop
  | some r => ∃ h, x = .ok ⟨r, h⟩
  | none => ∃ message, x = .error message

theorem computes_given {p : Prop} [Decidable p] {x : Option (Bounded t)} {r : Int}
    (hvalue : p → ∃ h, x = some ⟨r, h⟩) (hnone : ¬ p → x = none) :
    Computes (orOverflow x) (given p r) := by
  unfold given
  split_ifs with hp
  · obtain ⟨h, hx⟩ := hvalue hp
    exact ⟨h, by rw [hx]; rfl⟩
  · exact ⟨_, by rw [hnone hp]; rfl⟩

theorem computes_checked (x : Int) :
    Computes (orOverflow (Bounded.checked t x)) (given (t.format.Fits x) x) :=
  computes_given (fun h => ⟨h, dif_pos h⟩) (fun h => dif_neg h)

theorem divides_iff {f : IntFormat} {x y : Int} (hx : f.Fits x) (hy : f.Fits y) :
    Divides f x y ↔ y ≠ 0 ∧ f.Fits (x.tdiv y) := by
  constructor
  · rintro ⟨hzero, hleast⟩
    exact ⟨hzero, IntFormat.fits_tdiv hx hy hleast⟩
  · rintro ⟨hzero, hfits⟩
    exact ⟨hzero, fun hleast => IntFormat.not_fits_tdiv hleast hfits⟩

variable (l r : Bounded t)

theorem checkedDiv_computes :
    Computes (orOverflow (l.checkedDiv r)) (given (Divides t.format l.1 r.1) (l.1.tdiv r.1)) := by
  have hdivides := divides_iff l.2 r.2
  refine computes_given (fun h => ?_) (fun h => ?_)
  · obtain ⟨hzero, hfits⟩ := hdivides.mp h
    exact ⟨hfits, by rw [Bounded.checkedDiv, if_neg hzero, Bounded.checked, dif_pos hfits]⟩
  · unfold Bounded.checkedDiv
    split_ifs with hzero
    · rfl
    · exact dif_neg fun hfits => h (hdivides.mpr ⟨hzero, hfits⟩)

theorem checkedRem_computes :
    Computes (orOverflow (l.checkedRem r)) (given (Divides t.format l.1 r.1) (l.1.tmod r.1)) := by
  have hdivides := divides_iff l.2 r.2
  refine computes_given (fun h => ?_) (fun h => ?_)
  · obtain ⟨hzero, hfits⟩ := hdivides.mp h
    exact ⟨IntFormat.fits_tmod l.2, if_neg (by simp [hzero, hfits])⟩
  · refine if_pos ?_
    by_contra hnot
    push Not at hnot
    exact h (hdivides.mpr hnot)

/-- A shift amount passes the conversion to `u32` and the test of the shift where it is a number of
bits. -/
theorem shift_computes (shifted : Nat → Option (Bounded t)) {x : Int}
    (hvalid : ShiftAmount t.format r.1 → ∃ h, shifted r.1.toNat = some ⟨x, h⟩)
    (hlong : t.format.bits ≤ r.1.toNat → shifted r.1.toNat = none) :
    Computes (do orOverflow (← shifted <$> r.shift)) (given (ShiftAmount t.format r.1) x) := by
  have hu32 : ShiftAmount t.format r.1 → IntType.u32.format.Fits r.1 := fun h => by
    rw [IntFormat.fits_unsigned rfl]
    have hbits : (t.format.bits : Int) ≤ 64 := by cases t <;> decide
    obtain ⟨h0, h1⟩ := h
    constructor
    · exact h0
    · show r.1 < 2 ^ 32
      omega
  unfold Bounded.shift
  by_cases hfits : IntType.u32.format.Fits r.1
  · rw [if_pos hfits]
    refine computes_given hvalid (fun h => hlong ?_)
    have h0 : 0 ≤ r.1 := ((IntFormat.fits_unsigned rfl).mp hfits).1
    unfold ShiftAmount at h
    omega
  · rw [if_neg hfits, given, if_neg (fun h => hfits (hu32 h))]
    exact ⟨_, rfl⟩

/-- **An operation of two integers of one type.** -/
theorem integerOperation_computes {op : BinaryOp} (hop : op.isComparison = false) :
    Computes (integerOperation l op r) (op.interpreted t.format l.1 r.1) := by
  have hl := l.2
  have hr := r.2
  cases op with
  | add | subtract | multiply =>
    rw [interpreted_of_fits (by decide) hl hr]
    exact computes_checked _
  | divide =>
    rw [interpreted_of_fits (by decide) hl hr]
    exact checkedDiv_computes l r
  | remainder =>
    rw [interpreted_of_fits (by decide) hl hr]
    exact checkedRem_computes l r
  | shiftLeft =>
    have hamount : (t.format.Fits l.1 ∧ t.format.Fits r.1 ∧ ShiftAmount t.format r.1) ↔
        ShiftAmount t.format r.1 := by simp [hl, hr]
    have h := shift_computes r l.checkedShl
      (x := t.format.wrap (l.1 * 2 ^ r.1.toNat))
      (fun h => ⟨t.format.fits_wrap _, if_pos (by have := h.1; have := h.2; omega)⟩)
      (fun h => if_neg (by omega))
    unfold integerOperation integerResult
    simpa only [BinaryOp.interpreted, given, hamount] using h
  | shiftRight =>
    rw [interpreted_of_fits (by decide) hl hr]
    exact shift_computes r l.checkedShr
      (fun h => ⟨IntFormat.fits_shiftRight hl _, if_pos (by have := h.1; have := h.2; omega)⟩)
      (fun h => if_neg (by omega))
  | bitOr =>
    rw [interpreted_of_fits (by decide) hl hr]
    exact ⟨IntFormat.fits_lor hl hr, rfl⟩
  | bitXor =>
    rw [interpreted_of_fits (by decide) hl hr]
    exact ⟨IntFormat.fits_xor hl hr, rfl⟩
  | bitAnd =>
    rw [interpreted_of_fits (by decide) hl hr]
    exact ⟨IntFormat.fits_land hl hr, rfl⟩
  | bitAndNot =>
    rw [interpreted_of_fits (by decide) hl hr]
    refine ⟨IntFormat.fits_ldiff hl hr, ?_⟩
    show Except.ok _ = Except.ok _
    congr 2
    exact IntFormat.land_complement hl hr
  | _ => cases hop

end Integers

/-- Both integers fit the common type and are brought to it, or one does not and there is an error. -/
theorem numericPair_cases (a b : IntValue) :
    (∃ (ha : (pairType a.type b.type).format.Fits a.value)
      (hb : (pairType a.type b.type).format.Fits b.value),
      numericPair (.integer a) (.integer b)
        = .ok (.integer ⟨_, a.value, ha⟩, .integer ⟨_, b.value, hb⟩)) ∨
    ¬ ((pairType a.type b.type).format.Fits a.value ∧
      (pairType a.type b.type).format.Fits b.value) ∧
      ∃ message, numericPair (.integer a) (.integer b) = .error message := by
  rw [numericPair_integer]
  by_cases ha : (pairType a.type b.type).format.Fits a.value
  · rw [coerce_of_fits a ha]
    by_cases hb : (pairType a.type b.type).format.Fits b.value
    · rw [coerce_of_fits b hb]
      exact .inl ⟨ha, hb, rfl⟩
    · obtain ⟨message, hmessage⟩ := coerce_of_not_fits b hb
      rw [hmessage]
      exact .inr ⟨fun h => hb h.2, message, rfl⟩
  · obtain ⟨message, hmessage⟩ := coerce_of_not_fits a ha
    rw [hmessage]
    exact .inr ⟨fun h => ha h.1, message, rfl⟩

/-- **An operator other than a comparison, on integers of any two types.** -/
theorem numericOperation_yields (a b : IntValue) {op : BinaryOp} (hop : op.isComparison = false) :
    WasmYields (.integer (pairType a.type b.type))
      (numericOperation (.integer a) op (.integer b))
      (op.interpreted (pairType a.type b.type).format a.value b.value) := by
  have hmissing : ¬ ((pairType a.type b.type).format.Fits a.value ∧
      (pairType a.type b.type).format.Fits b.value) →
      op.interpreted (pairType a.type b.type).format a.value b.value = none := fun h => by
    cases op <;> first
      | exact if_neg h
      | exact if_neg fun h' => h ⟨h'.1, h'.2.1⟩
      | cases hop
  unfold numericOperation
  rcases numericPair_cases a b with ⟨ha, hb, hpair⟩ | ⟨hnot, message, hpair⟩
  · rw [hpair]
    have h := integerOperation_computes (⟨a.value, ha⟩ : Bounded _) ⟨b.value, hb⟩ hop
    show WasmYields _ (dite _ _ _) _
    rw [dif_pos rfl]
    simp only at h
    revert h
    cases op.interpreted (pairType a.type b.type).format a.value b.value with
    | none =>
      rintro ⟨message, h⟩
      rw [h]
      exact ⟨message, rfl⟩
    | some x =>
      rintro ⟨hx, h⟩
      rw [h]
      exact ⟨_, rfl, rfl, rfl⟩
  · rw [hpair, hmissing hnot]
    exact ⟨message, rfl⟩

/-! ## Comparisons -/

theorem truth_eq {p : Prop} [Decidable p] {b : Bool} (h : b = true ↔ p) : truth b = truth p := by
  unfold truth
  simp only [h]

theorem pairType_eq (s t : IntType) : pairType s t = s ∨ pairType s t = t := by
  cases s <;> cases t <;> decide

/-- Two integers are equal as values where they are equal as integers: one of them has the type both
are brought to, so that the other fits it too if they are equal. -/
theorem valuesEqual_integer (a b : IntValue) :
    valuesEqual (.integer a) (.integer b) = decide (a.value = b.value) := by
  have hself := pairType_eq a.type b.type
  have hboth : a.value = b.value → (pairType a.type b.type).format.Fits a.value ∧
      (pairType a.type b.type).format.Fits b.value := fun h => by
    rcases hself with hs | hs <;> rw [hs]
    · exact ⟨a.fits, h ▸ a.fits⟩
    · exact ⟨h ▸ b.fits, b.fits⟩
  have hne : a.value ≠ b.value → Value.integer a ≠ Value.integer b := fun h heq => by
    cases heq
    exact h rfl
  unfold valuesEqual
  rcases numericPair_cases a b with ⟨ha, hb, hpair⟩ | ⟨hnot, message, hpair⟩
  · rw [hpair]
    show decide (Value.integer ⟨_, a.value, ha⟩ = Value.integer ⟨_, b.value, hb⟩) = _
    simp
  · have hdiffer : a.value ≠ b.value := mt hboth hnot
    rw [hpair]
    show decide (Value.integer a = Value.integer b) = _
    simp [hdiffer, hne hdiffer]

theorem valuesEqual_bool (a b : Bool) :
    valuesEqual (.bool a) (.bool b) = decide (truth a = truth b) := by
  cases a <;> cases b <;> rfl

/-- **Equality, of integers of any two types or of truth values.** -/
theorem equality_yields_wasm {x y : Value} {op : BinaryOp} (hop : op.isEquality = true)
    (hxy : valuesEqual x y = decide (x.toInt = y.toInt)) (w : IntFormat) :
    WasmYields .bool (evalBinary x op y) (op.interpreted w x.toInt y.toInt) := by
  cases op with
  | equal | notEqual => exact ⟨_, rfl, truth_eq (by simp [hxy]), rfl⟩
  | _ => cases hop

/-- **An order comparison, on integers of any two types.** -/
theorem order_yields (a b : IntValue) {op : BinaryOp} (hop : op.isComparison = true)
    (hequality : op.isEquality = false) :
    WasmYields .bool (Value.bool <$> compareValues (.integer a) op (.integer b))
      (op.interpreted (pairType a.type b.type).format a.value b.value) := by
  have hinterpreted : op.interpreted (pairType a.type b.type).format a.value b.value =
      if (pairType a.type b.type).format.Fits a.value ∧ (pairType a.type b.type).format.Fits b.value
      then op.checked (pairType a.type b.type).format a.value b.value else none := by
    cases op <;> first
      | rfl
      | exact absurd hop (by decide)
      | exact absurd hequality (by decide)
  rw [hinterpreted]
  unfold compareValues
  rcases numericPair_cases a b with ⟨ha, hb, hpair⟩ | ⟨hnot, message, hpair⟩
  · rw [hpair, if_pos ⟨ha, hb⟩]
    show WasmYields _ (Value.bool <$> ite _ _ _) _
    rw [if_pos rfl]
    cases op with
    | less | lessEqual | greater | greaterEqual => exact ⟨_, rfl, truth_eq (by simp), rfl⟩
    | equal | notEqual => cases hequality
    | _ => cases hop
  · rw [hpair, if_neg hnot]
    exact ⟨message, rfl⟩

/-! ## Against the checked operation -/

theorem given_eq_given {p q : Prop} [Decidable p] [Decidable q] {x y : Int} :
    given p x = given q y ↔ (p ↔ q) ∧ (p → x = y) := by
  unfold given
  by_cases hp : p <;> by_cases hq : q <;> simp [hp, hq]

theorem if_given {p q : Prop} [Decidable p] [Decidable q] {x : Int} :
    (if p then given q x else none) = given (p ∧ q) x := by
  unfold given
  by_cases hp : p <;> by_cases hq : q <;> simp [hp, hq]

theorem if_some {p : Prop} [Decidable p] {x : Int} :
    (if p then some x else none) = some x ↔ p := by
  by_cases hp : p <;> simp [hp]

/-- The operators of C that do not test for overflow have a result that fits. -/
def Wraps (op : BinaryOp) (f : IntFormat) (a b : Int) : Prop :=
  f.signed = false → (op = .add ∨ op = .subtract ∨ op = .multiply) → op.checked f a b ≠ none

/-- **`OpAgrees` says that the interpreter carries out the checked operation of the declared type,
and that it has a result where C does not test for one.** -/
theorem opAgrees_iff {op : BinaryOp} {f w : IntFormat} {a b : Int} :
    OpAgrees op f w a b ↔ op.interpreted w a b = op.checked f a b ∧ Wraps op f a b := by
  have hgiven : ∀ {r : Int}, given (f.Fits r) r ≠ none ↔ f.Fits r := fun {r} => by
    unfold given
    split_ifs with h <;> simp [h]
  cases op with
  | add | subtract | multiply =>
    simp only [OpAgrees, ArithmeticAgrees, BinaryOp.interpreted, BinaryOp.checked, if_given,
      given_eq_given, Wraps, hgiven]
    tauto
  | divide | remainder | shiftRight =>
    simp only [OpAgrees, BinaryOp.interpreted, BinaryOp.checked, if_given, given_eq_given, Wraps,
      reduceCtorEq, or_self, false_implies, implies_true, and_true, and_assoc]
    tauto
  | shiftLeft =>
    simp only [OpAgrees, BinaryOp.interpreted, BinaryOp.checked, given_eq_given, Wraps,
      reduceCtorEq, or_self, false_implies, implies_true, and_true]
    constructor
    all_goals
      rintro ⟨h1, h2⟩
      exact ⟨h1.symm, fun h => (h2 (h1.mpr h)).symm⟩
  | bitOr | bitXor | bitAnd | bitAndNot | less | lessEqual | greater | greaterEqual =>
    simp only [OpAgrees, BinaryOp.interpreted, BinaryOp.checked, if_some, Wraps, reduceCtorEq,
      or_self, false_implies, implies_true, and_true]
  | equal | notEqual => simp [OpAgrees, BinaryOp.interpreted, BinaryOp.checked, Wraps]

end Nomo.Arith
