import Nomo.Arith.Native
import Nomo.Arith.Reference

/-!
# What the helper functions compute

Every helper computes the checked operation of its type: the result where there is one, and an exit
where there is none.  In particular no helper overflows on the way, although each of them tests for
overflow with operations that could.
-/

namespace Nomo.Arith

open Nomo.Lib

/-- An evaluation gives the integer there is, and ends the program where there is none. -/
def Yields (x : Outcome Int) : Option Int → Prop
  | some r => x = .value r
  | none => x.Exits

theorem yields_given {x : Outcome Int} {p : Prop} [Decidable p] {r : Int}
    (hvalue : p → x = .value r) (hexit : ¬ p → x.Exits) : Yields x (given p r) := by
  unfold given
  split_ifs with h
  · exact hvalue h
  · exact hexit h

theorem panicWith_exits {α : Type} (message : String) : (panicWith message : Outcome α).Exits :=
  ⟨message, rfl⟩

/-! ## Signed arithmetic -/

section Signed

variable {t : CType} (ht : t.format.signed = true) {l r : Int}

include ht in
theorem fits_iff : t.format.Fits l ↔ -t.format.maxValue - 1 ≤ l ∧ l ≤ t.format.maxValue := by
  rw [← IntFormat.minValue_eq ht]
  exact Iff.rfl

include ht in
theorem compared {x y : Int} {p : Int → Prop} [DecidablePred p]
    (hx : -t.format.maxValue - 1 ≤ x ∧ x ≤ t.format.maxValue)
    (h : p x ↔ ¬ (-t.format.maxValue - 1 ≤ y ∧ y ≤ t.format.maxValue)) :
    (do return decide (p (← t.compute x))) = Outcome.value (decide (¬ t.format.Fits y)) := by
  rw [CType.compute_of_fits ((fits_iff ht).mpr hx)]
  simp only [Outcome.value_bind, Outcome.pure_eq, fits_iff ht, h]

include ht in
theorem addOverflows_eq (hr : t.format.Fits r) (hl : t.format.Fits l) :
    addOverflows t l r = .value (decide (¬ t.format.Fits (l + r))) := by
  have hmax := t.format.maxValue_nonneg
  have hmin := IntFormat.minValue_eq ht
  rw [fits_iff ht] at hl hr
  unfold addOverflows
  split_ifs with hpos hneg
  · exact compared ht (by omega) (by omega)
  · exact compared ht (by omega) (by omega)
  · have hzero : r = 0 := by omega
    simp only [Outcome.pure_eq, fits_iff ht]
    congr 1
    symm
    rw [decide_eq_false_iff_not, not_not]
    omega

include ht in
theorem subOverflows_eq (hr : t.format.Fits r) (hl : t.format.Fits l) :
    subOverflows t l r = .value (decide (¬ t.format.Fits (l - r))) := by
  have hmax := t.format.maxValue_nonneg
  have hmin := IntFormat.minValue_eq ht
  rw [fits_iff ht] at hl hr
  unfold subOverflows
  split_ifs with hneg hpos
  · exact compared ht (by omega) (by omega)
  · exact compared ht (by omega) (by omega)
  · have hzero : r = 0 := by omega
    simp only [Outcome.pure_eq, fits_iff ht]
    congr 1
    symm
    rw [decide_eq_false_iff_not, not_not]
    omega

/-- A test that tells whether the result does not fit, followed by the operation itself, is the
checked operation. -/
theorem tested_yields {test : Outcome Bool} {operation : Outcome Int} {x : Int} {f : IntFormat}
    {message : String} (htest : test = .value (decide (¬ f.Fits x)))
    (hoperation : f.Fits x → operation = .value x) :
    Yields (do if ← test then panicWith message else operation) (given (f.Fits x) x) := by
  refine yields_given (fun h => ?_) (fun h => ?_)
  · rw [htest]
    simp [h, hoperation h]
  · rw [htest]
    simp [h, panicWith]

include ht in
theorem checkedAdd_yields (hl : t.format.Fits l) (hr : t.format.Fits r) :
    Yields (checkedAdd t l r) (BinaryOp.add.checked t.format l r) :=
  tested_yields (addOverflows_eq ht hr hl) CType.compute_of_fits

include ht in
theorem checkedSub_yields (hl : t.format.Fits l) (hr : t.format.Fits r) :
    Yields (checkedSub t l r) (BinaryOp.subtract.checked t.format l r) :=
  tested_yields (subOverflows_eq ht hr hl) CType.compute_of_fits

theorem tdiv_lt_iff {a b c : Int} (ha : 0 ≤ a) (hc : 0 < c) : a.tdiv c < b ↔ a < b * c := by
  rw [Int.tdiv_eq_ediv_of_nonneg ha]
  exact Int.ediv_lt_iff_lt_mul hc

theorem lt_tdiv_iff {a b c : Int} (ha : a ≤ 0) (hc : 0 < c) : b < a.tdiv c ↔ b * c < a := by
  have h := tdiv_lt_iff (a := -a) (b := -b) (by omega) hc
  rw [Int.neg_tdiv] at h
  rw [Int.neg_mul] at h
  omega

theorem div_eq (hl : t.format.Fits l) (hr : t.format.Fits r) (hdiv : Divides t.format l r) :
    t.div l r = .value (l.tdiv r) := by
  rw [CType.div, if_neg hdiv.1, CType.compute_of_fits (IntFormat.fits_tdiv hl hr hdiv.2)]

include ht in
theorem mulOverflows_eq (hl : t.format.Fits l) (hr : t.format.Fits r) (hl0 : l ≠ 0) (hr0 : r ≠ 0) :
    mulOverflows t l r = .value (decide (¬ t.format.Fits (l * r))) := by
  have hM := t.format.maxValue_nonneg
  have hmin := IntFormat.minValue_eq ht
  have hfitsMax : t.format.Fits t.format.maxValue := ⟨by omega, le_rfl⟩
  have hfitsMin : t.format.Fits t.format.minValue := ⟨le_rfl, by omega⟩
  have hdivides : ∀ {a b : Int}, t.format.Fits b → b ≠ 0 → 0 ≤ a ∨ 0 < b →
      t.format.Fits a → t.div a b = .value (a.tdiv b) := fun {a b} hb hb0 hsign ha =>
    div_eq ha hb ⟨hb0, fun ⟨_, h1, h2⟩ => by omega⟩
  unfold mulOverflows
  split_ifs with hlpos hrpos hrpos
  · rw [hdivides hr hr0 (Or.inl hM) hfitsMax]
    simp only [Outcome.value_bind, Outcome.pure_eq, fits_iff ht, gt_iff_lt, tdiv_lt_iff hM hrpos]
    have : 0 < l * r := Int.mul_pos hlpos hrpos
    congr 2
    exact propext ⟨fun h => by omega, fun h => by omega⟩
  · rw [hdivides hl hl0 (Or.inr hlpos) hfitsMin]
    simp only [Outcome.value_bind, Outcome.pure_eq, fits_iff ht, lt_tdiv_iff t.format.minValue_nonpos hlpos]
    have : l * r < 0 := Int.mul_neg_of_pos_of_neg hlpos (by omega)
    rw [mul_comm r l]
    congr 2
    exact propext ⟨fun h => by omega, fun h => by omega⟩
  · rw [hdivides hr hr0 (Or.inr hrpos) hfitsMin]
    simp only [Outcome.value_bind, Outcome.pure_eq, fits_iff ht, lt_tdiv_iff t.format.minValue_nonpos hrpos]
    have : l * r < 0 := Int.mul_neg_of_neg_of_pos (by omega) hrpos
    congr 2
    exact propext ⟨fun h => by omega, fun h => by omega⟩
  · rw [hdivides hr hr0 (Or.inl hM) hfitsMax]
    have hneg : l < t.format.maxValue.tdiv r ↔ t.format.maxValue < l * r := by
      have h := tdiv_lt_iff (b := -l) hM (show 0 < -r by omega)
      rw [Int.tdiv_neg, Int.neg_mul_neg] at h
      omega
    have : 0 < l * r := Int.mul_pos_of_neg_of_neg (by omega) (by omega)
    simp only [Outcome.value_bind, Outcome.pure_eq, fits_iff ht, hneg]
    congr 2
    exact propext ⟨fun h => by omega, fun h => by omega⟩

include ht in
theorem checkedMul_yields (hl : t.format.Fits l) (hr : t.format.Fits r) :
    Yields (checkedMul t l r) (BinaryOp.multiply.checked t.format l r) := by
  have hmin := IntFormat.minValue_eq ht
  unfold checkedMul
  split_ifs with hzero hleast
  · have h : l * r = 0 := by simpa using hzero
    show Yields _ (given (t.format.Fits (l * r)) (l * r))
    simp [given, h, t.format.fits_zero, Yields]
  · refine yields_given (fun h => ?_) (fun _ => panicWith_exits _)
    exfalso
    obtain ⟨h1, h2⟩ := h
    rcases hleast with ⟨rfl, rfl⟩ | ⟨rfl, rfl⟩ <;> omega
  · push Not at hzero
    exact tested_yields (mulOverflows_eq ht hl hr hzero.1 hzero.2) CType.compute_of_fits

theorem divisionTests_yields {operation : Outcome Int} {x : Int} {f : IntFormat}
    (hf : f.signed = true) (hoperation : Divides f l r → operation = .value x) :
    Yields
      (if r = 0 then panicWith "division by zero"
        else if l = f.minValue ∧ r = -1 then panicWith "signed integer overflow"
        else operation)
      (given (Divides f l r) x) := by
  refine yields_given (fun h => ?_) (fun h => ?_)
  · rw [if_neg h.1, if_neg (fun hleast => h.2 ⟨hf, hleast⟩), hoperation h]
  · split_ifs with hzero hleast
    · exact panicWith_exits _
    · exact panicWith_exits _
    · exact absurd ⟨hzero, fun ⟨_, hleast'⟩ => hleast hleast'⟩ h

include ht in
theorem checkedDiv_yields (hl : t.format.Fits l) (hr : t.format.Fits r) :
    Yields (checkedDiv t l r) (BinaryOp.divide.checked t.format l r) :=
  divisionTests_yields ht (div_eq hl hr)

theorem rem_eq (hl : t.format.Fits l) (hr : t.format.Fits r) (hdiv : Divides t.format l r) :
    t.rem l r = .value (l.tmod r) := by
  have hquotient := IntFormat.fits_tdiv hl hr hdiv.2
  rw [CType.rem, if_neg (by simp [hdiv.1, hquotient]), CType.compute_of_fits (IntFormat.fits_tmod hl)]

include ht in
theorem checkedRem_yields (hl : t.format.Fits l) (hr : t.format.Fits r) :
    Yields (checkedRem t l r) (BinaryOp.remainder.checked t.format l r) :=
  divisionTests_yields ht (rem_eq hl hr)

end Signed

/-! ## Unsigned division -/

section Unsigned

variable {t : CType} (ht : t.format.signed = false) {l r : Int}

theorem zeroTest_yields {operation : Outcome Int} {x : Int} {f : IntFormat}
    (hf : f.signed = false) (hoperation : Divides f l r → operation = .value x) :
    Yields (if r = 0 then panicWith "division by zero" else operation)
      (given (Divides f l r) x) := by
  refine yields_given (fun h => ?_) (fun h => ?_)
  · rw [if_neg h.1, hoperation h]
  · split_ifs with hzero
    · exact panicWith_exits _
    · exact absurd ⟨hzero, fun hleast => by simp [hf] at hleast⟩ h

include ht in
theorem checkedDivUnsigned_yields (hl : t.format.Fits l) (hr : t.format.Fits r) :
    Yields (checkedDivUnsigned t l r) (BinaryOp.divide.checked t.format l r) :=
  zeroTest_yields ht (div_eq hl hr)

include ht in
theorem checkedRemUnsigned_yields (hl : t.format.Fits l) (hr : t.format.Fits r) :
    Yields (checkedRemUnsigned t l r) (BinaryOp.remainder.checked t.format l r) :=
  zeroTest_yields ht (rem_eq hl hr)

theorem amountTest_yields {operation : Outcome Int} {x : Int} {f : IntFormat} (hr : 0 ≤ r)
    (hoperation : ShiftAmount f r → operation = .value x) :
    Yields (if r ≥ f.bits then panicWith "invalid shift amount" else operation)
      (given (ShiftAmount f r) x) := by
  refine yields_given (fun h => ?_) (fun h => ?_)
  · rw [if_neg (by have := h.2; omega), hoperation h]
  · split_ifs with hbits
    · exact panicWith_exits _
    · exact absurd ⟨hr, by omega⟩ h

theorem shr_eq (hr : ShiftAmount t.format r) : t.shr l r = .value (l / 2 ^ r.toNat) := by
  rw [CType.shr, if_neg (by have := hr.1; have := hr.2; omega)]

include ht in
theorem shl_eq (hr : ShiftAmount t.format r) :
    t.shl l r = .value (t.format.wrap (l * 2 ^ r.toNat)) := by
  rw [CType.shl, if_neg (by have := hr.1; have := hr.2; simp [ht]; omega), CType.compute,
    if_neg (by simp [ht])]

include ht in
theorem checkedShlUnsigned_yields (hr : 0 ≤ r) :
    Yields (checkedShlUnsigned t l r) (BinaryOp.shiftLeft.checked t.format l r) := by
  have h := amountTest_yields (f := t.format) hr (shl_eq ht (l := l))
  have hshifts : Shifts t.format l r ↔ ShiftAmount t.format r := by simp [Shifts, ht]
  unfold checkedShlUnsigned
  simpa only [BinaryOp.checked, given, hshifts] using h

theorem checkedShrUnsigned_yields (hr : 0 ≤ r) :
    Yields (checkedShrUnsigned t l r) (BinaryOp.shiftRight.checked t.format l r) :=
  amountTest_yields hr shr_eq

end Unsigned

/-! ## Signed shifts

They are carried out in the unsigned type of the same width. -/

section SignedShifts

variable {t : CType} (ht : t.format.signed = true) {l r : Int}

theorem toUnsigned_signed (t : CType) : t.toUnsigned.format.signed = false := by
  cases t <;> rfl

theorem toUnsigned_bits (t : CType) : t.toUnsigned.format.bits = t.format.bits := by
  cases t <;> rfl

/-- The bounds of a signed type and of its unsigned type, by the place `half` of the sign. -/
structure Halves (t : CType) (half : Int) : Prop where
  signed : ∀ x, t.format.Fits x ↔ -half ≤ x ∧ x < half
  unsigned : ∀ x, t.toUnsigned.format.Fits x ↔ 0 ≤ x ∧ x < 2 * half
  minValue : t.format.minValue = -half
  maxValue : t.format.maxValue = half - 1
  maxUnsigned : t.toUnsigned.format.maxValue = 2 * half - 1
  power : half = 2 ^ (t.format.bits - 1)

include ht in
theorem halves : ∃ half, Halves t half := by
  refine ⟨2 ^ (t.format.bits - 1), ?_⟩
  have hbits := t.format.two_pow_bits
  refine ⟨fun x => IntFormat.fits_signed ht, fun x => ?_, ?_, ?_, ?_, rfl⟩
  · rw [IntFormat.fits_unsigned (toUnsigned_signed t), toUnsigned_bits, hbits]
  · simp [IntFormat.minValue, ht]
  · simp [IntFormat.maxValue, ht]
  · simp [IntFormat.maxValue, toUnsigned_signed, toUnsigned_bits, hbits]

theorem unsigned_amount (hr : ShiftAmount t.format r) : ShiftAmount t.toUnsigned.format r := by
  rwa [ShiftAmount, toUnsigned_bits]

theorem shl_magnitude {half x : Int} (hh : Halves t half) (hr : ShiftAmount t.format r)
    (hx : 0 ≤ x) (hfits : x * 2 ^ r.toNat < 2 * half) :
    t.toUnsigned.shl x r = .value (x * 2 ^ r.toNat) := by
  rw [shl_eq (toUnsigned_signed t) (unsigned_amount hr), IntFormat.wrap_of_fits]
  exact (hh.unsigned _).mpr ⟨by positivity, hfits⟩

theorem shr_magnitude {x : Int} (hr : ShiftAmount t.format r) :
    t.toUnsigned.shr x r = .value (x / 2 ^ r.toNat) :=
  shr_eq (unsigned_amount hr)

theorem negativeLimit_eq {half : Int} (hh : Halves t half) :
    t.toUnsigned.shl 1 (t.format.bits - 1) = .value half := by
  have hpos := t.format.bits_pos
  have hamount : ShiftAmount t.format (t.format.bits - 1) := ⟨by omega, by omega⟩
  have htoNat : ((t.format.bits : Int) - 1).toNat = t.format.bits - 1 := by omega
  have hhalf : (1 : Int) * 2 ^ ((t.format.bits : Int) - 1).toNat = half := by
    rw [htoNat, one_mul, hh.power]
  have hpower : (0 : Int) < half := by
    rw [hh.power]
    positivity
  rw [shl_magnitude hh hamount (by norm_num) (by omega), hhalf]

theorem shl_positive {half : Int} (hh : Halves t half) (hr : ShiftAmount t.format r)
    (hl : t.format.Fits l) (hpos : 0 < l) :
    Yields
      (do
        let limit ← t.toUnsigned.shr (t.toUnsigned.convert t.format.maxValue) r
        if t.toUnsigned.convert l > limit then panicWith "signed integer overflow"
        else return t.convert (← t.toUnsigned.shl (t.toUnsigned.convert l) r))
      (given (t.format.Fits (l * 2 ^ r.toNat)) (l * 2 ^ r.toNat)) := by
  have hpower : (0 : Int) < 2 ^ r.toNat := by positivity
  have hprod : 0 < l * 2 ^ r.toNat := Int.mul_pos hpos hpower
  rw [hh.signed] at hl
  have hconvert : t.toUnsigned.convert l = l :=
    CType.convert_of_fits ((hh.unsigned l).mpr (by omega))
  have hconvertMax : t.toUnsigned.convert t.format.maxValue = half - 1 := by
    rw [hh.maxValue]
    exact CType.convert_of_fits ((hh.unsigned _).mpr (by omega))
  have hlimit : l > (half - 1) / 2 ^ r.toNat ↔ half - 1 < l * 2 ^ r.toNat :=
    Int.ediv_lt_iff_lt_mul hpower
  rw [hconvert, hconvertMax, shr_magnitude hr]
  simp only [Outcome.value_bind, hlimit]
  refine yields_given (fun h => ?_) (fun h => ?_)
  · have hfits := (hh.signed _).mp h
    rw [if_neg (by omega), shl_magnitude hh hr hpos.le (by omega)]
    simp [CType.convert_of_fits h]
  · rw [hh.signed] at h
    rw [if_pos (by omega)]
    exact panicWith_exits _

theorem shl_negative {half : Int} (hh : Halves t half) (hr : ShiftAmount t.format r)
    (hl : t.format.Fits l) (hneg : l < 0) :
    Yields
      (do
        let successor ← t.add l 1
        let negated ← t.neg successor
        let magnitude ← t.toUnsigned.add (t.toUnsigned.convert negated) 1
        let limit ← t.toUnsigned.shr half r
        if magnitude > limit then panicWith "signed integer overflow"
        else
          let shifted ← t.toUnsigned.shl magnitude r
          if shifted = half then return t.format.minValue
          else t.neg (t.convert shifted))
      (given (t.format.Fits (l * 2 ^ r.toNat)) (l * 2 ^ r.toNat)) := by
  have hpower : (0 : Int) < 2 ^ r.toNat := by positivity
  have hprod : l * 2 ^ r.toNat < 0 := Int.mul_neg_of_neg_of_pos hneg hpower
  rw [hh.signed] at hl
  have hsuccessor : t.add l 1 = .value (l + 1) :=
    CType.compute_of_fits ((hh.signed _).mpr (by omega))
  have hnegated : t.neg (l + 1) = .value (-(l + 1)) :=
    CType.compute_of_fits ((hh.signed _).mpr (by omega))
  have hconvert : t.toUnsigned.convert (-(l + 1)) = -(l + 1) :=
    CType.convert_of_fits ((hh.unsigned _).mpr (by omega))
  have hmagnitude : t.toUnsigned.add (-(l + 1)) 1 = .value (-l) := by
    rw [CType.add, CType.compute_of_fits ((hh.unsigned _).mpr (by omega))]
    congr 1
    ring
  have hlimit : -l > half / 2 ^ r.toNat ↔ half < -(l * 2 ^ r.toNat) := by
    rw [← Int.neg_mul]
    exact Int.ediv_lt_iff_lt_mul hpower
  rw [hsuccessor]
  simp only [Outcome.value_bind]
  rw [hnegated]
  simp only [Outcome.value_bind]
  rw [hconvert, hmagnitude]
  simp only [Outcome.value_bind]
  rw [shr_magnitude hr]
  simp only [Outcome.value_bind, hlimit]
  refine yields_given (fun h => ?_) (fun h => ?_)
  · have hfits := (hh.signed _).mp h
    rw [if_neg (by omega), shl_magnitude hh hr (by omega) (by rw [Int.neg_mul]; omega), Int.neg_mul]
    simp only [Outcome.value_bind, Outcome.pure_eq]
    split_ifs with hleast
    · rw [hh.minValue]
      congr 1
      omega
    · have hshifted : t.convert (-(l * 2 ^ r.toNat)) = -(l * 2 ^ r.toNat) :=
        CType.convert_of_fits ((hh.signed _).mpr (by omega))
      rw [hshifted, CType.neg, neg_neg, CType.compute_of_fits h]
  · rw [hh.signed] at h
    rw [if_pos (by omega)]
    exact panicWith_exits _

include ht in
theorem checkedShl_yields (hl : t.format.Fits l) (hr : 0 ≤ r) :
    Yields (checkedShl t l r) (BinaryOp.shiftLeft.checked t.format l r) := by
  obtain ⟨half, hh⟩ := halves ht
  show Yields _ (given (Shifts t.format l r) _)
  unfold checkedShl
  simp only
  by_cases hbits : r ≥ t.format.bits
  · rw [if_pos hbits]
    exact yields_given (fun h => absurd h.1.2 (by omega)) (fun _ => panicWith_exits _)
  rw [if_neg hbits]
  have hamount : ShiftAmount t.format r := ⟨hr, by omega⟩
  -- with a valid amount, what counts is that the exact product fits
  have hgiven : given (Shifts t.format l r) (t.format.wrap (l * 2 ^ r.toNat)) =
      given (t.format.Fits (l * 2 ^ r.toNat)) (l * 2 ^ r.toNat) := by
    have hshifts : Shifts t.format l r ↔ t.format.Fits (l * 2 ^ r.toNat) :=
      ⟨fun h => h.2 ht, fun h => ⟨hamount, fun _ => h⟩⟩
    unfold given
    simp only [hshifts]
    split_ifs with hfits
    · rw [IntFormat.wrap_of_fits hfits]
    · rfl
  rw [hgiven]
  split_ifs with hzero hpos
  · have hsame : l * 2 ^ r.toNat = l := by
      rcases hzero with rfl | rfl
      all_goals simp
    simp [given, hsame, hl, Yields]
  · rw [negativeLimit_eq hh]
    exact shl_positive hh hamount hl hpos
  · rw [negativeLimit_eq hh]
    exact shl_negative hh hamount hl (by omega)

theorem lor_two_pow_mul {low : Int} {k : Nat} {x : Nat} (hlow : 0 ≤ low ∧ low < 2 ^ k) :
    Int.lor low (2 ^ k * x) = low + 2 ^ k * x := by
  obtain ⟨a, rfl⟩ := Int.eq_ofNat_of_zero_le hlow.1
  have ha : a < 2 ^ k := by exact_mod_cast hlow.2
  have hhigh : (2 : Int) ^ k * x = ((2 ^ k * x : Nat) : Int) := by push_cast; rfl
  rw [hhigh]
  show ((a ||| 2 ^ k * x : Nat) : Int) = _
  rw [Nat.lor_comm, ← Nat.two_pow_add_eq_or_of_lt ha]
  push_cast
  ring

/-- What is left of `checkedShr` for a negative operand: the exact quotient, rounded down. -/
theorem shr_negative {half : Int} (hh : Halves t half) (hr : ShiftAmount t.format r) (hr0 : 0 < r)
    (hl : t.format.Fits l) (hneg : l < 0) :
    (do
      let low ← t.toUnsigned.shr (t.toUnsigned.convert l) r
      let high ← t.toUnsigned.shl t.toUnsigned.format.maxValue (t.format.bits - r)
      let rest ← t.toUnsigned.sub t.toUnsigned.format.maxValue (Int.lor low high)
      t.sub (-1) (t.convert rest)) = Outcome.value (l / 2 ^ r.toNat) := by
  have hbounds := (hh.signed l).mp hl
  obtain ⟨n, hn⟩ : ∃ n, t.format.bits = n := ⟨_, rfl⟩
  obtain ⟨k, rfl⟩ := Int.eq_ofNat_of_zero_le hr0.le
  have hk : k < n := by have := hr.2; omega
  have hk0 : 0 < k := by omega
  simp only [Int.toNat_natCast]
  have htwo : 2 * half = (2 : Int) ^ n := by rw [hh.power, ← hn, t.format.two_pow_bits]
  -- `2 ^ n` is split at the place where the shifted bits end
  have hsplit : (2 : Int) ^ n = 2 ^ (n - k) * 2 ^ k := by rw [← pow_add]; congr 1; omega
  have hone : (1 : Int) ≤ 2 ^ k := one_le_pow₀ (by norm_num)
  have htop : (1 : Int) ≤ 2 ^ (n - k) := one_le_pow₀ (by norm_num)
  have hconvert : t.toUnsigned.convert l = l + 2 ^ n := by
    rw [CType.convert, IntFormat.wrap, if_neg (by simp [toUnsigned_signed]), toUnsigned_bits, hn]
    rw [← Int.add_emod_right, Int.emod_eq_of_lt (by omega) (by omega)]
  have hlow : (l + 2 ^ n) / 2 ^ k = l / 2 ^ k + 2 ^ (n - k) := by
    rw [hsplit, Int.add_mul_ediv_right _ _ (by positivity)]
  have hlowBounds : 0 ≤ l / 2 ^ k + 2 ^ (n - k) ∧ l / 2 ^ k + 2 ^ (n - k) < 2 ^ (n - k) := by
    constructor
    · rw [← hlow]
      exact Int.ediv_nonneg (by omega) (by positivity)
    · have : l / 2 ^ k < 0 := Int.ediv_neg_of_neg_of_pos hneg (by positivity)
      omega
  have hamount : ShiftAmount t.format ((t.format.bits : Int) - k) := ⟨by omega, by omega⟩
  have hhigh : t.toUnsigned.shl t.toUnsigned.format.maxValue ((t.format.bits : Int) - k) =
      .value (2 ^ (n - k) * ((2 ^ k - 1 : Nat) : Int)) := by
    have hmask : ((2 ^ k - 1 : Nat) : Int) = 2 ^ k - 1 := by
      rw [Nat.cast_sub Nat.one_le_two_pow]
      push_cast
      rfl
    rw [shl_eq (toUnsigned_signed t) (unsigned_amount hamount), hh.maxUnsigned, htwo, hn,
      show ((n : Int) - k).toNat = n - k by omega, IntFormat.wrap,
      if_neg (by simp [toUnsigned_signed]), toUnsigned_bits, hn, hmask]
    have hproduct : ((2 : Int) ^ n - 1) * 2 ^ (n - k) =
        2 ^ (n - k) * (2 ^ k - 1) + 2 ^ n * (2 ^ (n - k) - 1) := by
      rw [hsplit]
      ring
    rw [hproduct, Int.add_mul_emod_self_left, Int.emod_eq_of_lt]
    · exact mul_nonneg (by positivity) (by omega)
    · rw [hsplit]
      nlinarith
  have hrest : t.toUnsigned.sub (2 ^ n - 1)
      (l / 2 ^ k + 2 ^ (n - k) + 2 ^ (n - k) * ((2 ^ k - 1 : Nat) : Int)) =
      .value (-1 - l / 2 ^ k) := by
    have hdifference : (2 : Int) ^ n - 1 -
        (l / 2 ^ k + 2 ^ (n - k) + 2 ^ (n - k) * ((2 ^ k - 1 : Nat) : Int)) = -1 - l / 2 ^ k := by
      rw [Nat.cast_sub Nat.one_le_two_pow, hsplit]
      push_cast
      ring
    rw [CType.sub, hdifference, CType.compute_of_fits]
    have := (hh.signed _).mp (IntFormat.fits_shiftRight hl k)
    have : l / 2 ^ k < 0 := Int.ediv_neg_of_neg_of_pos hneg (by positivity)
    rw [hh.unsigned]
    omega
  rw [hconvert, shr_magnitude hr]
  simp only [Outcome.value_bind, Int.toNat_natCast, hlow]
  rw [hhigh]
  simp only [Outcome.value_bind]
  rw [lor_two_pow_mul hlowBounds, hh.maxUnsigned, htwo, hrest]
  simp only [Outcome.value_bind]
  have hquotient : t.format.Fits (l / 2 ^ k) := IntFormat.fits_shiftRight hl k
  have hcomplement : t.format.Fits (-1 - l / 2 ^ k) := by
    rw [hh.signed] at hquotient ⊢
    omega
  rw [CType.convert_of_fits hcomplement, CType.sub, sub_sub_cancel, CType.compute_of_fits hquotient]

include ht in
theorem checkedShr_yields (hl : t.format.Fits l) (hr : 0 ≤ r) :
    Yields (checkedShr t l r) (BinaryOp.shiftRight.checked t.format l r) := by
  obtain ⟨half, hh⟩ := halves ht
  have hbounds := (hh.signed l).mp hl
  refine amountTest_yields hr fun hamount => ?_
  split_ifs with hzero hsign
  · simp [hzero]
  · have hconvert : t.toUnsigned.convert l = l :=
      CType.convert_of_fits ((hh.unsigned l).mpr (by omega))
    rw [hconvert, shr_magnitude hamount]
    simp [CType.convert_of_fits (IntFormat.fits_shiftRight hl r.toNat)]
  · exact shr_negative hh hamount (by omega) hl (by omega)

end SignedShifts

/-! ## All helpers -/

/-- **Each helper computes the checked operation of its type.** -/
theorem checkedBinaryHelper_yields {op : BinaryOp} {t : IntType} {helper : Helper}
    (hhelper : checkedBinaryHelper op (.integer t) = some helper) {a b : Int}
    (ha : t.format.Fits a) (hb : if op.isShift then 0 ≤ b else t.format.Fits b) :
    Yields (helper.body a b) (op.checked t.format a b) := by
  cases op with
  | add =>
    cases t <;> cases hhelper
    all_goals exact checkedAdd_yields rfl ha hb
  | subtract =>
    cases t <;> cases hhelper
    all_goals exact checkedSub_yields rfl ha hb
  | multiply =>
    cases t <;> cases hhelper
    all_goals exact checkedMul_yields rfl ha hb
  | divide =>
    cases t <;> cases hhelper
    · exact checkedDiv_yields (t := .longLong) rfl ha hb
    · exact checkedDiv_yields (t := .int) rfl ha hb
    · exact checkedDivUnsigned_yields (t := .unsignedInt) rfl ha hb
    · exact checkedDivUnsigned_yields (t := .unsignedLong) rfl ha hb
  | remainder =>
    cases t <;> cases hhelper
    · exact checkedRem_yields (t := .longLong) rfl ha hb
    · exact checkedRem_yields (t := .int) rfl ha hb
    · exact checkedRemUnsigned_yields (t := .unsignedInt) rfl ha hb
    · exact checkedRemUnsigned_yields (t := .unsignedLong) rfl ha hb
  | shiftLeft =>
    cases t <;> cases hhelper
    · exact checkedShl_yields (t := .longLong) rfl ha hb
    · exact checkedShl_yields (t := .int) rfl ha hb
    · exact checkedShlUnsigned_yields (t := .unsignedInt) rfl hb
    · exact checkedShlUnsigned_yields (t := .unsignedLong) rfl hb
  | shiftRight =>
    cases t <;> cases hhelper
    · exact checkedShr_yields (t := .longLong) rfl ha hb
    · exact checkedShr_yields (t := .int) rfl ha hb
    · exact checkedShrUnsigned_yields (t := .unsignedInt) hb
    · exact checkedShrUnsigned_yields (t := .unsignedLong) hb
  | _ => cases t <;> cases hhelper

end Nomo.Arith
