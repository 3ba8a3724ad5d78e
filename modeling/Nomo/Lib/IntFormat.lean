import Mathlib

/-!
# Integer formats

A machine integer is a mathematical integer within the bounds of its *format*: a number of bits, and
whether one of them is a sign.  Operations are then those of `ℤ`, and what a machine adds is one of
three answers to a result out of bounds: wrap it, refuse it, or leave it undefined.

The results below say which exact operations cannot leave the bounds (bitwise operators, right
shifts, all but one division), so that code that checks or wraps their results computes them.
-/

namespace Nomo.Lib

/-- A number of bits, and whether one of them is a sign. -/
structure IntFormat where
  signed : Bool
  bits : Nat
  bits_pos : 0 < bits
deriving DecidableEq, Repr

namespace IntFormat

theorem bits32_pos : 0 < 32 := by decide

theorem bits64_pos : 0 < 64 := by decide

/-! ## Bounds -/

/-- The least integer of a format. -/
def minValue (f : IntFormat) : Int :=
  if f.signed then -(2 ^ (f.bits - 1)) else 0

/-- The greatest integer of a format. -/
def maxValue (f : IntFormat) : Int :=
  if f.signed then 2 ^ (f.bits - 1) - 1 else 2 ^ f.bits - 1

/-- An integer is within the bounds of a format. -/
def Fits (f : IntFormat) (x : Int) : Prop :=
  f.minValue ≤ x ∧ x ≤ f.maxValue

instance (f : IntFormat) (x : Int) : Decidable (f.Fits x) :=
  inferInstanceAs (Decidable (_ ∧ _))

/-- Every integer of one format is one of the other. -/
def Within (f g : IntFormat) : Prop :=
  g.minValue ≤ f.minValue ∧ f.maxValue ≤ g.maxValue

instance (f g : IntFormat) : Decidable (f.Within g) :=
  inferInstanceAs (Decidable (_ ∧ _))

variable {f : IntFormat} {x : Int}

theorem Fits.within {g : IntFormat} (h : f.Within g) (hx : f.Fits x) : g.Fits x :=
  ⟨h.1.trans hx.1, hx.2.trans h.2⟩

theorem fits_signed (hf : f.signed = true) :
    f.Fits x ↔ -(2 ^ (f.bits - 1)) ≤ x ∧ x < 2 ^ (f.bits - 1) := by
  simp only [Fits, minValue, maxValue, hf, if_true]
  omega

theorem fits_unsigned (hf : f.signed = false) :
    f.Fits x ↔ 0 ≤ x ∧ x < 2 ^ f.bits := by
  simp only [Fits, minValue, maxValue, hf, Bool.false_eq_true, if_false]
  omega

theorem minValue_nonpos (f : IntFormat) : f.minValue ≤ 0 := by
  unfold minValue
  split_ifs
  · exact neg_nonpos.mpr (by positivity)
  · exact le_rfl

theorem maxValue_nonneg (f : IntFormat) : 0 ≤ f.maxValue := by
  have hpow (n : Nat) : (1 : Int) ≤ 2 ^ n := one_le_pow₀ (by norm_num)
  unfold maxValue
  split_ifs
  · linarith [hpow (f.bits - 1)]
  · linarith [hpow f.bits]

theorem fits_zero (f : IntFormat) : f.Fits 0 :=
  ⟨f.minValue_nonpos, f.maxValue_nonneg⟩

theorem minValue_eq (hf : f.signed = true) : f.minValue = -f.maxValue - 1 := by
  simp only [minValue, maxValue, hf, if_true]
  omega

theorem minValue_unsigned (hf : f.signed = false) : f.minValue = 0 := by
  simp [minValue, hf]

theorem two_pow_bits : (2 : Int) ^ f.bits = 2 * 2 ^ (f.bits - 1) := by
  obtain ⟨n, hn⟩ := Nat.exists_eq_succ_of_ne_zero f.bits_pos.ne'
  rw [hn, Nat.succ_sub_one, pow_succ, mul_comm]

/-! ## Wrapping -/

/-- The integer of a format that agrees with `x` modulo the number of its integers. -/
def wrap (f : IntFormat) (x : Int) : Int :=
  if f.signed then Int.bmod x (2 ^ f.bits) else x % 2 ^ f.bits

theorem fits_wrap (f : IntFormat) (x : Int) : f.Fits (f.wrap x) := by
  have hpow : (0 : Int) < 2 ^ f.bits := by positivity
  cases hf : f.signed with
  | true =>
    rw [fits_signed hf, wrap, if_pos hf]
    have hbits := f.two_pow_bits
    have hlow := Int.le_bmod (x := x) (m := 2 ^ f.bits) (by positivity)
    have hhigh := Int.bmod_lt (x := x) (m := 2 ^ f.bits) (by positivity)
    push_cast at hlow hhigh
    omega
  | false =>
    rw [fits_unsigned hf, wrap, if_neg (by simp [hf])]
    exact ⟨Int.emod_nonneg _ hpow.ne', Int.emod_lt_of_pos _ hpow⟩

theorem wrap_of_fits (hx : f.Fits x) : f.wrap x = x := by
  cases hf : f.signed with
  | true =>
    rw [fits_signed hf] at hx
    rw [wrap, if_pos hf]
    have hbits := f.two_pow_bits
    refine Int.bmod_eq_of_le ?_ ?_
    all_goals
      push_cast
      omega
  | false =>
    rw [fits_unsigned hf] at hx
    rw [wrap, if_neg (by simp [hf])]
    exact Int.emod_eq_of_lt hx.1 hx.2

variable {y : Int}

theorem wrap_congr (h : x ≡ y [ZMOD 2 ^ f.bits]) :
    f.wrap x = f.wrap y := by
  have hremainder : x % 2 ^ f.bits = y % 2 ^ f.bits := h
  unfold wrap Int.bmod
  push_cast
  rw [hremainder]

theorem wrap_emod : f.wrap x ≡ x [ZMOD 2 ^ f.bits] := by
  unfold wrap
  split_ifs
  · have h := Int.bmod_emod (x := x) (m := 2 ^ f.bits)
    push_cast at h
    exact h
  · exact Int.mod_modEq x _

/-! ## Operations that stay within the bounds -/

theorem natAbs_tdiv_lt (hx : x ≠ 0) (hy : 2 ≤ y.natAbs) :
    (x.tdiv y).natAbs < x.natAbs := by
  rw [Int.natAbs_tdiv]
  exact Nat.div_lt_self (Int.natAbs_pos.mpr hx) hy

/-- The quotient leaves the bounds only for the least integer of a signed format, divided by
minus one. -/
theorem fits_tdiv (hx : f.Fits x) (hy : f.Fits y)
    (hxy : ¬ (f.signed = true ∧ x = f.minValue ∧ y = -1)) : f.Fits (x.tdiv y) := by
  have habs : (x.tdiv y).natAbs ≤ x.natAbs := Int.natAbs_tdiv_le_natAbs x y
  cases hf : f.signed with
  | false =>
    rw [fits_unsigned hf] at hx hy ⊢
    have hnonneg : 0 ≤ x.tdiv y := Int.tdiv_nonneg hx.1 hy.1
    omega
  | true =>
    have hmin := f.minValue_eq hf
    have hmax := f.maxValue_nonneg
    obtain ⟨hlow, hhigh⟩ := hx
    simp only [hf, true_and] at hxy
    by_cases hzero : x = 0
    · simpa [hzero] using f.fits_zero
    rcases Nat.lt_or_ge y.natAbs 2 with hsmall | hlarge
    · -- zero, one and minus one
      obtain rfl | rfl | rfl : y = 0 ∨ y = 1 ∨ y = -1 := by omega
      · simpa using f.fits_zero
      · rw [Int.tdiv_one]
        exact ⟨hlow, hhigh⟩
      · have hne : x ≠ f.minValue := fun h => hxy ⟨h, rfl⟩
        rw [Int.tdiv_neg, Int.tdiv_one]
        constructor <;> omega
    · have hlt := natAbs_tdiv_lt hzero hlarge
      constructor <;> omega

theorem not_fits_tdiv (hxy : f.signed = true ∧ x = f.minValue ∧ y = -1) : ¬ f.Fits (x.tdiv y) := by
  obtain ⟨hf, rfl, rfl⟩ := hxy
  have hmin := f.minValue_eq hf
  rw [Int.tdiv_neg, Int.tdiv_one]
  rintro ⟨hlow, hhigh⟩
  omega

theorem fits_tmod (hx : f.Fits x) : f.Fits (x.tmod y) := by
  have habs : (x.tmod y).natAbs ≤ x.natAbs := by
    rw [Int.natAbs_tmod]
    exact Nat.mod_le _ _
  have hmin := f.minValue_nonpos
  have hmax := f.maxValue_nonneg
  obtain ⟨hlow, hhigh⟩ := hx
  by_cases hpos : 0 ≤ x
  · have := Int.tmod_nonneg y hpos
    constructor <;> omega
  · have : 0 ≤ (-x).tmod y := Int.tmod_nonneg y (by omega)
    rw [Int.neg_tmod] at this
    constructor <;> omega

theorem fits_shiftRight (hx : f.Fits x) (n : Nat) :
    f.Fits (x / 2 ^ n) := by
  have hmin := f.minValue_nonpos
  have hmax := f.maxValue_nonneg
  have hpow : (1 : Int) ≤ 2 ^ n := one_le_pow₀ (by norm_num)
  obtain ⟨hlow, hhigh⟩ := hx
  constructor
  · rw [Int.le_ediv_iff_mul_le (by omega)]
    nlinarith
  · refine Int.lt_add_one_iff.mp ?_
    rw [Int.ediv_lt_iff_lt_mul (by omega)]
    nlinarith

/-! ## Bitwise operators

Each operator is `Int.bitwise` of an operation on bits, which is where the bounds come from: one
argument serves them all. -/

theorem natBitwise_mem (g : Bool → Bool → Bool) {m n k : Nat} (hm : m < 2 ^ k) (hn : n < 2 ^ k) :
    -(2 ^ k : Int) ≤ Int.natBitwise g m n ∧ Int.natBitwise g m n < 2 ^ k := by
  unfold Int.natBitwise
  have hpow : (0 : Int) < 2 ^ k := by positivity
  cases g false false with
  | true =>
    have h := Nat.bitwise_lt_two_pow (f := fun x y => !(g x y)) hm hn
    have h' : (Nat.bitwise (fun x y => !(g x y)) m n : Int) < 2 ^ k := by exact_mod_cast h
    simp only [cond_true, Int.negSucc_eq]
    constructor <;> omega
  | false =>
    have h := Nat.bitwise_lt_two_pow (f := g) hm hn
    have h' : (Nat.bitwise g m n : Int) < 2 ^ k := by exact_mod_cast h
    simp only [cond_false]
    constructor <;> omega

theorem bitwise_mem (g : Bool → Bool → Bool) {k : Nat} (hx : -(2 ^ k) ≤ x ∧ x < 2 ^ k)
    (hy : -(2 ^ k) ≤ y ∧ y < 2 ^ k) :
    -(2 ^ k) ≤ Int.bitwise g x y ∧ Int.bitwise g x y < 2 ^ k := by
  have hnat (n : Nat) (h : (n : Int) < 2 ^ k) : n < 2 ^ k := by exact_mod_cast h
  cases x with
  | ofNat m =>
    cases y with
    | ofNat n => exact natBitwise_mem g (hnat m hx.2) (hnat n hy.2)
    | negSucc n =>
      rw [Int.negSucc_eq] at hy
      exact natBitwise_mem (fun a b => g a (!b)) (hnat m hx.2) (hnat n (by omega))
  | negSucc m =>
    rw [Int.negSucc_eq] at hx
    cases y with
    | ofNat n => exact natBitwise_mem (fun a b => g (!a) b) (hnat m (by omega)) (hnat n hy.2)
    | negSucc n =>
      rw [Int.negSucc_eq] at hy
      exact natBitwise_mem (fun a b => g (!a) (!b)) (hnat m (by omega)) (hnat n (by omega))

theorem fits_bitwise (g : Bool → Bool → Bool) (hg : g false false = false) (hx : f.Fits x)
    (hy : f.Fits y) : f.Fits (Int.bitwise g x y) := by
  cases hf : f.signed with
  | true =>
    rw [fits_signed hf] at hx hy ⊢
    exact bitwise_mem g hx hy
  | false =>
    rw [fits_unsigned hf] at hx hy ⊢
    obtain ⟨m, rfl⟩ := Int.eq_ofNat_of_zero_le hx.1
    obtain ⟨n, rfl⟩ := Int.eq_ofNat_of_zero_le hy.1
    have h := Nat.bitwise_lt_two_pow (f := g) (n := f.bits) (x := m) (y := n)
      (by exact_mod_cast hx.2) (by exact_mod_cast hy.2)
    show 0 ≤ Int.natBitwise g m n ∧ Int.natBitwise g m n < 2 ^ f.bits
    rw [Int.natBitwise, hg, cond_false]
    exact ⟨Int.natCast_nonneg _, by exact_mod_cast h⟩

theorem fits_land (hx : f.Fits x) (hy : f.Fits y) :
    f.Fits (Int.land x y) := by
  rw [← Int.bitwise_and]
  exact fits_bitwise _ rfl hx hy

theorem fits_lor (hx : f.Fits x) (hy : f.Fits y) :
    f.Fits (Int.lor x y) := by
  rw [← Int.bitwise_or]
  exact fits_bitwise _ rfl hx hy

theorem fits_xor (hx : f.Fits x) (hy : f.Fits y) :
    f.Fits (Int.xor x y) := by
  rw [← Int.bitwise_xor]
  exact fits_bitwise _ rfl hx hy

theorem fits_ldiff (hx : f.Fits x) (hy : f.Fits y) :
    f.Fits (Int.ldiff x y) := by
  rw [← Int.bitwise_diff]
  exact fits_bitwise _ rfl hx hy

/-- The complement in a format. -/
def complement (f : IntFormat) (x : Int) : Int :=
  f.wrap (Int.lnot x)

theorem lnot_eq (x : Int) : Int.lnot x = -x - 1 := by
  cases x with
  | ofNat n => simp [Int.lnot, Int.negSucc_eq]; omega
  | negSucc n => simp [Int.lnot, Int.negSucc_eq]

theorem complement_signed (hf : f.signed = true) (hx : f.Fits x) :
    f.complement x = Int.lnot x := by
  refine wrap_of_fits ?_
  rw [fits_signed hf] at hx ⊢
  rw [lnot_eq]
  omega

theorem complement_unsigned (hf : f.signed = false) (hx : f.Fits x) :
    f.complement x = 2 ^ f.bits - 1 - x := by
  rw [fits_unsigned hf] at hx
  rw [complement, wrap, if_neg (by simp [hf]), lnot_eq]
  have h : (-x - 1) % 2 ^ f.bits = (-x - 1 + 2 ^ f.bits) % 2 ^ f.bits := by simp
  rw [h, Int.emod_eq_of_lt (by omega) (by omega)]
  ring

/-- Masking with a complement clears bits, whatever the format the complement is taken in, as long
as the masked integer is not longer than it. -/
theorem land_two_pow_sub {n : Nat} (hx : 0 ≤ x ∧ x < 2 ^ n) (hy : 0 ≤ y ∧ y < 2 ^ n) :
    Int.land x (2 ^ n - 1 - y) = Int.ldiff x y := by
  obtain ⟨a, rfl⟩ := Int.eq_ofNat_of_zero_le hx.1
  obtain ⟨b, rfl⟩ := Int.eq_ofNat_of_zero_le hy.1
  have ha : a < 2 ^ n := by exact_mod_cast hx.2
  have hb : b < 2 ^ n := by exact_mod_cast hy.2
  have hmask : (2 : Int) ^ n - 1 - b = ((2 ^ n - (b + 1) : Nat) : Int) := by
    rw [Nat.cast_sub hb]
    push_cast
    ring
  rw [hmask]
  show ((a &&& (2 ^ n - (b + 1)) : Nat) : Int) = (Nat.ldiff a b : Int)
  congr 1
  refine Nat.eq_of_testBit_eq fun i => ?_
  rw [Nat.testBit_and, Nat.testBit_two_pow_sub_succ hb, Nat.testBit_ldiff]
  by_cases hi : i < n
  · simp [hi]
  · have : a.testBit i = false :=
      Nat.testBit_lt_two_pow (ha.trans_le (Nat.pow_le_pow_right (by norm_num) (by omega)))
    simp [this]

theorem land_lnot (x y : Int) : Int.land x (Int.lnot y) = Int.ldiff x y := by
  cases x <;> cases y <;> rfl

theorem land_complement (hx : f.Fits x) (hy : f.Fits y) :
    Int.land x (f.complement y) = Int.ldiff x y := by
  cases hf : f.signed with
  | true => rw [complement_signed hf hy, land_lnot]
  | false =>
    rw [complement_unsigned hf hy]
    rw [fits_unsigned hf] at hx hy
    exact land_two_pow_sub hx hy

end IntFormat

end Nomo.Lib
