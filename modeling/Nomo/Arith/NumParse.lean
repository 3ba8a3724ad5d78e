import Nomo.Lib.Strtol
import Nomo.Arith.Syntax

/-!
# Parsing numbers

`num.parse_i64` and `num.parse_u64` in C
(`nomo_codegen_c/src/runtime/host_num_parse_helpers.rs:3–77`): `strtoll` or `strtoull`, and three
tests around it.  The helper for `u64` refuses a minus sign in the first byte, where `strtoull` would
negate the number; a minus sign after white space is not seen.

`parse_meets_iff` says for which texts the helpers parse what is written.
-/

namespace Nomo.Arith

open Nomo.Lib

/-- The `data` of a string: the bytes before the terminating zero. -/
structure CText where
  bytes : List UInt8
  no_zero : 0 ∉ bytes

namespace CText

/-- `data[0]`. -/
def first (text : CText) : UInt8 := text.bytes.headD 0

/-- A text after its white space. -/
def trimStart (text : CText) : CText :=
  ⟨text.bytes.dropWhile isSpace, fun h => text.no_zero ((List.dropWhile_suffix _).mem h)⟩

theorem first_eq_zero (text : CText) : text.first = 0 ↔ text.bytes = [] := by
  obtain ⟨bytes, hzero⟩ := text
  cases bytes with
  | nil => exact iff_of_true rfl rfl
  | cons byte rest =>
    refine iff_of_false (fun h => hzero ?_) (List.cons_ne_nil _ _)
    rw [show byte = 0 from h]
    exact List.mem_cons_self ..

end CText

/-- The types with a helper here. -/
inductive ParsedType where
  | i64 | u64
deriving DecidableEq, Repr

namespace ParsedType

def suffix : ParsedType → String
  | .i64 => "i64"
  | .u64 => "u64"

def type : ParsedType → IntType
  | .i64 => .int
  | .u64 => .u64

def format (t : ParsedType) : IntFormat := t.type.format

end ParsedType

/-- `emit_num_parse_error`. -/
def numParseError (t : ParsedType) : Except String Int := .error ("invalid " ++ t.suffix)

/-- The function of `emit_num_parse_helper`, for integers. -/
def numParse (t : ParsedType) (text : CText) : Except String Int :=
  if t.suffix = "u64" ∧ text.first = 45 then numParseError t
  else
    let parsed := strto t.format text.bytes
    if text.first = 0 ∨ parsed.stop.headD 0 ≠ 0 ∨ parsed.outOfRange = true then numParseError t
    else .ok (t.format.wrap parsed.value)

def numParseI64 : CText → Except String Int := numParse .i64

def numParseU64 : CText → Except String Int := numParse .u64

/-! ## What it parses -/

theorem numParse_eq (t : ParsedType) (text : CText) :
    numParse t text =
      if t = .u64 ∧ text.first = 45 then numParseError t
      else if text.bytes ≠ [] ∧ (strto t.format text.bytes).stop = [] ∧
          (strto t.format text.bytes).outOfRange = false then
        .ok (t.format.wrap (strto t.format text.bytes).value)
      else numParseError t := by
  have hsuffix : t.suffix = "u64" ↔ t = .u64 := by cases t <;> decide
  have hstop : (strto t.format text.bytes).stop.headD 0 = 0 ↔ (strto t.format text.bytes).stop = [] := by
    have hmem := (strto_stop_suffix t.format text.bytes).mem (a := 0)
    let rest : CText := ⟨(strto t.format text.bytes).stop, fun h => text.no_zero (hmem h)⟩
    exact rest.first_eq_zero
  unfold numParse
  simp only [hsuffix]
  split_ifs with hminus htests hread hread
  · rfl
  · obtain ⟨hne, hend, hrange⟩ := hread
    rcases htests with h | h | h
    · exact absurd (text.first_eq_zero.mp h) hne
    · exact absurd (hstop.mpr hend) h
    · exact absurd h (by simp [hrange])
  · rfl
  · rfl
  · refine absurd ⟨?_, ?_, ?_⟩ hread
    · exact fun h => htests (Or.inl (text.first_eq_zero.mpr h))
    · by_contra h
      exact htests (Or.inr (Or.inl fun hzero => h (hstop.mp hzero)))
    · by_contra h
      exact htests (Or.inr (Or.inr (by simpa using h)))

theorem numParse_of_not_numeral {t : ParsedType} {text : CText}
    (h : ¬ ∃ spaces sign digits, Numeral text.bytes spaces sign digits) :
    numParse t text = numParseError t := by
  rw [numParse_eq]
  split_ifs with hminus hread
  · rfl
  · exact absurd (numeral_of_strto hread.1 hread.2.1) h
  · rfl

/-- The result for a numeral that the first test lets through. -/
def numeralResult (t : ParsedType) (sign : DecimalSign) (digits : List UInt8) : Except String Int :=
  let result := convertDigits t.format sign digits []
  if result.outOfRange then numParseError t else .ok (t.format.wrap result.value)

theorem numParse_numeral {t : ParsedType} {text : CText} {spaces digits : List UInt8}
    {sign : DecimalSign} (h : Numeral text.bytes spaces sign digits) :
    numParse t text =
      if t = .u64 ∧ spaces = [] ∧ sign = .minus then numParseError t
      else numeralResult t sign digits := by
  have hne : text.bytes ≠ [] := by
    rw [h.text_eq]
    simp [h.digits_ne]
  have hfirst : text.first = 45 ↔ spaces = [] ∧ sign = .minus := by
    rw [CText.first, h.text_eq]
    cases spaces with
    | nil =>
      cases sign with
      | plus | minus => simp [DecimalSign.text]
      | absent =>
        obtain ⟨byte, rest, hdigits⟩ := List.exists_cons_of_ne_nil h.digits_ne
        have hbyte := (not_sign_of_digit (h.digits_all byte (by simp [hdigits]))).1
        simp [DecimalSign.text, hdigits, hbyte]
    | cons byte rest =>
      have hspace := h.spaces_all byte (List.mem_cons_self ..)
      have hbyte : byte ≠ 45 := by
        rintro rfl
        exact absurd hspace (by decide)
      simp [hbyte]
  rw [numParse_eq]
  simp only [hfirst]
  split_ifs with hminus hread
  · rfl
  · rw [strto_numeral h] at hread ⊢
    rw [numeralResult, hread.2.2]
    rfl
  · rw [strto_numeral h] at hread
    rw [numeralResult, if_pos]
    by_contra hrange
    exact hread ⟨hne, convertDigits_stop, by simpa using hrange⟩

theorem numeralResult_signed (sign : DecimalSign) (digits : List UInt8) :
    numeralResult .i64 sign digits =
      if ParsedType.i64.format.Fits (sign.apply (decimalValue digits)) then
        .ok (sign.apply (decimalValue digits))
      else numParseError .i64 := by
  unfold numeralResult
  dsimp only
  by_cases hfits : ParsedType.i64.format.Fits (sign.apply (decimalValue digits))
  · rw [if_pos hfits, convertDigits_signed rfl hfits, IntFormat.wrap_of_fits hfits]
    rfl
  · rw [if_neg hfits, if_pos (outOfRange_signed rfl hfits)]

theorem numeralResult_unsigned (sign : DecimalSign) (digits : List UInt8) :
    numeralResult .u64 sign digits =
      if ParsedType.u64.format.Fits (decimalValue digits) then
        .ok (ParsedType.u64.format.wrap (sign.apply (decimalValue digits)))
      else numParseError .u64 := by
  unfold numeralResult
  dsimp only
  by_cases hfits : ParsedType.u64.format.Fits (decimalValue digits)
  · rw [if_pos hfits, convertDigits_unsigned rfl hfits, IntFormat.wrap_of_fits (IntFormat.fits_wrap _ _)]
    rfl
  · rw [if_neg hfits, if_pos (outOfRange_unsigned rfl hfits)]

/-! ## Which texts are parsed as written -/

/-- A text is parsed as written: a number comes only from a numeral for it, a numeral outside the type is
refused, and white space before the text makes no difference. -/
structure Meets (t : ParsedType) (text : CText) : Prop where
  ok_denotes : ∀ n, numParse t text = .ok n → Denotes text.bytes n
  outside_refused : ∀ n, Denotes text.bytes n → ¬ t.format.Fits n → numParse t text = numParseError t
  uniform : numParse t text = numParse t text.trimStart

/-- White space, a minus sign, and digits within the unsigned type. -/
def HiddenMinus (text : CText) : Prop :=
  ∃ spaces digits, Numeral text.bytes spaces .minus digits ∧ spaces ≠ [] ∧ decimalValue digits < 2 ^ 64

theorem numeral_trimStart {text : CText} {spaces digits : List UInt8} {sign : DecimalSign}
    (h : Numeral text.bytes spaces sign digits) : Numeral text.trimStart.bytes [] sign digits where
  text_eq := dropWhile_numeral h
  spaces_all := fun _ hmem => nomatch hmem
  digits_all := h.digits_all
  digits_ne := h.digits_ne

theorem numeral_of_trimStart {text : CText} {spaces digits : List UInt8} {sign : DecimalSign}
    (h : Numeral text.trimStart.bytes spaces sign digits) :
    Numeral text.bytes (text.bytes.takeWhile isSpace) sign digits where
  text_eq := by
    have hidem : text.trimStart.bytes.dropWhile isSpace = text.trimStart.bytes :=
      List.dropWhile_idempotent _ _
    rw [← dropWhile_numeral h, hidem]
    exact List.takeWhile_append_dropWhile.symm
  spaces_all := fun _ => List.mem_takeWhile_imp
  digits_all := h.digits_all
  digits_ne := h.digits_ne

theorem fits_u64 {x : Int} : ParsedType.u64.format.Fits x ↔ 0 ≤ x ∧ x < 2 ^ 64 :=
  IntFormat.fits_unsigned rfl

theorem meets_of_not_numeral {t : ParsedType} {text : CText}
    (hnumeral : ¬ ∃ spaces sign digits, Numeral text.bytes spaces sign digits) : Meets t text where
  ok_denotes n hn := by
    rw [numParse_of_not_numeral hnumeral] at hn
    cases hn
  outside_refused := by
    rintro n ⟨spaces, sign, digits, h, -⟩
    exact absurd ⟨spaces, sign, digits, h⟩ hnumeral
  uniform := (numParse_of_not_numeral hnumeral).trans (numParse_of_not_numeral
    fun ⟨_, sign, digits, h⟩ => hnumeral ⟨_, sign, digits, numeral_of_trimStart h⟩).symm

theorem meets_i64 (text : CText) : Meets .i64 text := by
  by_cases hnumeral : ∃ spaces sign digits, Numeral text.bytes spaces sign digits
  · obtain ⟨spaces, sign, digits, h⟩ := hnumeral
    have hparse := numParse_numeral (t := .i64) h
    rw [if_neg (fun hminus => nomatch hminus.1), numeralResult_signed] at hparse
    have htrim := numParse_numeral (t := .i64) (numeral_trimStart h)
    rw [if_neg (fun hminus => nomatch hminus.1), numeralResult_signed] at htrim
    refine ⟨fun n hn => ?_, ?_, hparse.trans htrim.symm⟩
    · rw [hparse] at hn
      split_ifs at hn with hfits
      · cases hn
        exact ⟨spaces, sign, digits, h, rfl⟩
      · cases hn
    · rintro n ⟨spaces', sign', digits', h', rfl⟩ hfits
      obtain ⟨rfl, rfl⟩ := h.unique h'
      rw [hparse, if_neg hfits]
  · exact meets_of_not_numeral hnumeral

/-- The unsigned helper parses every text as written in which no minus sign is hidden. -/
theorem meets_u64_iff (text : CText) : Meets .u64 text ↔ ¬ HiddenMinus text := by
  constructor
  · rintro hmeets ⟨spaces, digits, h, hspaces, hvalue⟩
    have hfits : ParsedType.u64.format.Fits (decimalValue digits) := fits_u64.mpr (by omega)
    have hparse := numParse_numeral (t := .u64) h
    rw [if_neg (fun hminus => hspaces hminus.2.1), numeralResult_unsigned, if_pos hfits] at hparse
    have htrim := numParse_numeral (t := .u64) (numeral_trimStart h)
    rw [if_pos ⟨rfl, rfl, rfl⟩] at htrim
    have huniform := hmeets.uniform
    rw [hparse, htrim] at huniform
    cases huniform
  · intro hhidden
    by_cases hnumeral : ∃ spaces sign digits, Numeral text.bytes spaces sign digits
    · obtain ⟨spaces, sign, digits, h⟩ := hnumeral
      have hparse := numParse_numeral (t := .u64) h
      have htrim := numParse_numeral (t := .u64) (numeral_trimStart h)
      rw [numeralResult_unsigned] at hparse htrim
      by_cases hminus : sign = .minus
      · subst hminus
        -- the digits are out of range unless there is no white space
        have hrefused : numParse .u64 text = numParseError .u64 := by
          rw [hparse]
          split_ifs with hfirst hfits
          · rfl
          · refine absurd ⟨spaces, digits, h, fun hnil => hfirst ⟨rfl, hnil, rfl⟩, ?_⟩ hhidden
            have := (fits_u64.mp hfits).2
            omega
          · rfl
        rw [if_pos ⟨rfl, rfl, rfl⟩] at htrim
        refine ⟨fun n hn => ?_, fun n _ _ => hrefused, hrefused.trans htrim.symm⟩
        rw [hrefused] at hn
        cases hn
      · have happly : sign.apply (decimalValue digits) = decimalValue digits := by
          cases sign with
          | absent | plus => rfl
          | minus => exact absurd rfl hminus
        rw [if_neg (fun hfirst => hminus hfirst.2.2), happly] at hparse htrim
        refine ⟨fun n hn => ?_, ?_, hparse.trans htrim.symm⟩
        · rw [hparse] at hn
          split_ifs at hn with hfits
          · rw [IntFormat.wrap_of_fits hfits] at hn
            cases hn
            exact ⟨spaces, sign, digits, h, happly.symm⟩
          · cases hn
        · rintro n ⟨spaces', sign', digits', h', rfl⟩ hfits
          obtain ⟨rfl, rfl⟩ := h.unique h'
          rw [happly] at hfits
          rw [hparse, if_neg hfits]
    · exact meets_of_not_numeral hnumeral

/-- The rendering of an integer, as a string. -/
def rendered (x : Int) : CText where
  bytes := decimal x
  no_zero := by
    intro hzero
    unfold decimal at hzero
    have hdigit : (0 : UInt8) ∉ decimalDigits x.natAbs := fun h => by
      have := isDecimalDigit_of_mem h
      exact absurd this (by decide)
    split_ifs at hzero with hneg
    · rcases List.mem_cons.mp hzero with h | h
      · exact absurd h (by decide)
      · exact hdigit h
    · exact hdigit hzero

theorem numParse_rendered {t : ParsedType} {x : Int} (hx : t.format.Fits x) :
    numParse t (rendered x) = .ok x := by
  obtain ⟨spaces, sign, digits, h, hvalue⟩ := denotes_decimal x
  have hparse : numParse t (rendered x) = _ := numParse_numeral h
  cases t with
  | i64 =>
    rw [if_neg (fun hminus => nomatch hminus.1), numeralResult_signed, ← hvalue, if_pos hx] at hparse
    exact hparse
  | u64 =>
    have hnonneg := (fits_u64.mp hx).1
    have hdecimal : decimal x = decimalDigits x.natAbs := if_neg (by omega)
    have h' : Numeral (rendered x).bytes [] .absent (decimalDigits x.natAbs) :=
      ⟨hdecimal, fun _ hmem => (nomatch hmem), fun _ => isDecimalDigit_of_mem, decimalDigits_ne _⟩
    obtain ⟨rfl, rfl⟩ := Numeral.unique h h'
    have happly : (decimalValue (decimalDigits x.natAbs) : Int) = x := hvalue.symm
    rw [if_neg (fun hminus => nomatch hminus.2.2), numeralResult_unsigned, happly, if_pos hx,
      ← hvalue, IntFormat.wrap_of_fits hx] at hparse
    exact hparse

/-- **Numbers are parsed as written**, but for texts with white space, a minus sign and digits that are
parsed as `u64`; and every integer of the type is parsed from its rendering. -/
theorem parse_meets_iff (t : ParsedType) :
    (∀ text, Meets t text ↔ ¬ (t = .u64 ∧ HiddenMinus text)) ∧
      ∀ x, t.format.Fits x → numParse t (rendered x) = .ok x := by
  refine ⟨fun text => ?_, fun x => numParse_rendered⟩
  cases t with
  | i64 => exact iff_of_true (meets_i64 text) fun h => nomatch h.1
  | u64 =>
    rw [meets_u64_iff]
    simp

/-- Minus five is parsed from its rendering. -/
theorem parse_meets_minus_five : numParse .i64 (rendered (-5)) = .ok (-5) := by
  have hfits : ParsedType.i64.format.Fits (-5) := by decide +kernel
  exact (parse_meets_iff .i64).2 (-5) hfits

/-- A space, a minus sign and a five. -/
def spacedMinusFive : CText := ⟨[32, 45, 53], by decide⟩

/-- The text denotes -5, and is parsed as a `u64`. -/
theorem spaced_minus_parsed :
    Denotes spacedMinusFive.bytes (-5) ∧ ¬ ParsedType.u64.format.Fits (-5) ∧
      numParseU64 spacedMinusFive = .ok 18446744073709551611 := by
  have hnumeral : Numeral spacedMinusFive.bytes [32] .minus [53] :=
    ⟨rfl, List.forall_mem_singleton.mpr rfl, List.forall_mem_singleton.mpr rfl, List.cons_ne_nil _ _⟩
  refine ⟨⟨_, _, _, hnumeral, rfl⟩, ?_⟩
  decide +kernel

end Nomo.Arith
