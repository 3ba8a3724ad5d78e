import Nomo.Lib.IntFormat

/-!
# Numerals and `strtol`

The integer conversions of C's standard library (C11 7.22.1.4) in base 10 and the "C" locale, and the
numerals they read: white space, a sign and digits.  `strto` is `strtoll` for a signed format and
`strtoull` for an unsigned one; `strto_numeral` and `numeral_of_strto` say that it reads a whole text
just when the text is a numeral.
-/

namespace Nomo.Lib

/-! ## Numerals -/

/-- `isspace`. -/
def isSpace (byte : UInt8) : Bool := byte == 32 || (9 ≤ byte && byte ≤ 13)

/-- `isdigit`. -/
def isDecimalDigit (byte : UInt8) : Bool := 48 ≤ byte && byte ≤ 57

/-- What digits stand for. -/
def decimalValue (digits : List UInt8) : ℕ :=
  digits.foldl (fun n byte => 10 * n + (byte.toNat - 48)) 0

/-- The digits of a number. -/
def decimalDigits (n : ℕ) : List UInt8 :=
  if n = 0 then [48] else (Nat.digits 10 n).reverse.map fun digit => UInt8.ofNat (48 + digit)

/-- The rendering of an integer. -/
def decimal (x : ℤ) : List UInt8 :=
  if x < 0 then 45 :: decimalDigits x.natAbs else decimalDigits x.natAbs

/-- The sign before the digits. -/
inductive DecimalSign where
  | absent | plus | minus
deriving DecidableEq, Repr

namespace DecimalSign

def text : DecimalSign → List UInt8
  | .absent => []
  | .plus => [43]
  | .minus => [45]

/-- The integer with a sign and a magnitude. -/
def apply : DecimalSign → ℕ → ℤ
  | .minus, n => -n
  | _, n => n

end DecimalSign

/-- A text is a numeral: white space, a sign and digits. -/
structure Numeral (text spaces : List UInt8) (sign : DecimalSign) (digits : List UInt8) : Prop where
  text_eq : text = spaces ++ (sign.text ++ digits)
  spaces_all : ∀ byte ∈ spaces, isSpace byte = true
  digits_all : ∀ byte ∈ digits, isDecimalDigit byte = true
  digits_ne : digits ≠ []

/-- A text is a numeral for an integer. -/
def Denotes (text : List UInt8) (x : ℤ) : Prop :=
  ∃ spaces sign digits, Numeral text spaces sign digits ∧ x = sign.apply (decimalValue digits)

theorem decimalValue_append (digits : List UInt8) (byte : UInt8) :
    decimalValue (digits ++ [byte]) = 10 * decimalValue digits + (byte.toNat - 48) := by
  rw [decimalValue, List.foldl_append]
  rfl

theorem toNat_digit {digit : ℕ} (h : digit < 10) : (UInt8.ofNat (48 + digit)).toNat = 48 + digit := by
  rw [UInt8.toNat_ofNat']
  omega

theorem decimalValue_digits {digits : List ℕ} (h : ∀ digit ∈ digits, digit < 10) :
    decimalValue (digits.reverse.map fun digit => UInt8.ofNat (48 + digit)) = Nat.ofDigits 10 digits := by
  induction digits with
  | nil => rfl
  | cons digit rest ih =>
    rw [List.reverse_cons, List.map_append, List.map_singleton, decimalValue_append,
      ih fun d hd => h d (List.mem_cons_of_mem _ hd), toNat_digit (h digit (List.mem_cons_self ..)),
      Nat.ofDigits_cons]
    omega

theorem decimalValue_decimalDigits (n : ℕ) : decimalValue (decimalDigits n) = n := by
  unfold decimalDigits
  split_ifs with hzero
  · rw [hzero]
    rfl
  · rw [decimalValue_digits fun digit hdigit => Nat.digits_lt_base (by decide) hdigit, Nat.ofDigits_digits]

theorem decimalDigits_ne (n : ℕ) : decimalDigits n ≠ [] := by
  unfold decimalDigits
  split_ifs with hzero
  · exact List.cons_ne_nil _ _
  · simpa using Nat.digits_ne_nil_iff_ne_zero.mpr hzero

theorem isDecimalDigit_of_mem {n : ℕ} {byte : UInt8} (h : byte ∈ decimalDigits n) :
    isDecimalDigit byte = true := by
  have hdigit : ∀ digit < 10, isDecimalDigit (UInt8.ofNat (48 + digit)) = true := by decide
  unfold decimalDigits at h
  split_ifs at h with hzero
  · rw [List.mem_singleton.mp h]
    rfl
  · obtain ⟨digit, hmem, rfl⟩ := List.mem_map.mp h
    exact hdigit digit (Nat.digits_lt_base (by decide) (List.mem_reverse.mp hmem))

/-- **A rendered integer is a numeral for it.** -/
theorem denotes_decimal (x : ℤ) : Denotes (decimal x) x := by
  unfold decimal
  split_ifs with hneg
  · refine ⟨[], .minus, decimalDigits x.natAbs, ⟨rfl, fun _ h => (nomatch h),
      fun _ => isDecimalDigit_of_mem, decimalDigits_ne _⟩, ?_⟩
    rw [decimalValue_decimalDigits, DecimalSign.apply]
    omega
  · refine ⟨[], .absent, decimalDigits x.natAbs, ⟨rfl, fun _ h => (nomatch h),
      fun _ => isDecimalDigit_of_mem, decimalDigits_ne _⟩, ?_⟩
    rw [decimalValue_decimalDigits]
    show x = (x.natAbs : ℤ)
    omega

/-! ## Conversions -/

/-- What a conversion returns, the text after `end`, and whether it sets `errno` to `ERANGE`. -/
structure Conversion where
  value : ℤ
  stop : List UInt8
  outOfRange : Bool
deriving DecidableEq, Repr

/-- The sign that a text begins with, and the text after it. -/
def splitSign : List UInt8 → DecimalSign × List UInt8
  | [] => (.absent, [])
  | byte :: rest =>
    if byte = 45 then (.minus, rest)
    else if byte = 43 then (.plus, rest)
    else (.absent, byte :: rest)

/-- The conversion of a sign and digits.  An unsigned format bounds the digits and negates the result
in the type. -/
def convertDigits (f : IntFormat) (sign : DecimalSign) (digits stop : List UInt8) : Conversion :=
  let magnitude := decimalValue digits
  let value := sign.apply magnitude
  if f.signed then
    if f.Fits value then ⟨value, stop, false⟩
    else ⟨if sign = .minus then f.minValue else f.maxValue, stop, true⟩
  else
    if f.Fits magnitude then ⟨f.wrap value, stop, false⟩
    else ⟨f.maxValue, stop, true⟩

/-- `strtoll` and `strtoull`.  Where there are no digits, `end` is the beginning of the text. -/
def strto (f : IntFormat) (text : List UInt8) : Conversion :=
  let (sign, rest) := splitSign (text.dropWhile isSpace)
  let digits := rest.takeWhile isDecimalDigit
  if digits = [] then ⟨0, text, false⟩
  else convertDigits f sign digits (rest.dropWhile isDecimalDigit)

section

variable {f : IntFormat} {sign : DecimalSign} {digits stop : List UInt8}

theorem convertDigits_signed (hf : f.signed = true) (h : f.Fits (sign.apply (decimalValue digits))) :
    convertDigits f sign digits stop = ⟨sign.apply (decimalValue digits), stop, false⟩ := by
  unfold convertDigits
  dsimp only
  rw [if_pos hf, if_pos h]

theorem outOfRange_signed (hf : f.signed = true) (h : ¬ f.Fits (sign.apply (decimalValue digits))) :
    (convertDigits f sign digits stop).outOfRange = true := by
  unfold convertDigits
  dsimp only
  rw [if_pos hf, if_neg h]

theorem convertDigits_unsigned (hf : f.signed = false) (h : f.Fits (decimalValue digits)) :
    convertDigits f sign digits stop = ⟨f.wrap (sign.apply (decimalValue digits)), stop, false⟩ := by
  unfold convertDigits
  dsimp only
  rw [if_neg (by simp [hf]), if_pos h]

theorem outOfRange_unsigned (hf : f.signed = false) (h : ¬ f.Fits (decimalValue digits)) :
    (convertDigits f sign digits stop).outOfRange = true := by
  unfold convertDigits
  dsimp only
  rw [if_neg (by simp [hf]), if_neg h]

end

@[simp] theorem convertDigits_stop {f : IntFormat} {sign : DecimalSign} {digits stop : List UInt8} :
    (convertDigits f sign digits stop).stop = stop := by
  unfold convertDigits
  dsimp only
  split_ifs <;> rfl

theorem splitSign_text (text : List UInt8) : (splitSign text).1.text ++ (splitSign text).2 = text := by
  cases text with
  | nil => rfl
  | cons byte rest =>
    unfold splitSign
    dsimp only
    split_ifs with hminus hplus
    · rw [hminus]
      rfl
    · rw [hplus]
      rfl
    · rfl

theorem not_sign_of_digit {byte : UInt8} (h : isDecimalDigit byte = true) :
    byte ≠ 45 ∧ byte ≠ 43 ∧ isSpace byte = false := by
  have hall : ∀ byte, isDecimalDigit byte = true →
      byte ≠ 45 ∧ byte ≠ 43 ∧ isSpace byte = false := by decide +kernel
  exact hall byte h

theorem splitSign_digits {sign : DecimalSign} {digits : List UInt8}
    (hall : ∀ byte ∈ digits, isDecimalDigit byte = true) :
    splitSign (sign.text ++ digits) = (sign, digits) := by
  cases sign with
  | plus | minus => rfl
  | absent =>
    cases digits with
    | nil => rfl
    | cons byte rest =>
      obtain ⟨hminus, hplus, -⟩ := not_sign_of_digit (hall byte (List.mem_cons_self ..))
      show splitSign (byte :: rest) = _
      rw [splitSign, if_neg hminus, if_neg hplus]

theorem dropWhile_numeral {text spaces : List UInt8} {sign : DecimalSign} {digits : List UInt8}
    (h : Numeral text spaces sign digits) : text.dropWhile isSpace = sign.text ++ digits := by
  obtain ⟨byte, rest, hdigits⟩ := List.exists_cons_of_ne_nil h.digits_ne
  obtain ⟨-, -, hspace⟩ := not_sign_of_digit (h.digits_all byte (by simp [hdigits]))
  rw [h.text_eq, List.dropWhile_append_of_pos h.spaces_all]
  cases sign with
  | plus | minus => rfl
  | absent =>
    rw [hdigits]
    exact List.dropWhile_cons_of_neg (by simp [hspace])

theorem Numeral.unique {text spaces spaces' digits digits' : List UInt8} {sign sign' : DecimalSign}
    (h : Numeral text spaces sign digits) (h' : Numeral text spaces' sign' digits') :
    sign = sign' ∧ digits = digits' := by
  have hsplit : splitSign (text.dropWhile isSpace) = (sign, digits) := by
    rw [dropWhile_numeral h, splitSign_digits h.digits_all]
  rw [dropWhile_numeral h', splitSign_digits h'.digits_all] at hsplit
  cases hsplit
  exact ⟨rfl, rfl⟩

/-- **A numeral is read as a whole.** -/
theorem strto_numeral {f : IntFormat} {text spaces : List UInt8} {sign : DecimalSign}
    {digits : List UInt8} (h : Numeral text spaces sign digits) :
    strto f text = convertDigits f sign digits [] := by
  have htake : digits.takeWhile isDecimalDigit = digits := List.takeWhile_eq_self_iff.mpr h.digits_all
  have hdrop : digits.dropWhile isDecimalDigit = [] := List.dropWhile_eq_nil_iff.mpr h.digits_all
  unfold strto
  rw [dropWhile_numeral h, splitSign_digits h.digits_all]
  simp only [htake, hdrop, if_neg h.digits_ne]

/-- **What is read as a whole is a numeral.** -/
theorem numeral_of_strto {f : IntFormat} {text : List UInt8} (hne : text ≠ [])
    (hstop : (strto f text).stop = []) : ∃ spaces sign digits, Numeral text spaces sign digits := by
  have htext := splitSign_text (text.dropWhile isSpace)
  have hspaces := List.takeWhile_append_dropWhile (p := isSpace) (l := text)
  unfold strto at hstop
  generalize splitSign (text.dropWhile isSpace) = split at htext hstop
  obtain ⟨sign, rest⟩ := split
  have hdigits := List.takeWhile_append_dropWhile (p := isDecimalDigit) (l := rest)
  dsimp only at htext hstop
  split_ifs at hstop with hnil
  · exact absurd hstop hne
  rw [convertDigits_stop] at hstop
  rw [hstop, List.append_nil] at hdigits
  refine ⟨text.takeWhile isSpace, sign, rest.takeWhile isDecimalDigit, ?_, ?_, ?_, hnil⟩
  · rw [hdigits, htext, hspaces]
  all_goals exact fun _ => List.mem_takeWhile_imp

theorem strto_stop_suffix (f : IntFormat) (text : List UInt8) : (strto f text).stop <:+ text := by
  have htext := splitSign_text (text.dropWhile isSpace)
  have hspaces := List.dropWhile_suffix (l := text) isSpace
  unfold strto
  generalize splitSign (text.dropWhile isSpace) = split at htext
  obtain ⟨sign, rest⟩ := split
  dsimp only at htext ⊢
  split_ifs
  · exact List.suffix_refl text
  · rw [convertDigits_stop]
    have hrest : rest <:+ text.dropWhile isSpace := ⟨sign.text, htext⟩
    exact (List.dropWhile_suffix _).trans (hrest.trans hspaces)

end Nomo.Lib
