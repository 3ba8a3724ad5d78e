import Nomo.Json.Text

/-!
# Characters at the beginning of a buffer

`utf8_width` and `utf8_prefix` (host_http_stream.c:132–201). The same two functions stand, under the
names of their files, in host_process_control.c:247–320 and in host_async_process_unix.c:1671–1753; the
last of these returns its outcome the other way round and tests for a zero byte once more than it needs.

A text here is valid UTF-8 without the character zero (`IsText`). The width is that of the character a
buffer begins with; a buffer that may still grow is told apart from one that no byte can complete.
-/

namespace Nomo.Streams

open Nomo.Json (IsScalar encodeUtf8)

/-! ## The functions -/

/-- What a buffer begins with: the status and the width that `utf8_width` returns. -/
inductive Width
  | invalid
  | incomplete
  | complete (width : ℕ)
deriving DecidableEq, Repr

/-- `(byte & 0xc0) == 0x80`. -/
def isContinuation (byte : UInt8) : Bool := byte.toNat / 64 = 2

/-- What the first byte of a longer character says: the number of bytes, the bits of the value and the
least value. -/
def leadByte (first : UInt8) : Option (ℕ × ℕ × ℕ) :=
  if 0xc2 ≤ first.toNat ∧ first.toNat ≤ 0xdf then some (2, first.toNat % 32, 0x80)
  else if 0xe0 ≤ first.toNat ∧ first.toNat ≤ 0xef then some (3, first.toNat % 16, 0x800)
  else if 0xf0 ≤ first.toNat ∧ first.toNat ≤ 0xf4 then some (4, first.toNat % 8, 0x10000)
  else none

/-- The loop over the bytes that continue a character: each adds six bits. -/
def continuationValue (value : ℕ) : List UInt8 → Option ℕ
  | [] => some value
  | byte :: rest =>
    if isContinuation byte then continuationValue (value * 64 + byte.toNat % 64) rest else none

/-- `nomo_http_stream_utf8_width`. -/
def utf8Width : List UInt8 → Width
  | [] => .incomplete
  | first :: rest =>
    if first.toNat = 0 then .invalid
    else if first.toNat ≤ 0x7f then .complete 1
    else match leadByte first with
      | none => .invalid
      | some (count, value, minimum) =>
        -- too few bytes: those that are there are not looked at yet
        if rest.length + 1 < count then .incomplete
        else match continuationValue value (rest.take (count - 1)) with
          | none => .invalid
          | some value =>
            if value < minimum ∨ 0x10ffff < value ∨ (0xd800 ≤ value ∧ value ≤ 0xdfff) then .invalid
            else .complete count

theorem utf8Width_pos {data : List UInt8} {width : ℕ} (h : utf8Width data = .complete width) :
    0 < width := by
  unfold utf8Width at h
  split at h
  · cases h
  split_ifs at h
  · cases h
    exact Nat.one_pos
  split at h
  · cases h
  next count value minimum hlead =>
  split_ifs at h
  split at h
  · cases h
  · split_ifs at h
    cases h
    unfold leadByte at hlead
    split_ifs at hlead <;> cases hlead <;> decide

/-- The loop of `nomo_http_stream_utf8_prefix`: the end of the last character within the limit. -/
def utf8PrefixFrom (data : List UInt8) (maximum : ℕ) (eof : Bool) (index : ℕ) : Option ℕ :=
  if index < maximum then
    match _hwidth : utf8Width (data.drop index) with
    | .invalid => none
    | .incomplete => if eof then none else some index
    | .complete width =>
      if maximum < index + width then some index
      else utf8PrefixFrom data maximum eof (index + width)
  else some index
termination_by maximum - index
decreasing_by
  have hpos := utf8Width_pos _hwidth
  omega

/-- `nomo_http_stream_utf8_prefix`: the length of the longest beginning of whole characters within the
limit, unless the characters before it end in something invalid. -/
def utf8Prefix (data : List UInt8) (limit : ℕ) (eof : Bool) : Option ℕ :=
  utf8PrefixFrom data (min data.length limit) eof 0

/-! ## Texts -/

/-- A character other than zero. -/
def IsTextScalar (scalar : ℕ) : Prop := IsScalar scalar ∧ scalar ≠ 0

/-- A text in UTF-8 without the character zero. -/
def IsText (text : List UInt8) : Prop :=
  ∃ scalars : List ℕ, (∀ scalar ∈ scalars, IsTextScalar scalar) ∧
    text = scalars.flatMap encodeUtf8

theorem isText_nil : IsText [] := ⟨[], by simp, rfl⟩

theorem IsText.cons {scalar : ℕ} {rest : List UInt8} (hscalar : IsTextScalar scalar)
    (hrest : IsText rest) : IsText (encodeUtf8 scalar ++ rest) := by
  obtain ⟨scalars, hscalars, rfl⟩ := hrest
  exact ⟨scalar :: scalars, List.forall_mem_cons.mpr ⟨hscalar, hscalars⟩, rfl⟩

theorem IsText.append {first second : List UInt8} (hfirst : IsText first) (hsecond : IsText second) :
    IsText (first ++ second) := by
  obtain ⟨scalars, hscalars, rfl⟩ := hfirst
  obtain ⟨scalars', hscalars', rfl⟩ := hsecond
  exact ⟨scalars ++ scalars', List.forall_mem_append.mpr ⟨hscalars, hscalars'⟩, List.flatMap_append.symm⟩

theorem IsText.exists_cons {text : List UInt8} (h : IsText text) (hne : text ≠ []) :
    ∃ scalar rest, IsTextScalar scalar ∧ text = encodeUtf8 scalar ++ rest ∧ IsText rest := by
  obtain ⟨scalars, hscalars, rfl⟩ := h
  cases scalars with
  | nil => exact absurd rfl hne
  | cons scalar scalars =>
    obtain ⟨hscalar, hscalars⟩ := List.forall_mem_cons.mp hscalars
    exact ⟨scalar, _, hscalar, rfl, scalars, hscalars, rfl⟩

/-! ## The width of a character -/

theorem continuationValue_cons {bits : ℕ} (hbits : bits < 64) (value : ℕ) (rest : List UInt8) :
    continuationValue value (UInt8.ofNat (0x80 + bits) :: rest) =
      continuationValue (value * 64 + bits) rest := by
  have hbyte : (UInt8.ofNat (0x80 + bits)).toNat = 0x80 + bits :=
    UInt8.toNat_ofNat_of_lt' (by simp only [UInt8.size]; omega)
  have hhigh : (0x80 + bits) / 64 = 2 := by omega
  have hlow : (0x80 + bits) % 64 = bits := by omega
  rw [continuationValue, isContinuation, hbyte, hhigh, hlow]
  rfl

theorem continuation_eq {byte : UInt8} (h : isContinuation byte = true) :
    byte = UInt8.ofNat (0x80 + byte.toNat % 64) := by
  have hhigh : byte.toNat / 64 = 2 := by simpa [isContinuation] using h
  have hbyte : 0x80 + byte.toNat % 64 = byte.toNat := by omega
  rw [hbyte, UInt8.ofNat_toNat]

theorem exists_of_continuationValue {value result : ℕ} {byte : UInt8} {rest : List UInt8}
    (h : continuationValue value (byte :: rest) = some result) :
    ∃ bits < 64, byte = UInt8.ofNat (0x80 + bits) ∧
      continuationValue (value * 64 + bits) rest = some result := by
  rw [continuationValue] at h
  split_ifs at h with hbyte
  exact ⟨_, Nat.mod_lt _ (by decide), continuation_eq hbyte, h⟩

theorem leadByte_cases {first : UInt8} {count value minimum : ℕ}
    (h : leadByte first = some (count, value, minimum)) :
    (count = 2 ∧ minimum = 0x80 ∧ value < 32 ∧ first = UInt8.ofNat (0xc0 + value)) ∨
      (count = 3 ∧ minimum = 0x800 ∧ value < 16 ∧ first = UInt8.ofNat (0xe0 + value)) ∨
      (count = 4 ∧ minimum = 0x10000 ∧ value < 8 ∧ first = UInt8.ofNat (0xf0 + value)) := by
  unfold leadByte at h
  split_ifs at h with h2 h3 h4
  · cases h
    have hfirst : 0xc0 + first.toNat % 32 = first.toNat := by omega
    exact .inl ⟨rfl, rfl, Nat.mod_lt _ (by decide), by rw [hfirst, UInt8.ofNat_toNat]⟩
  · cases h
    have hfirst : 0xe0 + first.toNat % 16 = first.toNat := by omega
    exact .inr (.inl ⟨rfl, rfl, Nat.mod_lt _ (by decide), by rw [hfirst, UInt8.ofNat_toNat]⟩)
  · cases h
    have hfirst : 0xf0 + first.toNat % 8 = first.toNat := by omega
    exact .inr (.inr ⟨rfl, rfl, Nat.mod_lt _ (by decide), by rw [hfirst, UInt8.ofNat_toNat]⟩)

theorem leadByte_two {value : ℕ} (h : 2 ≤ value) (hvalue : value < 32) :
    leadByte (UInt8.ofNat (0xc0 + value)) = some (2, value, 0x80) := by
  have hfirst : (UInt8.ofNat (0xc0 + value)).toNat = 0xc0 + value :=
    UInt8.toNat_ofNat_of_lt' (by simp only [UInt8.size]; omega)
  rw [leadByte, hfirst, if_pos (by omega)]
  congr 3
  omega

theorem leadByte_three {value : ℕ} (hvalue : value < 16) :
    leadByte (UInt8.ofNat (0xe0 + value)) = some (3, value, 0x800) := by
  have hfirst : (UInt8.ofNat (0xe0 + value)).toNat = 0xe0 + value :=
    UInt8.toNat_ofNat_of_lt' (by simp only [UInt8.size]; omega)
  rw [leadByte, hfirst, if_neg (by omega), if_pos (by omega)]
  congr 3
  omega

theorem leadByte_four {value : ℕ} (hvalue : value < 5) :
    leadByte (UInt8.ofNat (0xf0 + value)) = some (4, value, 0x10000) := by
  have hfirst : (UInt8.ofNat (0xf0 + value)).toNat = 0xf0 + value :=
    UInt8.toNat_ofNat_of_lt' (by simp only [UInt8.size]; omega)
  rw [leadByte, hfirst, if_neg (by omega), if_neg (by omega), if_pos (by omega)]
  congr 3
  omega

theorem utf8Width_lead {first : UInt8} {count value minimum : ℕ}
    (hlead : leadByte first = some (count, value, minimum)) (rest : List UInt8) :
    utf8Width (first :: rest) =
      if rest.length + 1 < count then .incomplete
      else match continuationValue value (rest.take (count - 1)) with
        | none => .invalid
        | some value =>
          if value < minimum ∨ 0x10ffff < value ∨ (0xd800 ≤ value ∧ value ≤ 0xdfff) then .invalid
          else .complete count := by
  have hfirst : 0x7f < first.toNat := by
    unfold leadByte at hlead
    split_ifs at hlead <;> omega
  rw [utf8Width, if_neg (by omega), if_neg (by omega), hlead]

theorem utf8Width_encode {scalar : ℕ} (h : IsTextScalar scalar) (more : List UInt8) :
    utf8Width (encodeUtf8 scalar ++ more) = .complete (encodeUtf8 scalar).length := by
  obtain ⟨⟨hmax, hsurrogate⟩, hzero⟩ := h
  unfold encodeUtf8
  split_ifs with h1 h2 h3
  · have hfirst : (UInt8.ofNat scalar).toNat = scalar :=
      UInt8.toNat_ofNat_of_lt' (by simp only [UInt8.size]; omega)
    rw [List.singleton_append, utf8Width, hfirst, if_neg hzero, if_pos h1]
    rfl
  · have hvalue : scalar / 64 * 64 + scalar % 64 = scalar := by omega
    simp only [List.cons_append, List.nil_append]
    rw [utf8Width_lead (leadByte_two (by omega) (by omega)), if_neg (by simp), List.take_succ_cons,
      List.take_zero, continuationValue_cons (Nat.mod_lt _ (by decide)), hvalue, continuationValue]
    exact if_neg (by omega)
  · have hvalue : (scalar / 4096 * 64 + scalar / 64 % 64) * 64 + scalar % 64 = scalar := by omega
    simp only [List.cons_append, List.nil_append]
    rw [utf8Width_lead (leadByte_three (by omega)), if_neg (by simp), List.take_succ_cons,
      List.take_succ_cons, List.take_zero, continuationValue_cons (Nat.mod_lt _ (by decide)),
      continuationValue_cons (Nat.mod_lt _ (by decide)), hvalue, continuationValue]
    exact if_neg (by omega)
  · have hvalue : ((scalar / 262144 * 64 + scalar / 4096 % 64) * 64 + scalar / 64 % 64) * 64 +
        scalar % 64 = scalar := by omega
    simp only [List.cons_append, List.nil_append]
    rw [utf8Width_lead (leadByte_four (by omega)), if_neg (by simp), List.take_succ_cons,
      List.take_succ_cons, List.take_succ_cons, List.take_zero,
      continuationValue_cons (Nat.mod_lt _ (by decide)),
      continuationValue_cons (Nat.mod_lt _ (by decide)),
      continuationValue_cons (Nat.mod_lt _ (by decide)), hvalue, continuationValue]
    exact if_neg (by omega)

theorem exists_cons_of_length {α : Type} (list : List α) (h : 0 < list.length) :
    ∃ first rest, list = first :: rest ∧ list.length = rest.length + 1 := by
  cases list with
  | nil => exact absurd h (Nat.not_lt_zero _)
  | cons first rest => exact ⟨first, rest, rfl, rfl⟩

theorem exists_of_utf8Width {data : List UInt8} {width : ℕ} (h : utf8Width data = .complete width) :
    ∃ scalar more, IsTextScalar scalar ∧ data = encodeUtf8 scalar ++ more ∧
      width = (encodeUtf8 scalar).length := by
  cases data with
  | nil => cases h
  | cons first rest =>
    by_cases hascii : first.toNat ≤ 0x7f
    · rw [utf8Width, if_pos hascii] at h
      split_ifs at h with hzero
      cases h
      have hencode : encodeUtf8 first.toNat = [first] := by
        rw [encodeUtf8, if_pos hascii, UInt8.ofNat_toNat]
      refine ⟨first.toNat, rest, ⟨⟨by omega, by omega⟩, hzero⟩, ?_⟩
      rw [hencode]
      exact ⟨rfl, rfl⟩
    rw [utf8Width, if_neg (by omega), if_neg hascii] at h
    split at h
    · cases h
    next count value minimum hlead =>
    split_ifs at h with hlength
    split at h
    · cases h
    next scalar hscalar =>
    split_ifs at h with hrange
    cases h
    -- the bytes after the first, one at a time
    obtain ⟨rfl, rfl, hvalue, rfl⟩ | ⟨rfl, rfl, hvalue, rfl⟩ | ⟨rfl, rfl, hvalue, rfl⟩ :=
      leadByte_cases hlead
    · obtain ⟨second, rest, rfl, -⟩ := exists_cons_of_length rest (by omega)
      rw [List.take_succ_cons, List.take_zero] at hscalar
      obtain ⟨bits, hbits, rfl, hdone⟩ := exists_of_continuationValue hscalar
      cases hdone
      have hhigh : (value * 64 + bits) / 64 = value := by omega
      have hlow : (value * 64 + bits) % 64 = bits := by omega
      refine ⟨value * 64 + bits, rest, ⟨⟨by omega, by omega⟩, by omega⟩, ?_⟩
      rw [encodeUtf8, if_neg (by omega), if_pos (by omega), hhigh, hlow]
      exact ⟨rfl, rfl⟩
    · obtain ⟨second, rest, rfl, hrest⟩ := exists_cons_of_length rest (by omega)
      obtain ⟨third, rest, rfl, -⟩ := exists_cons_of_length rest (by omega)
      rw [List.take_succ_cons, List.take_succ_cons, List.take_zero] at hscalar
      obtain ⟨bits, hbits, rfl, hnext⟩ := exists_of_continuationValue hscalar
      obtain ⟨bits', hbits', rfl, hdone⟩ := exists_of_continuationValue hnext
      cases hdone
      have hfirst : ((value * 64 + bits) * 64 + bits') / 4096 = value := by omega
      have hhigh : ((value * 64 + bits) * 64 + bits') / 64 % 64 = bits := by omega
      have hlow : ((value * 64 + bits) * 64 + bits') % 64 = bits' := by omega
      refine ⟨(value * 64 + bits) * 64 + bits', rest, ⟨⟨by omega, by omega⟩, by omega⟩, ?_⟩
      rw [encodeUtf8, if_neg (by omega), if_neg (by omega), if_pos (by omega), hfirst, hhigh, hlow]
      exact ⟨rfl, rfl⟩
    · obtain ⟨second, rest, rfl, hrest⟩ := exists_cons_of_length rest (by omega)
      obtain ⟨third, rest, rfl, hrest'⟩ := exists_cons_of_length rest (by omega)
      obtain ⟨fourth, rest, rfl, -⟩ := exists_cons_of_length rest (by omega)
      rw [List.take_succ_cons, List.take_succ_cons, List.take_succ_cons, List.take_zero] at hscalar
      obtain ⟨bits, hbits, rfl, hnext⟩ := exists_of_continuationValue hscalar
      obtain ⟨bits', hbits', rfl, hnext'⟩ := exists_of_continuationValue hnext
      obtain ⟨bits'', hbits'', rfl, hdone⟩ := exists_of_continuationValue hnext'
      cases hdone
      have hfirst : (((value * 64 + bits) * 64 + bits') * 64 + bits'') / 262144 = value := by omega
      have hhigh : (((value * 64 + bits) * 64 + bits') * 64 + bits'') / 4096 % 64 = bits := by omega
      have hmiddle : (((value * 64 + bits) * 64 + bits') * 64 + bits'') / 64 % 64 = bits' := by
        omega
      have hlow : (((value * 64 + bits) * 64 + bits') * 64 + bits'') % 64 = bits'' := by omega
      refine ⟨((value * 64 + bits) * 64 + bits') * 64 + bits'', rest, ⟨⟨by omega, by omega⟩, by omega⟩, ?_⟩
      rw [encodeUtf8, if_neg (by omega), if_neg (by omega), if_neg (by omega), hfirst, hhigh, hmiddle, hlow]
      exact ⟨rfl, rfl⟩

theorem IsText.utf8Width {text : List UInt8} (h : IsText text) (hne : text ≠ []) :
    ∃ width, utf8Width text = .complete width := by
  obtain ⟨scalar, rest, hscalar, rfl, -⟩ := h.exists_cons hne
  exact ⟨_, utf8Width_encode hscalar rest⟩

theorem utf8Width_le {data : List UInt8} {width : ℕ} (h : utf8Width data = .complete width) :
    width ≤ data.length ∧ width ≤ 4 := by
  obtain ⟨scalar, more, -, rfl, rfl⟩ := exists_of_utf8Width h
  constructor
  · rw [List.length_append]
    exact Nat.le_add_right _ _
  · unfold encodeUtf8
    split_ifs <;> simp

theorem utf8Width_append_of_invalid {data : List UInt8} (h : utf8Width data = .invalid)
    (more : List UInt8) : utf8Width (data ++ more) = .invalid := by
  cases data with
  | nil => cases h
  | cons first rest =>
    rw [List.cons_append]
    rw [utf8Width] at h ⊢
    split_ifs at h ⊢ with hzero hascii
    · rfl
    cases hlead : leadByte first with
    | none => rfl
    | some lead =>
      obtain ⟨count, value, minimum⟩ := lead
      simp only [hlead] at h ⊢
      split_ifs at h with hlength
      have htake : (rest ++ more).take (count - 1) = rest.take (count - 1) :=
        List.take_append_of_le_length (by omega)
      rw [if_neg (by rw [List.length_append]; omega), htake]
      exact h

theorem IsText.of_append {first second : List UInt8} (hfirst : IsText first)
    (h : IsText (first ++ second)) : IsText second := by
  obtain ⟨scalars, hscalars, rfl⟩ := hfirst
  induction scalars with
  | nil => exact h
  | cons scalar scalars ih =>
    obtain ⟨hscalar, hscalars⟩ := List.forall_mem_cons.mp hscalars
    rw [List.flatMap_cons, List.append_assoc] at h
    refine ih hscalars ?_
    have hne : encodeUtf8 scalar ++ (scalars.flatMap encodeUtf8 ++ second) ≠ [] := by
      intro hnil
      have hwidth := utf8Width_encode hscalar (scalars.flatMap encodeUtf8 ++ second)
      rw [hnil] at hwidth
      cases hwidth
    obtain ⟨scalar', rest, hscalar', heq, hrest⟩ := h.exists_cons hne
    have hwidth := utf8Width_encode hscalar (scalars.flatMap encodeUtf8 ++ second)
    rw [heq, utf8Width_encode hscalar'] at hwidth
    have hlength : (encodeUtf8 scalar').length = (encodeUtf8 scalar).length := by
      injection hwidth
    rw [(List.append_inj heq hlength.symm).2]
    exact hrest

/-! ## The longest beginning of whole characters -/

/-- What makes `utf8_prefix` fail: an invalid byte, or the end within a character. -/
def IsBroken (eof : Bool) (rest : List UInt8) : Prop :=
  utf8Width rest = .invalid ∨ (utf8Width rest = .incomplete ∧ rest ≠ [] ∧ eof = true)

theorem IsBroken.not_isText {eof : Bool} {rest more : List UInt8} (h : IsBroken eof rest)
    (hmore : eof = true → more = []) : ¬ IsText (rest ++ more) := by
  intro htext
  rcases h with hinvalid | ⟨hincomplete, hne, heof⟩
  · have hne : rest ++ more ≠ [] := by
      intro hnil
      rw [(List.append_eq_nil_iff.mp hnil).1] at hinvalid
      cases hinvalid
    obtain ⟨width, hwidth⟩ := htext.utf8Width hne
    rw [utf8Width_append_of_invalid hinvalid] at hwidth
    cases hwidth
  · rw [hmore heof, List.append_nil] at htext
    obtain ⟨width, hwidth⟩ := htext.utf8Width hne
    rw [hincomplete] at hwidth
    cases hwidth

variable {data : List UInt8} {limit maximum index n : ℕ} {eof : Bool}

theorem isText_take_add {width : ℕ} (htext : IsText (data.take index))
    (hwidth : utf8Width (data.drop index) = .complete width) :
    IsText (data.take (index + width)) := by
  obtain ⟨scalar, more, hscalar, hdrop, rfl⟩ := exists_of_utf8Width hwidth
  rw [List.take_add, hdrop, List.take_left]
  have hchar := isText_nil.cons hscalar
  rw [List.append_nil] at hchar
  exact htext.append hchar

theorem utf8PrefixFrom_of_lt (h : index < maximum) :
    utf8PrefixFrom data maximum eof index =
      match utf8Width (data.drop index) with
      | .invalid => none
      | .incomplete => if eof then none else some index
      | .complete width =>
        if maximum < index + width then some index
        else utf8PrefixFrom data maximum eof (index + width) := by
  rw [utf8PrefixFrom, if_pos h]
  split <;> next hwidth => simp only [hwidth]

theorem utf8PrefixFrom_some (htext : IsText (data.take index)) (hindex : index ≤ maximum)
    (h : utf8PrefixFrom data maximum eof index = some n) :
    index ≤ n ∧ n ≤ maximum ∧ IsText (data.take n) := by
  induction hroom : maximum - index using Nat.strong_induction_on generalizing index with
  | _ room ih =>
  by_cases hlt : index < maximum
  · rw [utf8PrefixFrom_of_lt hlt] at h
    cases hwidth : utf8Width (data.drop index) with
    | invalid =>
      rw [hwidth] at h
      cases h
    | incomplete =>
      simp only [hwidth] at h
      split_ifs at h
      cases h
      exact ⟨le_rfl, hindex, htext⟩
    | complete width =>
      simp only [hwidth] at h
      split_ifs at h with hfull
      · cases h
        exact ⟨le_rfl, hindex, htext⟩
      · have hpos := utf8Width_pos hwidth
        obtain ⟨hn, hrest⟩ := ih _ (by omega) (isText_take_add htext hwidth) (by omega) h rfl
        exact ⟨by omega, hrest⟩
  · rw [utf8PrefixFrom, if_neg hlt] at h
    cases h
    exact ⟨le_rfl, hindex, htext⟩

theorem utf8PrefixFrom_none (htext : IsText (data.take index)) (hmaximum : maximum ≤ data.length)
    (h : utf8PrefixFrom data maximum eof index = none) :
    ∃ text rest, data = text ++ rest ∧ IsText text ∧ IsBroken eof rest := by
  induction hroom : maximum - index using Nat.strong_induction_on generalizing index with
  | _ room ih =>
  by_cases hlt : index < maximum
  · rw [utf8PrefixFrom_of_lt hlt] at h
    have hsplit : data = data.take index ++ data.drop index := (List.take_append_drop _ _).symm
    cases hwidth : utf8Width (data.drop index) with
    | invalid => exact ⟨_, _, hsplit, htext, .inl hwidth⟩
    | incomplete =>
      simp only [hwidth] at h
      split_ifs at h with heof
      have hne : data.drop index ≠ [] := by
        rw [Ne, List.drop_eq_nil_iff]
        omega
      exact ⟨_, _, hsplit, htext, .inr ⟨hwidth, hne, heof⟩⟩
    | complete width =>
      simp only [hwidth] at h
      split_ifs at h with hfull
      have hpos := utf8Width_pos hwidth
      exact ih _ (by omega) (isText_take_add htext hwidth) h rfl
  · rw [utf8PrefixFrom, if_neg hlt] at h
    cases h

/-- **The prefix is a text within the limit.** -/
theorem utf8Prefix_some (h : utf8Prefix data limit eof = some n) :
    n ≤ limit ∧ n ≤ data.length ∧ IsText (data.take n) := by
  have htext : IsText (data.take 0) := isText_nil
  obtain ⟨-, hn, htake⟩ := utf8PrefixFrom_some htext (Nat.zero_le _) h
  exact ⟨hn.trans (min_le_right _ _), hn.trans (min_le_left _ _), htake⟩

/-- **There is no prefix only where the buffer goes on with something broken.** -/
theorem utf8Prefix_none (h : utf8Prefix data limit eof = none) :
    ∃ text rest, data = text ++ rest ∧ IsText text ∧ IsBroken eof rest := by
  have htext : IsText (data.take 0) := isText_nil
  exact utf8PrefixFrom_none htext (min_le_left _ _) h

/-- **Progress**: with room for the longest character the prefix is empty only if no whole character has
come yet, and more may come. -/
theorem utf8Prefix_zero (hlimit : 4 ≤ limit) (h : utf8Prefix data limit eof = some 0) :
    data = [] ∨ (utf8Width data = .incomplete ∧ eof = false) := by
  by_cases hnil : data = []
  · exact .inl hnil
  right
  have hlength : 0 < data.length := List.length_pos_iff.mpr hnil
  rw [utf8Prefix, utf8PrefixFrom_of_lt (by omega), List.drop_zero] at h
  cases hwidth : utf8Width data with
  | invalid =>
    rw [hwidth] at h
    cases h
  | incomplete =>
    simp only [hwidth] at h
    split_ifs at h with heof
    exact ⟨rfl, by simpa using heof⟩
  | complete width =>
    -- a whole character fits, so the loop goes on behind it
    exfalso
    have hpos := utf8Width_pos hwidth
    obtain ⟨hle, hfour⟩ := utf8Width_le hwidth
    simp only [hwidth] at h
    rw [if_neg (by omega)] at h
    have htext : IsText (data.take (0 + width)) :=
      isText_take_add isText_nil (by rw [List.drop_zero]; exact hwidth)
    obtain ⟨hn, -⟩ := utf8PrefixFrom_some htext (by omega) h
    omega

end Nomo.Streams
