import Mathlib.Data.List.TakeWhile
import Mathlib.Tactic

/-!
# C strings and searching

The text of a C string is what is before its first zero byte. `strchr` and `strstr` search a text for a
byte and for another text, from the left; where a text is only read in part, a search finds what it finds
in the whole text if it has come (`strstr_take`).
-/

namespace Nomo.Lib

/-- The text of a C string. -/
def cstring (bytes : List UInt8) : List UInt8 := bytes.takeWhile (· ≠ 0)

/-- The index of the first byte of a kind. -/
def strchr (text : List UInt8) (byte : UInt8) : Option ℕ := text.findIdx? (· = byte)

/-- The index of the first occurrence of a text. -/
def strstr (needle : List UInt8) : List UInt8 → Option ℕ
  | [] => if needle = [] then some 0 else none
  | byte :: rest =>
    if needle.isPrefixOf (byte :: rest) then some 0 else (strstr needle rest).map (· + 1)

/-! ## Texts -/

theorem cstring_take (bytes : List UInt8) (n : ℕ) : cstring (bytes.take n) = (cstring bytes).take n := by
  induction bytes generalizing n with
  | nil => simp [cstring]
  | cons byte rest ih =>
    cases n with
    | zero => simp [cstring]
    | succ n =>
      have hrest := ih n
      unfold cstring at hrest ⊢
      rw [List.take_succ_cons, List.takeWhile_cons, List.takeWhile_cons]
      split_ifs
      · rw [List.take_succ_cons, hrest]
      · rfl

theorem cstring_isPrefix (bytes : List UInt8) : cstring bytes <+: bytes := List.takeWhile_prefix _

/-! ## Searching -/

variable {needle text : List UInt8} {i n : ℕ}

theorem prefix_of_strstr (h : strstr needle text = some i) :
    needle <+: text.drop i ∧ i + needle.length ≤ text.length := by
  induction text generalizing i with
  | nil =>
    rw [strstr] at h
    split_ifs at h with hneedle
    cases h
    rw [hneedle]
    exact ⟨List.nil_prefix, le_rfl⟩
  | cons byte rest ih =>
    rw [strstr] at h
    split_ifs at h with hbegins
    · cases h
      have hle := List.isPrefixOf_iff_prefix.mp hbegins
      exact ⟨hle, by simpa using hle.length_le⟩
    · obtain ⟨j, hj, rfl⟩ := Option.map_eq_some_iff.mp h
      obtain ⟨hle, hlength⟩ := ih hj
      exact ⟨hle, by rw [List.length_cons]; omega⟩

/-- **In a first part of a text a search finds what it finds in the text, if it ends there.** -/
theorem strstr_take (hne : needle ≠ []) (text : List UInt8) (n : ℕ) :
    strstr needle (text.take n) = (strstr needle text).filter fun i => i + needle.length ≤ n := by
  have hpos : 0 < needle.length := List.length_pos_iff.mpr hne
  induction text generalizing n with
  | nil => simp [strstr, hne]
  | cons byte rest ih =>
    cases n with
    | zero =>
      rw [List.take_zero, strstr, if_neg hne, eq_comm, Option.filter_eq_none_iff]
      intro i _
      simp only [decide_eq_true_eq]
      omega
    | succ n =>
      rw [List.take_succ_cons, strstr, strstr, ih]
      have hpart : needle <+: byte :: rest.take n ↔ needle <+: byte :: rest ∧ needle.length ≤ n + 1 := by
        rw [← List.take_succ_cons]
        exact List.prefix_take_iff
      by_cases hbegins : needle <+: byte :: rest
      · rw [if_pos (List.isPrefixOf_iff_prefix.mpr hbegins)]
        by_cases hlength : needle.length ≤ n + 1
        · rw [if_pos (List.isPrefixOf_iff_prefix.mpr (hpart.mpr ⟨hbegins, hlength⟩))]
          simp [Option.filter, hlength]
        rw [if_neg fun h => hlength (hpart.mp (List.isPrefixOf_iff_prefix.mp h)).2]
        have hnone : (strstr needle rest).filter (fun i => decide (i + needle.length ≤ n)) = none := by
          rw [Option.filter_eq_none_iff]
          intro i _
          simp only [decide_eq_true_eq]
          omega
        rw [hnone]
        simp [Option.filter, hlength]
      · rw [if_neg fun h => hbegins (List.isPrefixOf_iff_prefix.mp h),
          if_neg fun h => hbegins (hpart.mp (List.isPrefixOf_iff_prefix.mp h)).1]
        cases strstr needle rest with
        | none => rfl
        | some i =>
          simp only [Option.filter, Option.map_some]
          by_cases hle : i + needle.length ≤ n
          · have hle' : i + 1 + needle.length ≤ n + 1 := by omega
            simp [hle, hle']
          · have hle' : ¬ i + 1 + needle.length ≤ n + 1 := by omega
            simp [hle, hle']

end Nomo.Lib
