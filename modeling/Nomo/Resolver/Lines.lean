import Nomo.Resolver.Archive

/-!
# Reading back lines, numbers and paths

An archive is read back line by line. A line that was written comes back if its text has no newline,
the fields of a header come back if none of them has a space, and a number in decimal is read as the
number.
-/

namespace Nomo.Resolver

open Nomo.Lib Nomo.Lib.Checked Nomo.SupplyChain

/-! ## Bytes -/

theorem bytes_eq_flatMap (text : String) :
    bytes text = text.toList.flatMap String.utf8EncodeChar := by
  rw [← bytes_ofList, String.ofList_toList]

theorem bytes_append (a b : String) : bytes (a ++ b) = bytes a ++ bytes b := by
  simp [bytes_eq_flatMap]

theorem fromUTF8?_bytes (text : String) : String.fromUTF8? ⟨(bytes text).toArray⟩ = some text := by
  have hbytes : (⟨(bytes text).toArray⟩ : ByteArray) = text.toByteArray := by
    simp [bytes]
  rw [hbytes, String.fromUTF8?, dif_pos text.isValidUTF8]
  rfl

theorem ascii_mem_utf8EncodeChar {c d : Char} (hd : d.toNat < 128) :
    UInt8.ofNat d.toNat ∈ String.utf8EncodeChar c ↔ c = d := by
  refine ⟨fun h => ?_, ?_⟩
  · have hval : c.toNat = d.toNat := by
      rw [← Char.toNat_val]
      unfold String.utf8EncodeChar at h
      dsimp only at h
      split_ifs at h <;>
        simp only [List.mem_cons, List.not_mem_nil, or_false, ← UInt8.toNat_inj,
          UInt8.toNat_ofNat'] at h <;>
        omega
    rw [← Char.ofNat_toNat c, hval, Char.ofNat_toNat]
  · rintro rfl
    have hle : c.val.toNat ≤ 127 := Nat.le_of_lt_succ hd
    unfold String.utf8EncodeChar
    dsimp only
    rw [if_pos hle]
    exact List.mem_singleton_self _

theorem ascii_mem_bytes {text : String} {d : Char} (hd : d.toNat < 128) :
    UInt8.ofNat d.toNat ∈ bytes text ↔ d ∈ text.toList := by
  simp [bytes_eq_flatMap, ascii_mem_utf8EncodeChar hd]

theorem newline_mem_bytes {text : String} : (10 : UInt8) ∈ bytes text ↔ '\n' ∈ text.toList :=
  ascii_mem_bytes (d := '\n') (by decide)

theorem slash_mem_bytes {text : String} : (47 : UInt8) ∈ bytes text ↔ '/' ∈ text.toList :=
  ascii_mem_bytes (d := '/') (by decide)

/-! ## Lines -/

theorem readArchiveLine_of_drop {archive rest : List UInt8} {cursor : Nat} {text : String}
    (hdrop : archive.drop cursor = bytes text ++ 10 :: rest) (hline : '\n' ∉ text.toList) :
    readArchiveLine archive cursor = .ok (text, cursor + (bytes text).length + 1) := by
  have hbefore : (bytes text ++ 10 :: rest).takeWhile (· != 10) = bytes text := by
    rw [List.takeWhile_append_of_pos]
    · simp
    · intro b hb
      simpa using fun h : b = 10 => hline (newline_mem_bytes.1 (h ▸ hb))
  simp only [readArchiveLine, hdrop, hbefore, fromUTF8?_bytes]
  simp [bind_eq_ok]

theorem newline_not_mem_of_readArchiveLine {archive : List UInt8} {cursor next : Nat}
    {text : String} (h : readArchiveLine archive cursor = .ok (text, next)) :
    '\n' ∉ text.toList := by
  simp only [readArchiveLine, bind_eq_ok, require_eq_ok, orElse_eq_ok, pure_eq_ok, Prod.mk.injEq] at h
  obtain ⟨_, -, line, hline, rfl, -⟩ := h
  rw [← newline_mem_bytes, bytes_of_fromUTF8? hline]
  intro hmem
  simpa using List.mem_takeWhile_imp hmem

/-! ## Fields -/

theorem splitChars_eq_splitOn (separator : Char) (cs : List Char) :
    splitChars separator cs = cs.splitOn separator := by
  induction cs with
  | nil => rfl
  | cons c cs ih =>
    rw [splitChars, ih, List.splitOn_cons_eq_if_modifyHead]
    split_ifs with hsep hsep' hsep'
    · rfl
    · simp [hsep] at hsep'
    · simp at hsep'
      contradiction
    · cases hparts : cs.splitOn separator with
      | nil => exact absurd hparts (List.splitOn_ne_nil separator cs)
      | cons part parts => rfl

theorem split_of_not_mem {separator : Char} {text : String} (h : separator ∉ text.toList) :
    split separator text = [text] := by
  rw [split, splitChars_eq_splitOn, List.splitOn_eq_singleton h]
  simp

theorem split_append (separator : Char) (a b : String) :
    split separator (a ++ String.singleton separator ++ b) = split separator a ++ split separator b := by
  simp only [split, splitChars_eq_splitOn, String.toList_append, String.toList_singleton,
    List.append_assoc, List.singleton_append, List.splitOn_append_cons_self, List.map_append]

theorem split_ne_nil (separator : Char) (text : String) : split separator text ≠ [] := by
  simp [split, splitChars_eq_splitOn]

theorem one_lt_length_split {separator : Char} {text : String} (h : separator ∈ text.toList) :
    1 < (split separator text).length := by
  obtain ⟨before, after, htext, -⟩ := List.eq_append_cons_of_mem h
  rw [split, List.length_map, splitChars_eq_splitOn, htext, List.splitOn_append_cons_self,
    List.length_append]
  have hbefore := List.length_pos_iff.2 (List.splitOn_ne_nil separator before)
  have hafter := List.length_pos_iff.2 (List.splitOn_ne_nil separator after)
  omega

theorem mem_of_mem_splitChars {separator c : Char} {cs field : List Char}
    (hfield : field ∈ splitChars separator cs) (hc : c ∈ field) : c ∈ cs := by
  induction cs generalizing field with
  | nil => simp_all [splitChars]
  | cons d cs ih =>
    simp only [splitChars] at hfield
    split_ifs at hfield with hsep
    · rcases List.mem_cons.1 hfield with rfl | hfield
      · simp at hc
      · exact List.mem_cons_of_mem d (ih hfield hc)
    cases hparts : splitChars separator cs with
    | nil => simp_all
    | cons part parts =>
      rw [hparts] at hfield ih
      rcases List.mem_cons.1 hfield with rfl | hfield
      · rcases List.mem_cons.1 hc with rfl | hc
        · exact List.mem_cons_self
        · exact List.mem_cons_of_mem d (ih List.mem_cons_self hc)
      · exact List.mem_cons_of_mem d (ih (List.mem_cons_of_mem part hfield) hc)

theorem mem_of_mem_split {separator c : Char} {text field : String}
    (hfield : field ∈ split separator text) (hc : c ∈ field.toList) : c ∈ text.toList := by
  obtain ⟨cs, hcs, rfl⟩ := List.mem_map.1 hfield
  exact mem_of_mem_splitChars hcs (by simpa using hc)

theorem not_mem_of_mem_splitChars {separator : Char} {cs field : List Char}
    (hfield : field ∈ splitChars separator cs) : separator ∉ field := by
  induction cs generalizing field with
  | nil => simp_all [splitChars]
  | cons d cs ih =>
    simp only [splitChars] at hfield
    split_ifs at hfield with hsep
    · rcases List.mem_cons.1 hfield with rfl | hfield
      · simp
      · exact ih hfield
    cases hparts : splitChars separator cs with
    | nil =>
      rw [hparts] at hfield
      obtain rfl := List.mem_singleton.1 hfield
      simpa using Ne.symm hsep
    | cons part parts =>
      rw [hparts] at hfield ih
      rcases List.mem_cons.1 hfield with rfl | hfield
      · intro hmem
        rcases List.mem_cons.1 hmem with hmem | hmem
        · exact hsep hmem.symm
        · exact ih List.mem_cons_self hmem
      · exact ih (List.mem_cons_of_mem part hfield)

theorem not_mem_of_mem_split {separator : Char} {text field : String}
    (hfield : field ∈ split separator text) : separator ∉ field.toList := by
  obtain ⟨cs, hcs, rfl⟩ := List.mem_map.1 hfield
  rw [String.toList_ofList]
  exact not_mem_of_mem_splitChars hcs

theorem intercalate_split (separator : Char) (text : String) :
    (String.singleton separator).intercalate (split separator text) = text := by
  refine String.toList_inj.1 ?_
  rw [String.toList_intercalate, split, splitChars_eq_splitOn, String.toList_singleton, List.map_map]
  have hmap : String.toList ∘ String.ofList = id := funext fun _ => String.toList_ofList
  rw [hmap, List.map_id, List.intercalate_splitOn]

theorem flatMap_intercalate {α β : Type*} (f : α → List β) (separator : List α)
    (parts : List (List α)) :
    (separator.intercalate parts).flatMap f =
      (separator.flatMap f).intercalate (parts.map (·.flatMap f)) := by
  induction parts with
  | nil => rfl
  | cons part parts ih =>
    cases parts with
    | nil => simp
    | cons other parts => simp [List.intercalate_cons_cons, ih]

theorem mem_of_mem_intercalate {α : Type*} {separator : List α} {parts : List (List α)} {a : α}
    (h : a ∈ separator.intercalate parts) : a ∈ separator ∨ ∃ part ∈ parts, a ∈ part := by
  induction parts with
  | nil => simp at h
  | cons part parts ih =>
    cases parts with
    | nil => exact .inr ⟨part, by simp, by simpa using h⟩
    | cons other parts =>
      rw [List.intercalate_cons_cons, List.mem_append, List.mem_append] at h
      rcases h with (h | h) | h
      · exact .inr ⟨part, List.mem_cons_self, h⟩
      · exact .inl h
      · obtain h | ⟨part', hpart', h⟩ := ih h
        · exact .inl h
        · exact .inr ⟨part', List.mem_cons_of_mem part hpart', h⟩

theorem bytes_intercalate_slash (fields : List String) :
    bytes ((String.singleton '/').intercalate fields) = [47].intercalate (fields.map bytes) := by
  rw [bytes_eq_flatMap, String.toList_intercalate, flatMap_intercalate, List.map_map]
  congr 1
  exact List.map_congr_left fun field _ => (bytes_eq_flatMap field).symm

/-! ## Numbers -/

@[simp] theorem parseUsize_repr {n : Nat} (h : n < 2 ^ 64) : parseUsize n.repr = some n := by
  have hlist : n.repr.toList = Nat.toDigits 10 n := Nat.toList_repr
  have hdigit (c) (hc : c ∈ Nat.toDigits 10 n) : c.isDigit = true :=
    Nat.isDigit_of_mem_toDigits (by omega) (by omega) hc
  have hvalue : (Nat.toDigits 10 n).foldl (fun n c => n * 10 + (c.toNat - 48)) 0 = n := by
    conv_rhs => rw [← Nat.ofDigitChars_ten_toDigits (n := n), Nat.ofDigitChars_eq_foldl]
    simp only [Nat.mul_comm]
    rfl
  have hplus (rest) : Nat.toDigits 10 n ≠ '+' :: rest := by
    intro hrest
    simpa using hdigit '+' (hrest ▸ List.mem_cons_self)
  simp only [parseUsize, hlist, hvalue]
  exact if_pos ⟨Nat.toDigits_ne_nil, List.all_eq_true.2 hdigit, h⟩

end Nomo.Resolver
