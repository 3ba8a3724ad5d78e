import Nomo.Lib.Checked

/-!
# Bytes and text

The encodings of `nomo_supply_chain/src/lib.rs:1137–1178` and of the canonical messages built from
them: lower-case hexadecimal, and fields of the form `name:length:value` with the length in bytes.
A field determines its value and what follows it, so a message made of fields determines all of
them.

Text is a `String`; the source's byte operations on text go through `bytes`, its UTF-8 encoding.
-/

namespace Nomo.SupplyChain

open Nomo.Lib.Checked

/-- The UTF-8 bytes of a text. -/
def bytes (text : String) : List UInt8 := text.toUTF8.data.toList

theorem bytes_inj {s t : String} : bytes s = bytes t ↔ s = t := by
  refine ⟨fun h => String.toByteArray_inj.1 (ByteArray.ext (Array.toList_inj.1 h)), ?_⟩
  rintro rfl
  rfl

theorem bytes_ofList (cs : List Char) :
    bytes (String.ofList cs) = cs.flatMap String.utf8EncodeChar := by
  show (cs.flatMap String.utf8EncodeChar).toByteArray.data.toList = _
  simp

/-! ## Hexadecimal -/

/-- `u8::is_ascii_hexdigit`. -/
def isHexDigit (b : UInt8) : Bool :=
  (48 ≤ b && b ≤ 57) || (65 ≤ b && b ≤ 70) || (97 ≤ b && b ≤ 102)

/-- The value of a hexadecimal digit. -/
def hexValue (b : UInt8) : UInt8 :=
  if b ≤ 57 then b - 48 else if b ≤ 70 then b - 55 else b - 87

/-- The digit for a value below sixteen. -/
def hexChar (b : UInt8) : Char := Char.ofNat (if b < 10 then 48 + b.toNat else 87 + b.toNat)

/-- `{byte:02x}`. -/
def hexPair (b : UInt8) : List Char := [hexChar (b / 16), hexChar (b % 16)]

/-- `encode_hex`. -/
def encodeHex (bs : List UInt8) : String := String.ofList (bs.flatMap hexPair)

/-- The bytes that pairs of digits stand for. -/
def decodePairs : List UInt8 → List UInt8
  | a :: b :: rest => (hexValue a * 16 + hexValue b) :: decodePairs rest
  | _ => []

/-- `decode_hex`. -/
def decodeHex (value : String) : Except String (List UInt8) := do
  require ((bytes value).length % 2 = 0 ∧ (bytes value).all isHexDigit = true)
    "hex value must contain an even number of hexadecimal digits"
  return decodePairs (bytes value)

theorem hexPair_spec (b : UInt8) : ∃ x y, (hexPair b).flatMap String.utf8EncodeChar = [x, y] ∧
    isHexDigit x = true ∧ isHexDigit y = true ∧ hexValue x * 16 + hexValue y = b := by
  have h : ∀ n : Fin 256, (hexPair (UInt8.ofNat n)).flatMap String.utf8EncodeChar
        = [(hexChar (UInt8.ofNat n / 16)).val.toUInt8, (hexChar (UInt8.ofNat n % 16)).val.toUInt8] ∧
      isHexDigit (hexChar (UInt8.ofNat n / 16)).val.toUInt8 = true ∧
      isHexDigit (hexChar (UInt8.ofNat n % 16)).val.toUInt8 = true ∧
      hexValue (hexChar (UInt8.ofNat n / 16)).val.toUInt8 * 16
        + hexValue (hexChar (UInt8.ofNat n % 16)).val.toUInt8 = UInt8.ofNat n := by
    decide +kernel
  have hb : UInt8.ofNat b.toNat = b := by simp
  have := h ⟨b.toNat, b.toNat_lt⟩
  simp only [hb] at this
  exact ⟨_, _, this⟩

theorem bytes_encodeHex (bs : List UInt8) :
    bytes (encodeHex bs) = bs.flatMap fun b => (hexPair b).flatMap String.utf8EncodeChar := by
  rw [encodeHex, bytes_ofList, List.flatMap_assoc]

theorem length_encodeHex (bs : List UInt8) : (bytes (encodeHex bs)).length = 2 * bs.length := by
  rw [bytes_encodeHex]
  induction bs with
  | nil => rfl
  | cons b bs ih =>
    obtain ⟨x, y, hxy, -⟩ := hexPair_spec b
    rw [List.flatMap_cons, List.length_append, ih, hxy]
    simp
    omega

theorem all_isHexDigit_encodeHex (bs : List UInt8) :
    (bytes (encodeHex bs)).all isHexDigit = true := by
  rw [bytes_encodeHex, List.all_eq_true]
  intro x hx
  obtain ⟨b, -, hx⟩ := List.mem_flatMap.1 hx
  obtain ⟨y, z, hyz, hy, hz, -⟩ := hexPair_spec b
  rw [hyz] at hx
  rcases List.mem_pair.1 hx with rfl | rfl
  · exact hy
  · exact hz

theorem decodePairs_encodeHex (bs : List UInt8) : decodePairs (bytes (encodeHex bs)) = bs := by
  rw [bytes_encodeHex]
  induction bs with
  | nil => rfl
  | cons b bs ih =>
    obtain ⟨x, y, hxy, -, -, hb⟩ := hexPair_spec b
    rw [List.flatMap_cons, hxy]
    show (hexValue x * 16 + hexValue y) ::
      decodePairs (bs.flatMap fun b => (hexPair b).flatMap String.utf8EncodeChar) = _
    rw [ih, hb]

@[simp] theorem decodeHex_encodeHex (bs : List UInt8) : decodeHex (encodeHex bs) = .ok bs := by
  simp [decodeHex, length_encodeHex, all_isHexDigit_encodeHex, decodePairs_encodeHex]

theorem encodeHex_inj {bs cs : List UInt8} : encodeHex bs = encodeHex cs ↔ bs = cs := by
  refine ⟨fun h => ?_, congrArg encodeHex⟩
  rw [← decodePairs_encodeHex bs, h, decodePairs_encodeHex]

/-! ## Text -/

/-- `u8::to_ascii_lowercase`. -/
def lowerByte (b : UInt8) : UInt8 := if 65 ≤ b ∧ b ≤ 90 then b + 32 else b

/-- `str::eq_ignore_ascii_case`. -/
def eqIgnoreAsciiCase (s t : String) : Bool := (bytes s).map lowerByte == (bytes t).map lowerByte

/-- `str::to_ascii_lowercase`. -/
def toAsciiLowercase (s : String) : String :=
  String.ofList (s.toList.map fun c => if 'A' ≤ c ∧ c ≤ 'Z' then Char.ofNat (c.toNat + 32) else c)

/-- The characters that `str::trim` removes: those with the property `White_Space`. -/
def isWhitespace (c : Char) : Bool :=
  (9 ≤ c.toNat && c.toNat ≤ 13) || c.toNat == 0x20 || c.toNat == 0x85 || c.toNat == 0xA0
    || c.toNat == 0x1680 || (0x2000 ≤ c.toNat && c.toNat ≤ 0x200A) || c.toNat == 0x2028
    || c.toNat == 0x2029 || c.toNat == 0x202F || c.toNat == 0x205F || c.toNat == 0x3000

/-- `value.trim().is_empty()`. -/
def isBlank (value : String) : Bool := value.toList.all isWhitespace

/-- `validate_sha256` (`lib.rs:1163–1172`). -/
def validateSha256 (label digest : String) : Except String Unit :=
  match (bytes "sha256:").isPrefixOf? (bytes digest) with
  | none => .error s!"{label} must use sha256:<hex>"
  | some hex => require (hex.length = 64 ∧ hex.all isHexDigit = true)
      s!"{label} must contain 64 hexadecimal digits"

theorem ne_empty_of_validateSha256 {label digest : String} {u : Unit}
    (h : validateSha256 label digest = .ok u) : digest ≠ "" := by
  rintro rfl
  exact absurd (show validateSha256 label "" = .error _ from rfl) (by rw [h]; simp)

/-! ## Canonical fields -/

/-- `canonical_field`: what it appends for a name and a value. -/
def canonicalField (name value : String) : List UInt8 :=
  bytes name ++ (58 :: (bytes (toString (bytes value).length) ++ (58 :: (bytes value ++ [10]))))

theorem colon_not_mem_decimal (n : Nat) : (58 : UInt8) ∉ bytes (toString n) := by
  show 58 ∉ bytes (Nat.repr n)
  rw [Nat.repr_eq_ofList_toDigits, bytes_ofList, List.mem_flatMap]
  rintro ⟨c, hc, hmem⟩
  have hdigit := Nat.isDigit_of_mem_toDigits (by omega) (by omega) hc
  simp only [Char.isDigit, Bool.and_eq_true, decide_eq_true_eq] at hdigit
  have hle : c.toNat ≤ 57 := hdigit.2
  have h48 : 48 ≤ c.toNat := hdigit.1
  have hc' : c = Char.ofNat c.toNat := (Char.ofNat_toNat c).symm
  rw [hc'] at hmem
  generalize c.toNat = k at hmem hle h48
  interval_cases k <;> simp [String.utf8EncodeChar] at hmem

theorem append_cons_inj {α : Type} {sep : α} {xs ys xs' ys' : List α} (hx : sep ∉ xs)
    (hy : sep ∉ ys) (h : xs ++ sep :: xs' = ys ++ sep :: ys') : xs = ys ∧ xs' = ys' := by
  induction xs generalizing ys with
  | nil =>
    cases ys with
    | nil => exact ⟨rfl, (List.cons.inj h).2⟩
    | cons y ys => exact absurd (by rw [(List.cons.inj h).1]; exact List.mem_cons_self ..) hy
  | cons x xs ih =>
    cases ys with
    | nil => exact absurd (by rw [← (List.cons.inj h).1]; exact List.mem_cons_self ..) hx
    | cons y ys =>
      obtain ⟨rfl, htail⟩ := List.cons.inj h
      obtain ⟨rfl, hrest⟩ := ih (fun hm => hx (List.mem_cons_of_mem _ hm))
        (fun hm => hy (List.mem_cons_of_mem _ hm)) htail
      exact ⟨rfl, hrest⟩

/-- **A canonical field determines its value and everything after it.** -/
theorem canonicalField_append_inj {name v w : String} {r s : List UInt8} :
    canonicalField name v ++ r = canonicalField name w ++ s ↔ v = w ∧ r = s := by
  refine ⟨fun h => ?_, fun h => h.1 ▸ h.2 ▸ rfl⟩
  simp only [canonicalField, List.append_assoc, List.cons_append] at h
  have h := (List.cons.inj (List.append_cancel_left h)).2
  obtain ⟨hlen, h⟩ := append_cons_inj (colon_not_mem_decimal _) (colon_not_mem_decimal _) h
  have hlen : (bytes v).length = (bytes w).length := Nat.repr_inj.1 (bytes_inj.1 hlen)
  obtain ⟨hv, h⟩ := List.append_inj h hlen
  exact ⟨bytes_inj.1 hv, (List.cons.inj h).2⟩

theorem canonicalField_inj {name v w : String} :
    canonicalField name v = canonicalField name w ↔ v = w := by
  simpa using canonicalField_append_inj (r := []) (s := [])

end Nomo.SupplyChain
