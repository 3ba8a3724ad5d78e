import Nomo.Json.Text

/-!
# The JSON scanner of the C runtime

`nomo_codegen_c/src/runtime/host_json.c:1–506, 544–900`. The scanner goes over a text and makes no
value; a value is its text, and the accessors scan it again.

A function that fails records the first error in the cursor and returns at once, so its result is an
`Except`. The levels that are left take the place of the depth of the parent. Texts end where their
first NUL is.
-/

namespace Nomo.Json

open Nomo.Lib.Scanning

namespace Native

/-- `nomo_json_cursor`. -/
structure Scan where
  cursor : Cursor
  maxDepth : ℕ
  values : ℕ
deriving DecidableEq

/-! ## Literals and numbers -/

/-- `nomo_json_scan_literal`. -/
def scanLiteral (literal : String) (cursor : Cursor) : Except JsonError Cursor :=
  let bytes := asciiText literal
  if bytes.length > cursor.rest.length ∨ cursor.rest.take bytes.length ≠ bytes then
    fail .syntaxError cursor.index
  else .ok (cursor.skip bytes.length)

/-- The digits after a point or an exponent: lines 297–311 and 329–343. -/
def scanDigits (cursor : Cursor) : Except JsonError Cursor :=
  match cursor.byte with
  | none => fail .syntaxError cursor.index
  | some byte =>
    if !isDigit byte then fail .syntaxError cursor.index else .ok (skipDigits (cursor.skip 1))

/-- The fraction of a number. -/
def scanFraction (cursor : Cursor) : Except JsonError Cursor :=
  if cursor.byte = some point then scanDigits (cursor.skip 1) else .ok cursor

/-- The exponent of a number. -/
def scanExponent (cursor : Cursor) : Except JsonError Cursor :=
  if cursor.byte = some (ascii 'e') ∨ cursor.byte = some (ascii 'E') then
    let cursor := cursor.skip 1
    let cursor :=
      if cursor.byte = some plus ∨ cursor.byte = some minus then cursor.skip 1 else cursor
    scanDigits cursor
  else .ok cursor

/-- The whole part of a number. -/
def scanWholePart (cursor : Cursor) : Except JsonError Cursor :=
  match cursor.byte with
  | none => fail .syntaxError cursor.len
  | some byte =>
    if byte = zero then .ok (cursor.skip 1)
    else if isDigit19 byte then .ok (skipDigits (cursor.skip 1))
    else fail .syntaxError cursor.index

/-- `nomo_json_scan_number`. -/
def scanNumber (cursor : Cursor) : Except JsonError Cursor := do
  let cursor ← scanWholePart (if cursor.byte = some minus then cursor.skip 1 else cursor)
  let cursor ← scanFraction cursor
  scanExponent cursor

/-! ## Strings -/

/-- The loop of `nomo_json_parse_hex4`. -/
def parseHexDigits : ℕ → ℕ → Cursor → Except JsonError (ℕ × Cursor)
  | 0, out, cursor => .ok (out, cursor)
  | n + 1, out, cursor =>
    match cursor.byte.bind hexValue with
    | none => fail .syntaxError cursor.index
    | some digit => parseHexDigits n (out * 16 + digit) (cursor.skip 1)

/-- `nomo_json_parse_hex4`. -/
def parseHex4 (cursor : Cursor) : Except JsonError (ℕ × Cursor) :=
  if cursor.rest.length < 4 then fail .syntaxError cursor.len else parseHexDigits 4 0 cursor

/-- The continuation bytes of `nomo_json_utf8_width`: how many, the index of the next, and the number
so far. -/
def utf8Tail : ℕ → ℕ → ℕ → List UInt8 → Except JsonError ℕ
  | 0, _, scalar, _ => .ok scalar
  | _ + 1, index, _, [] => fail .unsupportedString index
  | n + 1, index, scalar, next :: rest =>
    if next.toNat / 64 ≠ 2 then fail .unsupportedString index
    else utf8Tail n (index + 1) (scalar * 64 + next.toNat % 64) rest

/-- `nomo_json_utf8_width`. -/
def utf8Width (first : UInt8) (cursor : Cursor) : Except JsonError ℕ :=
  let wide (needed scalar minimum : ℕ) : Except JsonError ℕ :=
    if needed > cursor.rest.length then fail .unsupportedString cursor.index
    else do
      let scalar ← utf8Tail (needed - 1) (cursor.index + 1) scalar (cursor.rest.drop 1)
      if scalar < minimum ∨ scalar > 0x10ffff ∨ (0xd800 ≤ scalar ∧ scalar ≤ 0xdfff) then
        fail .unsupportedString cursor.index
      else return needed
  let first := first.toNat
  if first < 0x80 then .ok 1
  else if 0xc2 ≤ first ∧ first ≤ 0xdf then wide 2 (first % 32) 0x80
  else if 0xe0 ≤ first ∧ first ≤ 0xef then wide 3 (first % 16) 0x800
  else if 0xf0 ≤ first ∧ first ≤ 0xf4 then wide 4 (first % 8) 0x10000
  else fail .unsupportedString cursor.index

/-- The escapes of one character. -/
def isSimpleEscape (escaped : UInt8) : Bool :=
  escaped = quote || escaped = backslash || escaped = slash || escaped = ascii 'b' ||
    escaped = ascii 'f' || escaped = ascii 'n' || escaped = ascii 'r' || escaped = ascii 't'

/-- The escape of a character by its number: lines 213–260. -/
def scanUnicodeEscape (escapeOffset : ℕ) (cursor : Cursor) : Except JsonError Cursor := do
  let (first, cursor) ← parseHex4 cursor
  if first = 0 then fail .unsupportedString escapeOffset
  else if 0xd800 ≤ first ∧ first ≤ 0xdbff then
    if cursor.rest.length < 6 ∨ cursor.rest[0]? ≠ some backslash ∨
        cursor.rest[1]? ≠ some (ascii 'u') then
      fail .unsupportedString escapeOffset
    else do
      let (second, cursor) ← parseHex4 (cursor.skip 2)
      if second < 0xdc00 ∨ second > 0xdfff then fail .unsupportedString escapeOffset
      else return cursor
  else if 0xdc00 ≤ first ∧ first ≤ 0xdfff then fail .unsupportedString escapeOffset
  else return cursor

/-- One round of the loop of `nomo_json_scan_string`. -/
def scanStringStep (cursor : Cursor) : Except JsonError (Cursor ⊕ Cursor) :=
  match cursor.byte with
  | none => fail .syntaxError cursor.len
  | some ch =>
    if ch = quote then .ok (.inr (cursor.skip 1))
    else if ch < 0x20 then fail .syntaxError cursor.index
    else if ch = backslash then
      let escapeOffset := cursor.index
      let cursor := cursor.skip 1
      match cursor.byte with
      | none => fail .syntaxError cursor.len
      | some escaped =>
        if isSimpleEscape escaped then .ok (.inl (cursor.skip 1))
        else if escaped ≠ ascii 'u' then fail .syntaxError cursor.index
        else do
          let cursor ← scanUnicodeEscape escapeOffset (cursor.skip 1)
          return .inl cursor
    else if 0x80 ≤ ch then do
      let width ← utf8Width ch cursor
      return .inl (cursor.skip width)
    else .ok (.inl (cursor.skip 1))

/-- What is left in the loop over a string. -/
def leftInString (cursor : Cursor) : ℕ := cursor.rest.length

/-- A loop that stands still. -/
def stuckInString (cursor : Cursor) : JsonError := ⟨.syntaxError, cursor.index⟩

/-- `nomo_json_scan_string`. -/
def scanString (cursor : Cursor) : Except JsonError Cursor :=
  if cursor.byte ≠ some quote then fail .syntaxError cursor.index
  else iterate leftInString scanStringStep stuckInString (cursor.skip 1)

/-! ## Values -/

/-- What is left in a loop over items. -/
def leftInItems (scan : Scan) : ℕ := scan.cursor.rest.length

/-- A loop that stands still. -/
def stuckInItems (scan : Scan) : JsonError := ⟨.syntaxError, scan.cursor.index⟩

/-- What follows an item or a member: the closing bracket, or a comma. -/
def afterItem (close : UInt8) (scan : Scan) : Except JsonError (Scan ⊕ Scan) :=
  let cursor := skipSpace scan.cursor
  if cursor.byte = some close then .ok (.inr { scan with cursor := cursor.skip 1 })
  else if cursor.byte ≠ some comma then fail .syntaxError cursor.index
  else .ok (.inl { scan with cursor := skipSpace (cursor.skip 1) })

/-- One round of the loop of `nomo_json_scan_array`. -/
def scanArrayStep (scanValue : Scan → Except JsonError Scan) (scan : Scan) :
    Except JsonError (Scan ⊕ Scan) := do
  let scan ← scanValue scan
  afterItem closeBracket scan

/-- `nomo_json_scan_array`. -/
def scanArray (scanValue : Scan → Except JsonError Scan) (scan : Scan) : Except JsonError Scan :=
  let cursor := skipSpace (scan.cursor.skip 1)
  if cursor.byte = some closeBracket then .ok { scan with cursor := cursor.skip 1 }
  else iterate leftInItems (scanArrayStep scanValue) stuckInItems { scan with cursor }

/-- One round of the loop of `nomo_json_scan_object`. -/
def scanObjectStep (scanValue : Scan → Except JsonError Scan) (scan : Scan) :
    Except JsonError (Scan ⊕ Scan) := do
  let cursor ← scanString scan.cursor
  let cursor := skipSpace cursor
  if cursor.byte ≠ some colon then fail .syntaxError cursor.index
  else do
    let scan ← scanValue { scan with cursor := cursor.skip 1 }
    afterItem closeBrace scan

/-- `nomo_json_scan_object`. -/
def scanObject (scanValue : Scan → Except JsonError Scan) (scan : Scan) : Except JsonError Scan :=
  let cursor := skipSpace (scan.cursor.skip 1)
  if cursor.byte = some closeBrace then .ok { scan with cursor := cursor.skip 1 }
  else iterate leftInItems (scanObjectStep scanValue) stuckInItems { scan with cursor }

/-- The choice of `nomo_json_scan_value` by the first byte of a value that was counted. Inside an array
or an object there are values of the next level, if there is one. -/
def scanKind (nested : Option (ℕ × (Scan → Except JsonError Scan))) (ch : UInt8) (scan : Scan) :
    Except JsonError Scan :=
  let cursor := scan.cursor
  if ch = openBrace ∨ ch = openBracket then
    match nested with
    | none => fail .limit cursor.index
    | some (depth, scanValue) =>
      let scan := { scan with maxDepth := if depth > scan.maxDepth then depth else scan.maxDepth }
      if ch = openBrace then scanObject scanValue scan else scanArray scanValue scan
  else if ch = quote then do
    let cursor ← scanString cursor
    return { scan with cursor }
  else if ch = minus ∨ isDigit ch then do
    let cursor ← scanNumber cursor
    return { scan with cursor }
  else if ch = ascii 't' then do
    let cursor ← scanLiteral "true" cursor
    return { scan with cursor }
  else if ch = ascii 'f' then do
    let cursor ← scanLiteral "false" cursor
    return { scan with cursor }
  else if ch = ascii 'n' then do
    let cursor ← scanLiteral "null" cursor
    return { scan with cursor }
  else fail .syntaxError cursor.index

/-- `nomo_json_scan_value`. -/
def scanValueAt (nested : Option (ℕ × (Scan → Except JsonError Scan))) (scan : Scan) :
    Except JsonError Scan :=
  let cursor := skipSpace scan.cursor
  match cursor.byte with
  | none => fail .syntaxError cursor.len
  | some ch =>
    if scan.values ≥ maxValues then fail .limit cursor.index
    else scanKind nested ch { scan with cursor, values := scan.values + 1 }

/-- `nomo_json_scan_value`, with the levels that are left below it. -/
def scanValue : ℕ → Scan → Except JsonError Scan
  | 0 => scanValueAt none
  | levels + 1 => scanValueAt (some (maxDepth - levels, scanValue levels))

/-- The text of a C string: what is before its first NUL. -/
def cString (text : List UInt8) : List UInt8 := text.takeWhile (· ≠ 0)

/-- `nomo_json_validate`. -/
def validate (text : List UInt8) : Except JsonError Scan := do
  if text.length > maxBytes then fail .limit maxBytes
  else
    let scan ← scanValue maxDepth
      { cursor := { index := 0, rest := text }, maxDepth := 0, values := 0 }
    let cursor := skipSpace scan.cursor
    if cursor.rest ≠ [] then fail .syntaxError cursor.index else return { scan with cursor }

end Native

end Nomo.Json
