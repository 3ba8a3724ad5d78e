import Nomo.Lib.Scanning

/-!
# JSON texts

What the two JSON readers share: the limits, the errors, a cursor in a text of bytes, and the encoding
of characters in UTF-8.

A cursor is an index with what is left of the text from there, so the length of the text is the index
and the length of what is left.
-/

namespace Nomo.Json

def maxBytes : ℕ := 8 * 1024 * 1024
def maxDepth : ℕ := 128
def maxValues : ℕ := 262144

/-! ## Errors -/

/-- The codes of errors. -/
inductive ErrorCode
  | limit
  | unsupportedString
  | syntaxError
deriving DecidableEq

/-- The message of `JsonError::new` and of `nomo_json_error_message`. -/
def ErrorCode.message : ErrorCode → String
  | .limit => "json limit exceeded"
  | .unsupportedString => "json string is not representable"
  | .syntaxError => "invalid json syntax"

/-- `JsonError`; its message goes with its code. -/
structure JsonError where
  code : ErrorCode
  offset : ℕ
deriving DecidableEq

/-! ## Cursors -/

/-- A place in a text. -/
structure Cursor where
  index : ℕ
  rest : List UInt8
deriving DecidableEq

namespace Cursor

/-- The length of the whole text. -/
def len (cursor : Cursor) : ℕ := cursor.index + cursor.rest.length

/-- The byte at the cursor. -/
def byte (cursor : Cursor) : Option UInt8 := cursor.rest.head?

/-- The cursor some bytes further on. -/
def skip (cursor : Cursor) (n : ℕ) : Cursor where
  index := cursor.index + n
  rest := cursor.rest.drop n

/-- The bytes between two cursors. -/
def slice (start finish : Cursor) : List UInt8 := start.rest.take (finish.index - start.index)

end Cursor

/-- An error at an offset. -/
def fail {α : Type} (code : ErrorCode) (offset : ℕ) : Except JsonError α := .error { code, offset }

/-! ## Bytes -/

def quote : UInt8 := 34
def backslash : UInt8 := 92
def slash : UInt8 := 47
def comma : UInt8 := 44
def colon : UInt8 := 58
def minus : UInt8 := 45
def plus : UInt8 := 43
def point : UInt8 := 46
def zero : UInt8 := 48
def openBracket : UInt8 := 91
def closeBracket : UInt8 := 93
def openBrace : UInt8 := 123
def closeBrace : UInt8 := 125

/-- The byte of an ASCII character. -/
def ascii (c : Char) : UInt8 := UInt8.ofNat c.toNat

/-- The bytes of an ASCII text. -/
def asciiText (text : String) : List UInt8 := text.toList.map ascii

/-- A space, a line feed, a carriage return or a tab. -/
def isSpace (byte : UInt8) : Bool := byte = 32 || byte = 10 || byte = 13 || byte = 9

/-- A decimal digit. -/
def isDigit (byte : UInt8) : Bool := 48 ≤ byte && byte ≤ 57

/-- A decimal digit that is not zero. -/
def isDigit19 (byte : UInt8) : Bool := 49 ≤ byte && byte ≤ 57

/-- The value of a hexadecimal digit. -/
def hexValue (byte : UInt8) : Option ℕ :=
  if 48 ≤ byte ∧ byte ≤ 57 then some (byte.toNat - 48)
  else if 97 ≤ byte ∧ byte ≤ 102 then some (byte.toNat - 97 + 10)
  else if 65 ≤ byte ∧ byte ≤ 70 then some (byte.toNat - 65 + 10)
  else none

/-- The loop that skips bytes of a kind. -/
def skipWhile (kind : UInt8 → Bool) : ℕ → List UInt8 → Cursor
  | index, [] => { index, rest := [] }
  | index, byte :: rest =>
    if kind byte then skipWhile kind (index + 1) rest else { index, rest := byte :: rest }

/-- `Parser::whitespace` and `nomo_json_skip_ws`. -/
def skipSpace (cursor : Cursor) : Cursor := skipWhile isSpace cursor.index cursor.rest

/-- The loop over the digits of a number. -/
def skipDigits (cursor : Cursor) : Cursor := skipWhile isDigit cursor.index cursor.rest

/-! ## UTF-8 -/

/-- The numbers of characters: all but surrogates. -/
def IsScalar (scalar : ℕ) : Prop := scalar < 0x110000 ∧ ¬ (0xd800 ≤ scalar ∧ scalar ≤ 0xdfff)

/-- The bytes of a character. -/
def encodeUtf8 (scalar : ℕ) : List UInt8 :=
  if scalar ≤ 0x7f then [UInt8.ofNat scalar]
  else if scalar ≤ 0x7ff then
    [UInt8.ofNat (0xc0 + scalar / 64), UInt8.ofNat (0x80 + scalar % 64)]
  else if scalar ≤ 0xffff then
    [UInt8.ofNat (0xe0 + scalar / 4096), UInt8.ofNat (0x80 + scalar / 64 % 64),
      UInt8.ofNat (0x80 + scalar % 64)]
  else
    [UInt8.ofNat (0xf0 + scalar / 262144), UInt8.ofNat (0x80 + scalar / 4096 % 64),
      UInt8.ofNat (0x80 + scalar / 64 % 64), UInt8.ofNat (0x80 + scalar % 64)]

/-- A text in UTF-8. -/
def IsUtf8 (text : List UInt8) : Prop :=
  ∃ scalars : List ℕ, (∀ scalar ∈ scalars, IsScalar scalar) ∧ text = scalars.flatMap encodeUtf8

end Nomo.Json
