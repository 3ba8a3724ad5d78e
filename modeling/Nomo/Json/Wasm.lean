import Nomo.Json.Text

/-!
# The JSON parser of the WASM runtime

`nomo_wasm/src/json.rs:1–85, 219–490`. A recursive descent over the bytes of a text. Every value that
is begun is counted; arrays and objects may be nested to a depth. The levels that are left take the
place of the depth of the parent.

A `String` that is built is the list of its bytes. An escape of a character pushes its UTF-8 bytes.
-/

namespace Nomo.Json

open Nomo.Lib.Scanning

mutual

/-- `JsonNode`. -/
inductive JsonNode
  | mk (raw : List UInt8) (value : JsonNodeValue) (maxDepth : ℕ) (values : ℕ)

/-- `JsonNodeValue`. -/
inductive JsonNodeValue
  | null
  | boolean (value : Bool)
  | number (text : List UInt8)
  | string (value : List UInt8)
  | array (items : List JsonNode)
  | object (members : List (List UInt8 × JsonNode))

end

namespace JsonNode

def raw : JsonNode → List UInt8
  | mk raw _ _ _ => raw

def value : JsonNode → JsonNodeValue
  | mk _ value _ _ => value

def maxDepth : JsonNode → ℕ
  | mk _ _ maxDepth _ => maxDepth

def values : JsonNode → ℕ
  | mk _ _ _ values => values

end JsonNode

namespace Wasm

/-- `Parser`. -/
structure Parser where
  cursor : Cursor
  values : ℕ

/-- `Parser::consume`. -/
def consume (expected : UInt8) (cursor : Cursor) : Bool × Cursor :=
  if cursor.byte = some expected then (true, cursor.skip 1) else (false, cursor)

/-- `Parser::expect`. -/
def expect (expected : UInt8) (cursor : Cursor) : Except JsonError Cursor :=
  if cursor.byte = some expected then .ok (cursor.skip 1) else fail .syntaxError cursor.index

/-! ## Literals and numbers -/

/-- `Parser::literal`. -/
def literal (expected : String) (cursor : Cursor) : Except JsonError Cursor :=
  if asciiText expected <+: cursor.rest then .ok (cursor.skip (asciiText expected).length)
  else fail .syntaxError cursor.index

/-- A digit and those after it: `Parser::number`, lines 421–426 and 432–437. -/
def digits (cursor : Cursor) : Except JsonError Cursor :=
  if cursor.byte.any isDigit then .ok (skipDigits cursor) else fail .syntaxError cursor.index

/-- The fraction of a number. -/
def fraction (cursor : Cursor) : Except JsonError Cursor :=
  match consume point cursor with
  | (true, cursor) => digits cursor
  | (false, cursor) => .ok cursor

/-- The exponent of a number. -/
def exponent (cursor : Cursor) : Except JsonError Cursor :=
  if cursor.byte = some (ascii 'e') ∨ cursor.byte = some (ascii 'E') then
    let cursor := cursor.skip 1
    if cursor.byte = some plus ∨ cursor.byte = some minus then digits (cursor.skip 1)
    else digits cursor
  else .ok cursor

/-- The whole part of a number. -/
def wholePart (cursor : Cursor) : Except JsonError Cursor :=
  match cursor.byte with
  | some byte =>
    if byte = zero then .ok (cursor.skip 1)
    else if isDigit19 byte then .ok (skipDigits (cursor.skip 1))
    else fail .syntaxError cursor.index
  | none => fail .syntaxError cursor.len

/-- `Parser::number`. -/
def number (cursor : Cursor) : Except JsonError Cursor := do
  let cursor ← wholePart (consume minus cursor).2
  let cursor ← fraction cursor
  exponent cursor

/-! ## Strings -/

/-- The loop of `Parser::hex4`. -/
def hexDigits : ℕ → ℕ → Cursor → Except JsonError (ℕ × Cursor)
  | 0, value, cursor => .ok (value, cursor)
  | n + 1, value, cursor =>
    match cursor.byte.bind hexValue with
    | some digit => hexDigits n (value * 16 + digit) (cursor.skip 1)
    | none => fail .syntaxError cursor.index

/-- `Parser::hex4`. -/
def hex4 (cursor : Cursor) : Except JsonError (ℕ × Cursor) :=
  if cursor.rest.length < 4 then fail .syntaxError cursor.len else hexDigits 4 0 cursor

/-- The escape of a character by its number, after `\u`. -/
def unicodeEscape (escapeOffset : ℕ) (cursor : Cursor) : Except JsonError (ℕ × Cursor) := do
  let (first, cursor) ← hex4 cursor
  if first = 0 then fail .unsupportedString escapeOffset
  else if 0xd800 ≤ first ∧ first ≤ 0xdbff then
    match consume backslash cursor with
    | (false, _) => fail .unsupportedString escapeOffset
    | (true, cursor) =>
      match consume (ascii 'u') cursor with
      | (false, _) => fail .unsupportedString escapeOffset
      | (true, cursor) => do
        let (second, cursor) ← hex4 cursor
        if 0xdc00 ≤ second ∧ second ≤ 0xdfff then
          .ok (0x10000 + (first - 0xd800) * 1024 + (second - 0xdc00), cursor)
        else fail .unsupportedString escapeOffset
  else if 0xdc00 ≤ first ∧ first ≤ 0xdfff then fail .unsupportedString escapeOffset
  else .ok (first, cursor)

/-- What a simple escape stands for. -/
def simpleEscape (escaped : UInt8) : Option UInt8 :=
  if escaped = quote then some quote
  else if escaped = backslash then some backslash
  else if escaped = slash then some slash
  else if escaped = ascii 'b' then some 8
  else if escaped = ascii 'f' then some 12
  else if escaped = ascii 'n' then some 10
  else if escaped = ascii 'r' then some 13
  else if escaped = ascii 't' then some 9
  else none

/-- The width of a character that is not ASCII, by its first byte. -/
def charWidth (first : UInt8) : ℕ := if first < 0xe0 then 2 else if first < 0xf0 then 3 else 4

/-- One round of the loop of `Parser::string`, with what was pushed before. -/
def stringStep : List UInt8 × Cursor →
    Except JsonError (List UInt8 × Cursor ⊕ List UInt8 × Cursor)
  | (out, cursor) =>
    match cursor.byte with
    | none => fail .syntaxError cursor.len
    | some byte =>
      if byte = quote then .ok (.inr (out, cursor.skip 1))
      else if byte < 0x20 then fail .syntaxError cursor.index
      else if byte = backslash then
        let escapeOffset := cursor.index
        let cursor := cursor.skip 1
        match cursor.byte with
        | none => fail .syntaxError cursor.len
        | some escaped =>
          let cursor := cursor.skip 1
          match simpleEscape escaped with
          | some byte => .ok (.inl (out ++ [byte], cursor))
          | none =>
            if escaped = ascii 'u' then do
              let (scalar, cursor) ← unicodeEscape escapeOffset cursor
              return .inl (out ++ encodeUtf8 scalar, cursor)
            else fail .syntaxError (cursor.index - 1)
      else if byte < 0x80 then .ok (.inl (out ++ [byte], cursor.skip 1))
      else
        let width := charWidth byte
        .ok (.inl (out ++ cursor.rest.take width, cursor.skip width))

/-- What is left in a loop over a text. -/
def leftInString (state : List UInt8 × Cursor) : ℕ := state.2.rest.length

/-- A loop that stands still. -/
def stuckInString (state : List UInt8 × Cursor) : JsonError := ⟨.syntaxError, state.2.index⟩

/-- `Parser::string`. -/
def string (cursor : Cursor) : Except JsonError (List UInt8 × Cursor) := do
  let cursor ← expect quote cursor
  iterate leftInString stringStep stuckInString ([], cursor)

/-! ## Values -/

/-- What is left in a loop over items. -/
def leftInItems {α : Type} (state : List α × ℕ × Parser) : ℕ := state.2.2.cursor.rest.length

/-- A loop that stands still. -/
def stuckInItems {α : Type} (state : List α × ℕ × Parser) : JsonError :=
  ⟨.syntaxError, state.2.2.cursor.index⟩

/-- What follows an item or a member: the closing bracket, or a comma. -/
def afterItem {α : Type} (close : UInt8) (items : List α) (maxDepth : ℕ) (parser : Parser) :
    Except JsonError (List α × ℕ × Parser ⊕ List α × ℕ × Parser) :=
  let cursor := skipSpace parser.cursor
  match consume close cursor with
  | (true, cursor) => .ok (.inr (items, maxDepth, { parser with cursor }))
  | (false, cursor) => do
    let cursor ← expect comma cursor
    return .inl (items, maxDepth, { parser with cursor := skipSpace cursor })

/-- One round of the loop of `Parser::array`. -/
def arrayStep (value : Parser → Except JsonError (JsonNode × Parser)) :
    List JsonNode × ℕ × Parser →
      Except JsonError (List JsonNode × ℕ × Parser ⊕ List JsonNode × ℕ × Parser)
  | (items, maxDepth, parser) => do
    let (node, parser) ← value parser
    afterItem closeBracket (items ++ [node]) (max maxDepth node.maxDepth) parser

/-- `Parser::array`. -/
def array (value : Parser → Except JsonError (JsonNode × Parser)) (depth : ℕ) (parser : Parser) :
    Except JsonError (List JsonNode × ℕ × Parser) :=
  let cursor := skipSpace (parser.cursor.skip 1)
  match consume closeBracket cursor with
  | (true, cursor) => .ok ([], depth, { parser with cursor })
  | (false, cursor) =>
    iterate leftInItems (arrayStep value) stuckInItems ([], depth, { parser with cursor })

/-- One round of the loop of `Parser::object`. -/
def objectStep (value : Parser → Except JsonError (JsonNode × Parser)) :
    List (List UInt8 × JsonNode) × ℕ × Parser →
      Except JsonError (List (List UInt8 × JsonNode) × ℕ × Parser ⊕
        List (List UInt8 × JsonNode) × ℕ × Parser)
  | (members, maxDepth, parser) => do
    if parser.cursor.byte ≠ some quote then fail .syntaxError parser.cursor.index
    else
      let (key, cursor) ← string parser.cursor
      let cursor ← expect colon (skipSpace cursor)
      let (node, parser) ← value { parser with cursor }
      afterItem closeBrace (members ++ [(key, node)]) (max maxDepth node.maxDepth) parser

/-- `Parser::object`. -/
def object (value : Parser → Except JsonError (JsonNode × Parser)) (depth : ℕ) (parser : Parser) :
    Except JsonError (List (List UInt8 × JsonNode) × ℕ × Parser) :=
  let cursor := skipSpace (parser.cursor.skip 1)
  match consume closeBrace cursor with
  | (true, cursor) => .ok ([], depth, { parser with cursor })
  | (false, cursor) =>
    iterate leftInItems (objectStep value) stuckInItems ([], depth, { parser with cursor })

/-- The match of `Parser::value` on the first byte of a value that was counted. Inside an array or an
object there are values of the next level, if there is one. -/
def valueKind (nested : Option (ℕ × (Parser → Except JsonError (JsonNode × Parser))))
    (parser : Parser) : Except JsonError (JsonNodeValue × ℕ × Parser) :=
  let cursor := parser.cursor
  match cursor.byte with
  | none => fail .syntaxError cursor.len
  | some byte =>
    if byte = ascii 'n' then do
      let cursor ← literal "null" cursor
      return (.null, 0, { parser with cursor })
    else if byte = ascii 't' then do
      let cursor ← literal "true" cursor
      return (.boolean true, 0, { parser with cursor })
    else if byte = ascii 'f' then do
      let cursor ← literal "false" cursor
      return (.boolean false, 0, { parser with cursor })
    else if byte = quote then do
      let (text, cursor) ← string cursor
      return (.string text, 0, { parser with cursor })
    else if byte = minus ∨ isDigit byte then do
      let finish ← number cursor
      return (.number (cursor.slice finish), 0, { parser with cursor := finish })
    else if byte = openBracket then
      match nested with
      | none => fail .limit cursor.index
      | some (depth, value) => do
        let (items, nestedDepth, parser) ← array value depth parser
        return (.array items, max depth nestedDepth, parser)
    else if byte = openBrace then
      match nested with
      | none => fail .limit cursor.index
      | some (depth, value) => do
        let (members, nestedDepth, parser) ← object value depth parser
        return (.object members, max depth nestedDepth, parser)
    else fail .syntaxError cursor.index

/-- `Parser::value`. -/
def valueAt (nested : Option (ℕ × (Parser → Except JsonError (JsonNode × Parser)))) (parser : Parser) :
    Except JsonError (JsonNode × Parser) :=
  let cursor := skipSpace parser.cursor
  if parser.values ≥ maxValues then fail .limit cursor.index
  else do
    let begun : Parser := { cursor, values := parser.values + 1 }
    let (value, maxDepth, finished) ← valueKind nested begun
    return (.mk (cursor.slice finished.cursor) value maxDepth (finished.values - begun.values + 1),
      finished)

/-- `Parser::value`, with the levels that are left below it. -/
def value : ℕ → Parser → Except JsonError (JsonNode × Parser)
  | 0 => valueAt none
  | levels + 1 => valueAt (some (maxDepth - levels, value levels))

/-- `parse`. -/
def parse (input : List UInt8) : Except JsonError JsonNode := do
  if input.length > maxBytes then fail .limit maxBytes
  else
    let (node, parser) ← value maxDepth { cursor := { index := 0, rest := input }, values := 0 }
    let cursor := skipSpace parser.cursor
    if cursor.rest ≠ [] then fail .syntaxError cursor.index
    else return .mk input node.value node.maxDepth node.values

end Wasm

end Nomo.Json
