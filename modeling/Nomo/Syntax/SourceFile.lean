import Nomo.Syntax.Decl

/-!
# Parsing a source file

`parse_source_file` (`nomo_syntax/src/parser.rs:10–166`). The items are parsed into one list, in the
order of the source (`parseInOrder`); a source file holds those of each kind.
-/

namespace Nomo.Syntax

open Nomo.Lib Parse

/-- A top-level item. -/
inductive Item
  | struct (item : StructDef)
  | «enum» (item : EnumDef)
  | interface (item : InterfaceDef)
  | externOpaque (item : ExternOpaqueType)
  | externBlock (item : ExternBlock)
  | impl (item : ImplBlock)
  | const (item : ConstDef)
  | function (item : Function)

/-- `is_declaration_start`. -/
def isDeclarationStart (isPublic : Bool) : TokenKind → Bool
  | .kwStruct | .kwEnum | .kwInterface | .kwConst | .kwSuspend | .kwFn => true
  | .kwImpl | .kwExtern => !isPublic
  | _ => false

variable (r : Recursive)

/-! ## Imports -/

/-- One round of the loop over imports. -/
def importRound (imports : List (List String)) :
    Parse (List (List String) ⊕ List (List String)) := do
  skipNewlines
  if ← take .kwImport then do
    let path ← importPath
    expectNewline "expected newline after import declaration"
    return .inl (imports ++ [path])
  else return .inr imports

/-! ## Items -/

/-- An opaque type or an extern block. -/
def externItem : Parse Item := do
  if ← ask .opaqueType then do
    let item ← parseExternOpaqueType
    return .externOpaque item
  else do
    let item ← parseExternBlock r
    return .externBlock item

/-- The parser of the item that starts with a token, if one does. -/
def itemParser (attributes : DeclarationAttributes) (isPublic : Bool) : TokenKind → Option (Parse Item)
  | .kwStruct => some do
    let item ← parseStruct r isPublic attributes.reprC
    return .struct item
  | .kwEnum => some do
    let item ← parseEnum r isPublic
    return .«enum» item
  | .kwInterface => some do
    let item ← parseInterface r isPublic
    return .interface item
  | .kwExtern => if isPublic then none else some (externItem r)
  | .kwImpl =>
    if isPublic then none
    else some do
      let item ← parseImpl r
      return .impl item
  | .kwConst => some do
    let item ← parseConst r isPublic
    return .const item
  | .kwFn | .kwSuspend => some do
    let item ← parseFunction r isPublic attributes.isTest
    return .function item
  | _ => none

/-- What has been parsed after the imports. -/
structure Parsed where
  items : List Item
  scriptBody : List Stmt
  parsingScriptBody : Bool

/-- The checks of the attributes before an item, and of its place. -/
def checkItemStart (attributes : DeclarationAttributes) (isPublic parsingScriptBody : Bool)
    (kind : TokenKind) : Parse Unit := do
  if attributes.isTest ∧ ¬(kind = .kwFn ∨ kind = .kwSuspend) then
    error "E1100" "`#[test]` can only be applied to a function" Token.length
  else if attributes.reprC ∧ kind ≠ .kwStruct then
    error "E1100" "`#[repr(C)]` can only be applied to a struct" Token.length
  else if parsingScriptBody ∧ isDeclarationStart isPublic kind then
    error "E0201" "declarations must appear before top-level script statements" Token.length
  else return

/-- A statement of the script, or the end of the file. -/
def scriptRound (attributes : DeclarationAttributes) (isPublic : Bool) (kind : TokenKind)
    (parsed : Parsed) : Parse (Parsed ⊕ Parsed) := do
  if kind = .eof ∧ ¬isPublic ∧ ¬attributes.isTest ∧ ¬attributes.reprC then return .inr parsed
  else if isPublic then
    error "E0201" "expected struct, enum, impl, const, function declaration, or end of file"
      Token.length
  else if attributes.isTest then
    error "E1100" "`#[test]` can only be applied to a function" Token.length
  else do
    let stmt ← r.parseStmt
    expectNewline "expected newline after top-level script statement"
    return .inl { parsed with scriptBody := parsed.scriptBody ++ [stmt], parsingScriptBody := true }

/-- One round of the loop over items and statements. -/
def itemRound (parsed : Parsed) : Parse (Parsed ⊕ Parsed) := do
  skipNewlines
  let attributes ← parseDeclarationAttributes r
  let isPublic ← consumePub
  let kind := (← peek).kind
  checkItemStart attributes isPublic parsed.parsingScriptBody kind
  match (if parsed.parsingScriptBody then none else itemParser r attributes isPublic kind) with
  | some parseItem => do
    let item ← parseItem
    return .inl { parsed with items := parsed.items ++ [item] }
  | none => scriptRound r attributes isPublic kind parsed

/-- An item in a package. -/
def Item.inPackage (package : List String) : Item → Item
  | .struct item => .struct { item with package }
  | .«enum» item => .«enum» { item with package }
  | .impl item => .impl { item with methods := item.methods.map ({ · with package }) }
  | .function item => .function { item with package }
  | item => item

/-- A source file with the items of each kind. -/
def SourceFile.ofItems (package : List String) (imports : List (List String)) (items : List Item)
    (scriptBody : List Stmt) : SourceFile where
  package := package
  imports := imports
  structs := items.filterMap fun
    | .struct item => some item
    | _ => none
  enums := items.filterMap fun
    | .«enum» item => some item
    | _ => none
  interfaces := items.filterMap fun
    | .interface item => some item
    | _ => none
  externOpaqueTypes := items.filterMap fun
    | .externOpaque item => some item
    | _ => none
  externBlocks := items.filterMap fun
    | .externBlock item => some item
    | _ => none
  impls := items.filterMap fun
    | .impl item => some item
    | _ => none
  consts := items.filterMap fun
    | .const item => some item
    | _ => none
  functions := items.filterMap fun
    | .function item => some item
    | _ => none
  scriptBody := scriptBody

/-- A source file, with its items in their order. -/
def parseInOrder : Parse (SourceFile × List Item) := do
  skipNewlines
  expectKind .kwPackage "E0200" "expected `package <name>`"
  let package ← path
  expectNewline "expected newline after package declaration"
  let imports ← loop importRound r.rounds []
  let parsed ← loop (itemRound r) r.rounds ⟨[], [], false⟩
  let items := parsed.items.map (·.inPackage package)
  return (.ofItems package imports items parsed.scriptBody, items)

/-- `parse_source_file`. -/
def parseSourceFile : Parse SourceFile := do
  let (file, _) ← parseInOrder r
  return file

/-- The parser before its first token. -/
def Parser.start (stream : TokenStream) : Parser where
  stream := stream
  allowStructLiterals := true
  implSelfType := none
  pendingTypeGt := 0

/-- `parse`, to a depth given in advance. -/
def parse (depth : ℕ) (stream : TokenStream) : Except Stop SourceFile :=
  match (parseSourceFile (recursive depth)).run (ParseInstr.handle depth) (.start stream) with
  | .ok (file, _) => .ok file
  | .error reason => .error reason

end Nomo.Syntax
