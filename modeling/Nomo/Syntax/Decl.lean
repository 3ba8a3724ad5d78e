import Nomo.Syntax.Stmt

/-!
# Parsing declarations

`nomo_syntax/src/parser_decl.rs`.
-/

namespace Nomo.Syntax

open Nomo.Lib Parse

variable (r : Recursive)

/-! ## Attributes -/

/-- `ParsedDeclarationAttributes`. -/
structure DeclarationAttributes where
  isTest : Bool
  reprC : Bool

/-- An attribute's name and what follows it, with the attributes before it. -/
def attributeBody (token : Token) (attributes : DeclarationAttributes) : Parse DeclarationAttributes := do
  let name ← expectIdent "expected attribute name"
  if name = "test" then
    if attributes.isTest then error "E1100" "duplicate `#[test]` attribute" fun _ => 1
    else return { attributes with isTest := true }
  else if name = "repr" then
    if attributes.reprC then error "E1100" "duplicate `#[repr(C)]` attribute" fun _ => 1
    else do
      expectKind .lParen "E1100" "expected `(` after `repr`"
      let representation ← expectIdent "expected `C` in `#[repr(C)]`"
      if representation = "C" then do
        expectKind .rParen "E1100" "expected `)` after `C`"
        return { attributes with reprC := true }
      else error "E1100" "only `#[repr(C)]` is supported" fun _ => representation.utf8ByteSize
  else errorAt token "E1100" s!"unsupported attribute `#[{name}]`" token.length

/-- One round of the loop of `parse_declaration_attributes`. -/
def attributeRound (attributes : DeclarationAttributes) :
    Parse (DeclarationAttributes ⊕ DeclarationAttributes) := do
  let token ← peek
  if token.kind = .hash then do
    advance
    expectKind .lBracket "E1100" "expected `[` after `#`"
    let attributes ← attributeBody token attributes
    expectKind .rBracket "E1100" "expected `]` after attribute"
    expectNewline "expected newline after attribute"
    skipNewlines
    return .inl attributes
  else return .inr attributes

/-- `parse_declaration_attributes`. -/
def parseDeclarationAttributes : Parse DeclarationAttributes :=
  loop attributeRound r.rounds ⟨false, false⟩

/-! ## Parts of declarations -/

/-- `consume_pub`. -/
def consumePub : Parse Bool := take .kwPub

/-- `expect_function_name`: `panic` is a name of a function, too. -/
def expectFunctionName : Parse String := do
  match (← peek).kind with
  | .ident value => do
    advance
    return value
  | .kwPanic => do
    advance
    return "panic"
  | _ => error "E0300" "expected function name" Token.length

/-- `ParsedTypeParams`. -/
structure ParsedTypeParams where
  names : List String
  bounds : List TypeParamBound

/-- The bound of a type parameter, if there is one. -/
def typeParamBound (allowBounds : Bool) (name : String) (bounds : List TypeParamBound) :
    Parse (List TypeParamBound) := do
  if ← nextIs .colon then
    if allowBounds then do
      advance
      let interface ← typeRef
      return bounds ++ [⟨name, interface⟩]
    else error "E0235" "interface bounds are only supported on generic functions" Token.length
  else return bounds

/-- One round of the loop of `parse_type_params`. -/
def typeParamRound (allowBounds : Bool) (params : ParsedTypeParams) :
    Parse (ParsedTypeParams ⊕ ParsedTypeParams) := do
  let name ← expectIdent "expected generic type parameter name"
  if name ∈ params.names then
    error "E0237" s!"generic type parameter `{name}` is already defined" Token.length
  else do
    let bounds ← typeParamBound allowBounds name params.bounds
    let params : ParsedTypeParams := ⟨params.names ++ [name], bounds⟩
    match (← peek).kind with
    | .comma => do
      advance
      return .inl params
    | .greater => do
      advance
      return .inr params
    | _ => error "E0235" "expected `,` or `>` after generic type parameter" Token.length

/-- `parse_type_params`. -/
def parseTypeParams (allowBounds : Bool) : Parse ParsedTypeParams := do
  if ← take .less then loop (typeParamRound allowBounds) r.rounds ⟨[], []⟩
  else return ⟨[], []⟩

/-- The type of a parameter; that of `self` may be left out, in an implementation or where
`allow_bare_self`. -/
def paramType (allowBareSelf : Bool) (name : String) : Parse TypeRef := do
  let selfType ← implSelfType
  if name = "self" ∧ (selfType.isSome ∨ allowBareSelf) then
    if ← take .colon then typeRef
    else return selfType.getD (.mk ["Self"] [])
  else do
    expectKind .colon "E0214" "expected `:` after parameter name"
    typeRef

/-- One round of the loop of `parse_params_with_bare_self`. -/
def paramRound (allowBareSelf : Bool) (params : List Param) : Parse (List Param ⊕ List Param) := do
  let mutable ← take .kwMut
  let name ← expectIdent "expected parameter name"
  let typeRef ← paramType allowBareSelf name
  let params := params ++ [⟨name, mutable, typeRef⟩]
  match (← peek).kind with
  | .comma => do
    advance
    return .inl params
  | .rParen => do
    advance
    return .inr params
  | _ => error "E0215" "expected `,` or `)` after parameter" Token.length

/-- `parse_params_with_bare_self`. -/
def parseParamsWithBareSelf (allowBareSelf : Bool) : Parse (List Param) := do
  if ← take .rParen then return [] else loop (paramRound allowBareSelf) r.rounds []

/-- `parse_params`. -/
def parseParams : Parse (List Param) := parseParamsWithBareSelf r false

/-- The type after an arrow, `void` without one. -/
def returnType : Parse TypeRef := do
  if ← take .arrow then typeRef else return voidTypeRef

/-- `parse_function_signature`. -/
def parseFunctionSignature (fnCode fnMessage nameMessage parenCode parenMessage : String)
    (allowBareSelf : Bool) : Parse FunctionSignature := do
  let functionToken ← peek
  let isSuspend ← take .kwSuspend
  expectKind .kwFn fnCode fnMessage
  let name ← expectIdent nameMessage
  let typeParams ← parseTypeParams r false
  expectKind .lParen parenCode parenMessage
  let params ← parseParamsWithBareSelf r allowBareSelf
  let returnType ← returnType
  return { isSuspend, name, typeParams := typeParams.names, typeParamBounds := typeParams.bounds, params,
           returnType, span := tokenSpan functionToken }

/-! ## Bodies -/

/-- One round of the loop over the members of an enum or of a struct, each of which is parsed by
`member`. -/
def memberRound {β : Type} (member : Parse β) (code message : String) (members : List β) :
    Parse (List β ⊕ List β) := do
  skipNewlines
  match (← peek).kind with
  | .rBrace => do
    advance
    skipNewlines
    return .inr members
  | .eof => error code message fun _ => 1
  | _ => do
    let next ← member
    return .inl (members ++ [next])

/-- A variant of an enum. -/
def enumVariant : Parse EnumVariant := do
  let variantToken ← peek
  let name ← expectIdent "expected enum variant name"
  let payload ← (do
    if ← take .lParen then do
      let typeRef ← typeRef
      expectKind .rParen "E0233" "expected `)` after enum variant payload type"
      return some typeRef
    else return none)
  let _ ← take .comma
  expectNewline "expected newline after enum variant"
  return ⟨name, payload, tokenSpan variantToken⟩

/-- `parse_enum`. -/
def parseEnum (isPublic : Bool) : Parse EnumDef := do
  let enumToken ← peek
  expectKind .kwEnum "E0226" "expected `enum`"
  let name ← expectIdent "expected enum name"
  let typeParams ← parseTypeParams r false
  expectKind .lBrace "E0227" "expected `\x7b` before enum variants"
  expectNewline "expected newline after `\x7b`"
  let variants ← loop (memberRound enumVariant "E0228" "unterminated enum body; expected `\x7d`")
    r.rounds []
  return { isPublic, package := [], name, typeParams := typeParams.names, variants,
           span := tokenSpan enumToken }

/-- A field of a struct. -/
def structField : Parse Field := do
  let fieldToken ← peek
  let isPublic ← consumePub
  let name ← expectIdent "expected field name"
  expectKind .colon "E0221" "expected `:` after field name"
  let typeRef ← typeRef
  expectNewline "expected newline after struct field"
  return ⟨isPublic, name, typeRef, tokenSpan fieldToken⟩

/-- `parse_struct`. -/
def parseStruct (isPublic reprC : Bool) : Parse StructDef := do
  let structToken ← peek
  expectKind .kwStruct "E0218" "expected `struct`"
  let name ← expectIdent "expected struct name"
  let typeParams ← parseTypeParams r false
  expectKind .lBrace "E0219" "expected `\x7b` before struct fields"
  expectNewline "expected newline after `\x7b`"
  let fields ← loop (memberRound structField "E0220" "unterminated struct body; expected `\x7d`")
    r.rounds []
  return { isPublic, reprC, package := [], name, typeParams := typeParams.names, fields,
           span := tokenSpan structToken }

/-- A statement of a function's body. -/
def bodyStmt : Parse Stmt := do
  let stmt ← r.parseStmt
  expectNewline "expected newline after statement"
  return stmt

/-- A function from its name on. -/
def finishFunction (functionToken : Token) (isPublic isTest isSuspend : Bool) : Parse Function := do
  let name ← expectFunctionName
  let typeParams ← parseTypeParams r true
  expectKind .lParen "E0203" "expected `(` after function name"
  let params ← parseParams r
  let returnType ← returnType
  expectKind .lBrace "E0206" "expected `\x7b` before function body"
  expectNewline "expected newline after `\x7b`"
  let body ← loop (memberRound (bodyStmt r) "E0207" "unterminated function body; expected `\x7d`")
    r.rounds []
  return { isPublic, isTest, isSuspend, package := [], name, typeParams := typeParams.names,
           typeParamBounds := typeParams.bounds, params, returnType, body,
           span := tokenSpan functionToken }

/-- `parse_function`. -/
def parseFunction (isPublic isTest : Bool) : Parse Function := do
  let functionToken ← peek
  let isSuspend ← take .kwSuspend
  expectKind .kwFn "E0202" "expected `fn`"
  finishFunction r functionToken isPublic isTest isSuspend

/-! ## Interfaces and foreign functions -/

/-- One round of the loop over the signatures of an interface or of an extern block. -/
def signatureRound (starts : TokenKind → Bool) (signature : Parse FunctionSignature)
    (eofCode eofMessage otherCode otherMessage : String) (signatures : List FunctionSignature) :
    Parse (List FunctionSignature ⊕ List FunctionSignature) := do
  skipNewlines
  let token ← peek
  if token.kind = .rBrace then do
    advance
    skipNewlines
    return .inr signatures
  else if starts token.kind then do
    let next ← signature
    return .inl (signatures ++ [next])
  else if token.kind = .eof then error eofCode eofMessage fun _ => 1
  else error otherCode otherMessage Token.length

/-- `parse_interface_method_signature`. -/
def parseInterfaceMethodSignature : Parse FunctionSignature := do
  let signature ← parseFunctionSignature r "E1504" "expected `fn`" "expected interface method name" "E1505"
    "expected `(` after interface method name" true
  expectNewline "expected newline after interface method signature"
  return signature

/-- `parse_interface`. -/
def parseInterface (isPublic : Bool) : Parse InterfaceDef := do
  let interfaceToken ← peek
  expectKind .kwInterface "E1500" "expected `interface`"
  let name ← expectIdent "expected interface name"
  expectKind .lBrace "E1501" "expected `\x7b` before interface methods"
  expectNewline "expected newline after `\x7b`"
  let methods ← loop (signatureRound (fun kind => kind = .kwFn ∨ kind = .kwSuspend)
    (parseInterfaceMethodSignature r) "E1502" "unterminated interface body; expected `\x7d`" "E1503"
    "expected interface method signature or `\x7d`") r.rounds []
  return ⟨isPublic, name, methods, tokenSpan interfaceToken⟩

/-- `parse_extern_function_signature`. -/
def parseExternFunctionSignature : Parse FunctionSignature := do
  let signature ← parseFunctionSignature r "E1515" "expected `fn`" "expected extern function name" "E1516"
    "expected `(` after extern function name" false
  expectNewline "expected newline after extern function declaration"
  return signature

/-- `parse_extern_block`. -/
def parseExternBlock : Parse ExternBlock := do
  let externToken ← peek
  expectKind .kwExtern "E1510" "expected `extern`"
  if ← take (.string "C") then do
    expectKind .lBrace "E1512" "expected `\x7b` before extern declarations"
    expectNewline "expected newline after `\x7b`"
    let functions ← loop (signatureRound (fun kind => kind = .kwFn) (parseExternFunctionSignature r)
      "E1513" "unterminated extern block; expected `\x7d`" "E1514"
      "expected extern function declaration or `\x7d`") r.rounds []
    return ⟨"C", functions, tokenSpan externToken⟩
  else error "E1511" "expected extern ABI string `\"C\"`" fun _ => 1

/-- The release function of an opaque type, if there is one. -/
def releaseFunction : Parse (Option String) := do
  if ← take (.ident "release") then do
    let name ← expectIdent "expected release function name after `release`"
    return some name
  else return none

/-- `parse_extern_opaque_type`. -/
def parseExternOpaqueType : Parse ExternOpaqueType := do
  let externToken ← peek
  expectKind .kwExtern "E1520" "expected `extern`"
  let opaqueWord ← expectIdent "expected `opaque` after `extern`"
  if opaqueWord = "opaque" then do
    let typeKeyword ← expectIdent "expected `type` after `extern opaque`"
    if typeKeyword = "type" then do
      let name ← expectIdent "expected opaque handle type name"
      let releaseFunction ← releaseFunction
      expectNewline "expected newline after opaque handle declaration"
      return ⟨name, releaseFunction, tokenSpan externToken⟩
    else error "E1520" "expected `type` after `extern opaque`" fun _ => typeKeyword.utf8ByteSize
  else error "E1520" "expected `opaque` after `extern`" fun _ => opaqueWord.utf8ByteSize

/-! ## Implementations and constants -/

/-- One round of the loop of `parse_impl`. -/
def implRound (methods : List Function) : Parse (List Function ⊕ List Function) := do
  skipNewlines
  let isPublic ← consumePub
  match (← peek).kind with
  | .kwFn | .kwSuspend => do
    let method ← parseFunction r isPublic false
    return .inl (methods ++ [method])
  | .rBrace =>
    if isPublic then error "E0254" "expected method declaration or `\x7d` in impl body" Token.length
    else do
      advance
      skipNewlines
      return .inr methods
  | .eof => error "E0253" "unterminated impl body; expected `\x7d`" fun _ => 1
  | _ => error "E0254" "expected method declaration or `\x7d` in impl body" Token.length

/-- The type of an implementation, after `for` if it is one of an interface. -/
def implTarget (firstType : TypeRef) : Parse (Option TypeRef × TypeRef) := do
  if ← take .kwFor then do
    let typeName ← typeRef
    return (some firstType, typeName)
  else return (none, firstType)

/-- `parse_impl`. -/
def parseImpl : Parse ImplBlock := do
  expectKind .kwImpl "E0250" "expected `impl`"
  let firstType ← typeRef
  let (interfaceName, typeName) ← implTarget firstType
  if typeName.path.length = 1 ∧ typeName.args.isEmpty then do
    expectKind .lBrace "E0252" "expected `\x7b` before impl methods"
    expectNewline "expected newline after `\x7b`"
    let previousSelf ← implSelfType
    setImplSelfType (some typeName)
    let methods ← loop (implRound r) r.rounds []
    setImplSelfType previousSelf
    return ⟨interfaceName, typeName, methods⟩
  else error "E0251" "v0.1 impl blocks must target a local non-generic type" Token.length

/-- `parse_const`. -/
def parseConst (isPublic : Bool) : Parse ConstDef := do
  let token ← peek
  expectKind .kwConst "E0267" "expected `const`"
  let name ← expectIdent "expected constant name after `const`"
  expectKind .colon "E0268" "expected `:` after constant name"
  let typeRef ← typeRef
  expectKind .equal "E0269" "expected `=` before constant value"
  let value ← r.parseExpr
  skipNewlines
  return ⟨isPublic, name, typeRef, value, tokenSpan token⟩

end Nomo.Syntax
