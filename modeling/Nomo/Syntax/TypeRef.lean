import Nomo.Syntax.Token

/-!
# Parsing types

`parse_type_ref` and what it calls (`nomo_syntax/src/parser.rs:168–394`), as programs over the tokens
and the counter of split `>>` tokens: a `>>` that closes the type arguments of one type leaves one `>`
to be taken by the type around it.
-/

namespace Nomo.Syntax

open Nomo.Lib

/-- `TypeRef`. -/
inductive TypeRef
  | mk (path : List String) (args : List TypeRef)

/-- The parts of a type. -/
def TypeRef.path : TypeRef → List String
  | .mk path _ => path

def TypeRef.args : TypeRef → List TypeRef
  | .mk _ args => args

/-- `EXTERN_C_CALLBACK_TYPE_PATH`. -/
def externCCallbackTypePath : String := "__nomo_extern_c_callback"

/-- `TASK_CALLBACK_TYPE_PATH`. -/
def taskCallbackTypePath : String := "__nomo_task_callback"

/-- `void_type_ref`. -/
def voidTypeRef : TypeRef := .mk ["void"] []

/-- Why parsing stops: with a diagnostic, or since it is nested deeper than the depth given in
advance. -/
inductive Stop
  | diagnostic (diagnostic : Diagnostic)
  | tooDeep
deriving DecidableEq

/-! ## Instructions -/

/-- What the parser of types does. -/
inductive TypeInstr
  | peek
  | advance
  | consumeNewline
  | ask (question : Lookahead)
  /-- Take a `>` that is left of a `>>`, if there is one. -/
  | takePendingGt
  /-- Leave a `>` of a `>>`. -/
  | leavePendingGt
  | stop (reason : Stop)

/-- The answer to an instruction. -/
@[reducible] def TypeInstr.Answer : TypeInstr → Type
  | .peek => Token
  | .advance | .consumeNewline | .leavePendingGt => Unit
  | .ask _ | .takePendingGt => Bool
  | .stop _ => Empty

/-- A program of the parser of types. -/
abbrev TypeParse (α : Type) : Type := Program TypeInstr TypeInstr.Answer α

/-- The state of the parser that types are read with. -/
structure TypeState where
  stream : TokenStream
  pendingTypeGt : ℕ

/-- Carry out an instruction. -/
def TypeInstr.handle : (i : TypeInstr) → TypeState → Except Stop (i.Answer × TypeState)
  | .peek, s => .ok (s.stream.peek, s)
  | .advance, s => .ok ((), { s with stream := s.stream.advance })
  | .consumeNewline, s => .ok ((), { s with stream := s.stream.consumeNewline })
  | .ask question, s => .ok (s.stream.answer question, s)
  | .takePendingGt, s =>
    if s.pendingTypeGt > 0 then .ok (true, { s with pendingTypeGt := s.pendingTypeGt - 1 })
    else .ok (false, s)
  | .leavePendingGt, s => .ok ((), { s with pendingTypeGt := s.pendingTypeGt + 1 })
  | .stop reason, _ => .error reason

namespace TypeParse

def peek : TypeParse Token := Program.perform TypeInstr.peek

def advance : TypeParse Unit := Program.perform TypeInstr.advance

def skipNewlines : TypeParse Unit := Program.perform TypeInstr.consumeNewline

def ask (question : Lookahead) : TypeParse Bool := Program.perform (TypeInstr.ask question)

def takePendingGt : TypeParse Bool := Program.perform TypeInstr.takePendingGt

def leavePendingGt : TypeParse Unit := Program.perform TypeInstr.leavePendingGt

/-- Stop. -/
def stop {α : Type} (reason : Stop) : TypeParse α := .op (.stop reason) Empty.elim

/-- `error`, at the next token. -/
def error {α : Type} (code message : String) (length : Token → ℕ) : TypeParse α := do
  let token ← peek
  stop (.diagnostic { code, message, span := { tokenSpan token with length := length token } })

/-- A loop, to a number of rounds given in advance. -/
def loop {α β : Type} (round : α → TypeParse (α ⊕ β)) : ℕ → α → TypeParse β :=
  Program.loop (stop .tooDeep) round

end TypeParse

open TypeParse

/-! ## Paths -/

/-- `expect_ident`. -/
def TypeParse.expectIdent (message : String) : TypeParse String := do
  match (← peek).kind with
  | .ident value => do
    advance
    return value
  | _ => error "E0300" message Token.length

/-- Take a token of one kind; an error reports a length of its own. -/
def TypeParse.expect (expected : TokenKind) (code message : String) (length : Token → ℕ) :
    TypeParse Unit := do
  if (← peek).kind = expected then advance else error code message length

/-- `expect_kind`. -/
def TypeParse.expectKind (expected : TokenKind) (code message : String) : TypeParse Unit :=
  TypeParse.expect expected code message Token.length

/-- `consume_dot_path_separator`. -/
def consumeDotPathSeparator : TypeParse Bool := do
  if (← peek).kind = .dot then return true
  else if ← ask .newlineDot then do
    skipNewlines
    return true
  else return false

/-- `expect_path_segment_after_dot`. -/
def expectPathSegmentAfterDot : TypeParse String := do
  match (← peek).kind with
  | .ident value => do
    advance
    return value
  | .kwPanic => do
    advance
    return "panic"
  | _ => error "E0300" "expected identifier after `.`" Token.length

/-- One round of the loop of `parse_path`. -/
def pathRound (parts : List String) : TypeParse (List String ⊕ List String) := do
  if ← consumeDotPathSeparator then do
    advance
    let part ← expectPathSegmentAfterDot
    return .inl (parts ++ [part])
  else return .inr parts

/-- `parse_path`. -/
def parsePath (depth : ℕ) : TypeParse (List String) := do
  let first ← expectIdent "expected identifier"
  loop pathRound depth [first]

/-- One round of the loop of `parse_import_path`. -/
def importPathRound (parts : List String) : TypeParse (List String ⊕ List String) := do
  if ← consumeDotPathSeparator then do
    advance
    if (← peek).kind = .star then
      error "E0274" "wildcard imports are not supported in v0.1" Token.length
    else do
      let part ← expectPathSegmentAfterDot
      return .inl (parts ++ [part])
  else return .inr parts

/-- `parse_import_path`. -/
def parseImportPath (depth : ℕ) : TypeParse (List String) := do
  let first ← expectIdent "expected import path"
  loop importPathRound depth [first]

/-! ## Types -/

section Types

variable (depth : ℕ) (parseTypeRef : TypeParse TypeRef)

/-- One round of the loop over the parameter types of a callback. -/
def callbackParamRound (code message : String) (args : List TypeRef) :
    TypeParse (List TypeRef ⊕ List TypeRef) := do
  let arg ← parseTypeRef
  match (← peek).kind with
  | .comma => do
    advance
    return .inl (args ++ [arg])
  | .rParen => return .inr (args ++ [arg])
  | _ => error code message Token.length

/-- The parameter types of a callback. -/
def callbackParams (code message : String) : TypeParse (List TypeRef) := do
  if (← peek).kind = .rParen then return []
  else loop (callbackParamRound parseTypeRef code message) depth []

/-- `parse_extern_c_callback_type_ref`. -/
def parseExternCCallbackTypeRef : TypeParse TypeRef := do
  expectKind .kwExtern "E1524" "expected `extern`"
  TypeParse.expect (.string "C") "E1524" "expected callback ABI string `\"C\"`" fun _ => 1
  expectKind .kwFn "E1524" "expected `fn` in callback type"
  expectKind .lParen "E1524" "expected `(` before callback parameter types"
  let args ← callbackParams depth parseTypeRef "E1524"
    "expected `,` or `)` after callback parameter type"
  expectKind .rParen "E1524" "expected `)` after callback parameter types"
  expectKind .arrow "E1524" "expected `->` in callback type"
  let result ← parseTypeRef
  return .mk [externCCallbackTypePath] (args ++ [result])

/-- `parse_task_callback_type_ref`. -/
def parseTaskCallbackTypeRef : TypeParse TypeRef := do
  TypeParse.expect (.ident "task") "E0820" "expected `task`" fun _ => 1
  expectKind .kwFn "E0820" "expected `fn` in task worker type"
  expectKind .lParen "E0820" "expected `(` before task worker parameter types"
  let args ← callbackParams depth parseTypeRef "E0820"
    "expected `,` or `)` after task worker parameter type"
  expectKind .rParen "E0820" "expected `)` after task worker parameter types"
  expectKind .arrow "E0820" "expected `->` in task worker type"
  let result ← parseTypeRef
  return .mk [taskCallbackTypePath] (args ++ [result])

/-- One round of the loop of `parse_type_args`. -/
def typeArgRound (args : List TypeRef) : TypeParse (List TypeRef ⊕ List TypeRef) := do
  let arg ← parseTypeRef
  let args := args ++ [arg]
  if ← takePendingGt then return .inr args
  else do
    skipNewlines
    match (← peek).kind with
    | .comma => do
      advance
      skipNewlines
      return .inl args
    | .greater => do
      advance
      return .inr args
    | .greaterGreater => do
      advance
      leavePendingGt
      return .inr args
    | _ => error "E0236" "expected `,` or `>` after generic type argument" Token.length

/-- `parse_type_args`. -/
def parseTypeArgs : TypeParse (List TypeRef) := do
  if (← peek).kind = .less then do
    advance
    skipNewlines
    loop (typeArgRound parseTypeRef) depth []
  else return []

/-- The body of `parse_type_ref`. -/
def typeRefBody : TypeParse TypeRef := do
  if (← peek).kind = .kwExtern then parseExternCCallbackTypeRef depth parseTypeRef
  else if ← ask .taskFn then parseTaskCallbackTypeRef depth parseTypeRef
  else if (← peek).kind = .kwVoid then do
    advance
    return voidTypeRef
  else do
    let path ← parsePath depth
    let args ← parseTypeArgs depth parseTypeRef
    return .mk path args

end Types

/-- `parse_type_ref`, to a depth given in advance. -/
def parseTypeRef : ℕ → TypeParse TypeRef
  | 0 => stop .tooDeep
  | depth + 1 => typeRefBody depth (parseTypeRef depth)

end Nomo.Syntax
