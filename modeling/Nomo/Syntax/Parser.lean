import Nomo.Syntax.Ast

/-!
# The parser

The state of `Parser` (`nomo_syntax/src/parser.rs:22–29`) and what its functions do to it. The functions
that types share are called as a whole (`TypeCall`): nothing else in the parser touches the counter of
pending `>`.
-/

namespace Nomo.Syntax

open Nomo.Lib

/-- `Parser`. -/
structure Parser where
  stream : TokenStream
  allowStructLiterals : Bool
  implSelfType : Option TypeRef
  pendingTypeGt : ℕ

/-- The functions of the parser that types are read with. -/
inductive TypeCall
  | expectIdent (message : String)
  | expectKind (expected : TokenKind) (code message : String)
  | path
  | importPath
  | typeRef

/-- What such a function returns. -/
@[reducible] def TypeCall.Answer : TypeCall → Type
  | .expectIdent _ => String
  | .expectKind .. => Unit
  | .path | .importPath => List String
  | .typeRef => TypeRef

/-- The program of such a function. -/
def TypeCall.program (depth : ℕ) : (call : TypeCall) → TypeParse call.Answer
  | .expectIdent message => TypeParse.expectIdent message
  | .expectKind expected code message => TypeParse.expectKind expected code message
  | .path => parsePath depth
  | .importPath => parseImportPath depth
  | .typeRef => parseTypeRef depth

/-- What the parser does. -/
inductive ParseInstr
  | peek
  | advance
  | consumeNewline
  | ask (question : Lookahead)
  | call (function : TypeCall)
  /-- `parse_type_args` if `next_tokens_are_call_type_args`, no type arguments otherwise. -/
  | callTypeArgs
  | allowStructLiterals
  | setAllowStructLiterals (value : Bool)
  | implSelfType
  | setImplSelfType (value : Option TypeRef)
  | stop (reason : Stop)

/-- The answer to an instruction. -/
@[reducible] def ParseInstr.Answer : ParseInstr → Type
  | .peek => Token
  | .advance | .consumeNewline | .setAllowStructLiterals _ | .setImplSelfType _ => Unit
  | .ask _ | .allowStructLiterals => Bool
  | .call function => function.Answer
  | .callTypeArgs => List TypeRef
  | .implSelfType => Option TypeRef
  | .stop _ => Empty

/-- A program of the parser. -/
abbrev Parse (α : Type) : Type := Program ParseInstr ParseInstr.Answer α

namespace Parser

/-- The part of the state that types are read with. -/
def typeState (s : Parser) : TypeState := ⟨s.stream, s.pendingTypeGt⟩

/-- Read with the parser of types. -/
def runTypes {α : Type} (p : TypeParse α) (s : Parser) : Except Stop (α × Parser) :=
  match p.run TypeInstr.handle s.typeState with
  | .ok (a, t) => .ok (a, { s with stream := t.stream, pendingTypeGt := t.pendingTypeGt })
  | .error reason => .error reason

/-- **Reading with the parser of types** leaves the rest of the state. -/
theorem runTypes_eq_ok {α : Type} {p : TypeParse α} {s t : Parser} {a : α} :
    s.runTypes p = .ok (a, t) ↔
      p.run TypeInstr.handle s.typeState = .ok (a, t.typeState) ∧
        t.allowStructLiterals = s.allowStructLiterals ∧ t.implSelfType = s.implSelfType := by
  unfold runTypes
  cases p.run TypeInstr.handle s.typeState with
  | error reason => simp
  | ok result =>
    obtain ⟨b, u⟩ := result
    simp only [Except.ok.injEq, Prod.mk.injEq]
    constructor
    · rintro ⟨rfl, rfl⟩
      exact ⟨⟨rfl, rfl⟩, rfl, rfl⟩
    · rintro ⟨⟨rfl, rfl⟩, hallow, hself⟩
      refine ⟨rfl, ?_⟩
      cases t
      simp_all [typeState]

end Parser

/-- Carry out an instruction; types are read to a depth given in advance. -/
def ParseInstr.handle (depth : ℕ) : (i : ParseInstr) → Parser → Except Stop (i.Answer × Parser)
  | .peek, s => .ok (s.stream.peek, s)
  | .advance, s => .ok ((), { s with stream := s.stream.advance })
  | .consumeNewline, s => .ok ((), { s with stream := s.stream.consumeNewline })
  | .ask question, s => .ok (s.stream.answer question, s)
  | .call function, s => s.runTypes (function.program depth)
  | .callTypeArgs, s =>
    if s.stream.nextTokensAreCallTypeArgs then s.runTypes (parseTypeArgs depth (parseTypeRef depth))
    else .ok ([], s)
  | .allowStructLiterals, s => .ok (s.allowStructLiterals, s)
  | .setAllowStructLiterals value, s => .ok ((), { s with allowStructLiterals := value })
  | .implSelfType, s => .ok (s.implSelfType, s)
  | .setImplSelfType value, s => .ok ((), { s with implSelfType := value })
  | .stop reason, _ => .error reason

namespace Parse

def peek : Parse Token := Program.perform ParseInstr.peek

def advance : Parse Unit := Program.perform ParseInstr.advance

def skipNewlines : Parse Unit := Program.perform ParseInstr.consumeNewline

def ask (question : Lookahead) : Parse Bool := Program.perform (ParseInstr.ask question)

def expectIdent (message : String) : Parse String :=
  Program.perform (ParseInstr.call (.expectIdent message))

def expectKind (expected : TokenKind) (code message : String) : Parse Unit :=
  Program.perform (ParseInstr.call (.expectKind expected code message))

def path : Parse (List String) := Program.perform (ParseInstr.call .path)

def importPath : Parse (List String) := Program.perform (ParseInstr.call .importPath)

def typeRef : Parse TypeRef := Program.perform (ParseInstr.call .typeRef)

def callTypeArgs : Parse (List TypeRef) := Program.perform ParseInstr.callTypeArgs

def allowStructLiterals : Parse Bool := Program.perform ParseInstr.allowStructLiterals

def setAllowStructLiterals (value : Bool) : Parse Unit :=
  Program.perform (ParseInstr.setAllowStructLiterals value)

def implSelfType : Parse (Option TypeRef) := Program.perform ParseInstr.implSelfType

def setImplSelfType (value : Option TypeRef) : Parse Unit :=
  Program.perform (ParseInstr.setImplSelfType value)

/-- Stop. -/
def stop {α : Type} (reason : Stop) : Parse α := .op (.stop reason) Empty.elim

/-- A diagnostic at a token. -/
def errorAt {α : Type} (token : Token) (code message : String) (length : ℕ) : Parse α :=
  stop (.diagnostic { code, message, span := { tokenSpan token with length } })

/-- `error`, at the next token. -/
def error {α : Type} (code message : String) (length : Token → ℕ) : Parse α := do
  let token ← peek
  errorAt token code message (length token)

/-- A loop, to a number of rounds given in advance. -/
def loop {α β : Type} (round : α → Parse (α ⊕ β)) : ℕ → α → Parse β :=
  Program.loop (stop .tooDeep) round

/-- Whether the next token is of one kind. -/
def nextIs (kind : TokenKind) : Parse Bool := do
  return (← peek).kind = kind

/-- Take the next token if it is of one kind. -/
def take (kind : TokenKind) : Parse Bool := do
  if (← peek).kind = kind then do
    advance
    return true
  else return false

/-- `expect_newline`. -/
def expectNewline (message : String) : Parse Unit := do
  match (← peek).kind with
  | .newline => skipNewlines
  | .eof => return
  | _ => error "E0211" message Token.length

end Parse

/-- The parsers that call each other, to a depth given in advance. -/
structure Recursive where
  rounds : ℕ
  parseExpr : Parse Expr
  parseUnaryExpr : Parse Expr
  parseNameOrCall : Parse Expr
  parseStmt : Parse Stmt

/-- The parsers at depth 0. -/
def Recursive.tooDeep : Recursive where
  rounds := 0
  parseExpr := Parse.stop .tooDeep
  parseUnaryExpr := Parse.stop .tooDeep
  parseNameOrCall := Parse.stop .tooDeep
  parseStmt := Parse.stop .tooDeep

end Nomo.Syntax
