import Nomo.Syntax.Expr

/-!
# Parsing statements

`nomo_syntax/src/parser_stmt.rs`.
-/

namespace Nomo.Syntax

open Nomo.Lib Parse

variable (r : Recursive)

/-! ## Blocks -/

/-- One round of the loop of `parse_stmt_block`. -/
def stmtBlockRound (code message : String) (body : List Stmt) : Parse (List Stmt ⊕ List Stmt) := do
  skipNewlines
  match (← peek).kind with
  | .rBrace => do
    advance
    return .inr body
  | .eof => error code message fun _ => 1
  | _ => do
    let stmt ← r.parseStmt
    expectNewline "expected newline after statement"
    return .inl (body ++ [stmt])

/-- `parse_stmt_block`. -/
def parseStmtBlock (openCode openMessage : String) : Parse (List Stmt) := do
  expectKind .lBrace openCode openMessage
  skipNewlines
  loop (stmtBlockRound r "E0266" "unterminated block; expected `\x7d`") r.rounds []

/-! ## Assignments -/

/-- `assign_op_from_token`. -/
def assignOpFromToken : TokenKind → Option AssignOp
  | .equal => some .assign
  | .plusEqual => some .add
  | .minusEqual => some .subtract
  | .starEqual => some .multiply
  | .slashEqual => some .divide
  | .percentEqual => some .remainder
  | .lessLessEqual => some .shiftLeft
  | .greaterGreaterEqual => some .shiftRight
  | .ampEqual => some .bitAnd
  | .caretEqual => some .bitXor
  | .pipeEqual => some .bitOr
  | .ampCaretEqual => some .bitAndNot
  | _ => none

/-- `postfix_op_from_token`. -/
def postfixOpFromToken : TokenKind → Option PostfixOp
  | .plusPlus => some .increment
  | .minusMinus => some .decrement
  | _ => none

/-- One round of the loop over the indices of `parse_index_assign_stmt`. -/
def indexRound (indices : List Expr) : Parse (List Expr ⊕ List Expr) := do
  if ← take .lBracket then do
    skipNewlines
    let index ← r.parseExpr
    skipNewlines
    expectKind .rBracket "E0863" "expected `]` after array index"
    return .inl (indices ++ [index])
  else return .inr indices

/-- `parse_index_assign_stmt`. -/
def parseIndexAssignStmt (token : Token) : Parse Stmt := do
  match ← path with
  | [root] => do
    let indices ← loop (indexRound r) r.rounds []
    expectKind .equal "E0864" "expected `=` after indexed assignment target"
    let value ← r.parseExpr
    return .indexAssign root indices value (tokenSpan token)
  | _ => error "E0864" "indexed assignment root must be a variable" fun _ => token.length

/-- `parse_assign_stmt`. -/
def parseAssignStmt (token : Token) : Parse Stmt := do
  let target ← path
  if target.length > 2 then
    error "E0217" "assignment target must be a variable or field" fun _ => token.length
  else
    match assignOpFromToken (← peek).kind with
    | some op => do
      advance
      let value ← r.parseExpr
      return .assign target op value (tokenSpan token)
    | none => error "E0217" "expected assignment operator in assignment" fun _ => token.length

/-- `parse_postfix_stmt`. -/
def parsePostfixStmt (token : Token) : Parse Stmt := do
  let target ← path
  if target.length > 2 then
    error "E0217" "postfix update target must be a variable or field" fun _ => token.length
  else
    match postfixOpFromToken (← peek).kind with
    | some op => do
      advance
      return .postfixOp target op (tokenSpan token)
    | none => error "E0217" "expected postfix update operator" fun _ => token.length

/-! ## Bindings -/

/-- A type annotation, if there is one. -/
def typeAnnotation : Parse (Option TypeRef) := do
  if ← take .colon then do
    let annotation ← typeRef
    return some annotation
  else return none

/-- `let` with a pattern, from the pattern's binding on. -/
def finishLetElse (token nameToken : Token) (pattern : List String) : Parse Stmt := do
  match ← parseMatchBinding with
  | some binding => do
    expectKind .equal "E0213" "expected `=` before initializer"
    let value ← r.parseExpr
    expectKind .kwElse "E0267" "expected `else` after let-else initializer"
    let elseBody ← parseStmtBlock r "E0268" "expected `\x7b` before let-else body"
    return .letElse pattern binding value elseBody (tokenSpan token)
  | none => errorAt nameToken "E0234" "expected binding name in let-else pattern" nameToken.length

/-- `let` with a variable, from its type on. -/
def finishLet (token nameToken : Token) (mutable : Bool) : List String → Parse Stmt
  | [name] => do
    let annotation ← typeAnnotation
    expectKind .equal "E0213" "expected `=` before initializer"
    let value ← r.parseExpr
    return .letVar name mutable annotation value (tokenSpan token)
  | _ => errorAt nameToken "E0212" "expected variable name after `let`" nameToken.length

/-- `parse_let_stmt`. -/
def parseLetStmt (token : Token) : Parse Stmt := do
  expectKind .kwLet "E0212" "expected `let`"
  let mutable ← take .kwMut
  let nameToken ← peek
  let names ← path
  let isPattern ← nextIs .lParen
  if mutable = false ∧ isPattern = true then finishLetElse r token nameToken names
  else finishLet r token nameToken mutable names

/-- The `else` block of an `if let`, if there is one. -/
def ifLetElse : Parse (Option (List Stmt)) := do
  if ← take .kwElse then do
    let body ← parseStmtBlock r "E0273" "expected `\x7b` before if-let else body"
    return some body
  else return none

/-- `parse_if_let_stmt`. -/
def parseIfLetStmt (token : Token) : Parse Stmt := do
  expectKind .kwIf "E0269" "expected `if`"
  expectKind .kwLet "E0270" "expected `let` after `if`"
  let pattern ← parseMatchPattern
  let binding ← parseMatchBinding
  expectKind .equal "E0271" "expected `=` before if-let value"
  let value ← parseExprNoStructLiterals r
  let body ← parseStmtBlock r "E0272" "expected `\x7b` before if-let body"
  let elseBody ← ifLetElse r
  return .ifLet pattern binding value body elseBody (tokenSpan token)

/-! ## Control flow -/

/-- The value of `return`, if there is one. -/
def returnValue : Parse (Option Expr) := do
  match (← peek).kind with
  | .newline | .rBrace | .semicolon => return none
  | _ => do
    let value ← r.parseExpr
    return some value

/-- `parse_return_stmt`. -/
def parseReturnStmt (token : Token) : Parse Stmt := do
  expectKind .kwReturn "E0216" "expected `return`"
  let value ← returnValue r
  return .returnValue value (tokenSpan token)

/-- An assignment or an increment, which can update a loop. -/
def isUpdate : Stmt → Bool
  | .assign .. | .postfixOp .. => true
  | _ => false

/-- `for {}`. -/
def forInfinite : Parse ForVariant := do
  let body ← parseStmtBlock r "E0261" "expected `\x7b` before `for` body"
  return .infinite body

/-- `for binding in iterable {}`. -/
def forIterate : Parse ForVariant := do
  let binding ← expectIdent "expected binding name after `for`"
  expectKind .kwIn "E0262" "expected `in` after `for` binding"
  let iterable ← parseExprNoStructLiterals r
  let body ← parseStmtBlock r "E0263" "expected `\x7b` before `for` body"
  return .iterate binding iterable body

/-- `for let [mut] binding [: type] = initializer; condition; update {}`, after `let`. -/
def forCStyle : Parse ForVariant := do
  let _ ← take .kwMut
  let binding ← expectIdent "expected binding name after `for let`"
  let annotation ← typeAnnotation
  expectKind .equal "E0213" "expected `=` before for-loop initializer"
  let initializer ← r.parseExpr
  expectKind .semicolon "E0264" "expected `;` after for-loop initializer"
  let condition ← parseExprNoStructLiterals r
  expectKind .semicolon "E0264" "expected `;` after for-loop condition"
  let update ← r.parseStmt
  if isUpdate update then do
    let body ← parseStmtBlock r "E0264" "expected `\x7b` before `for` body"
    return .cStyle binding annotation initializer condition update body
  else
    error "E0217" "for-loop update must assign to or increment/decrement the loop binding" Token.length

/-- `for cond {}`. -/
def forWhile : Parse ForVariant := do
  let condition ← parseExprNoStructLiterals r
  let body ← parseStmtBlock r "E0264" "expected `\x7b` before `for` body"
  return .whileTrue condition body

/-- The form of a `for`. -/
def forVariant : Parse ForVariant := do
  if ← nextIs .lBrace then forInfinite r
  else if ← ask .nameIn then forIterate r
  else if ← take .kwLet then forCStyle r
  else forWhile r

/-- `parse_for_stmt`. -/
def parseForStmt (token : Token) : Parse Stmt := do
  expectKind .kwFor "E0260" "expected `for`"
  let variant ← forVariant r
  return .forLoop variant (tokenSpan token)

/-- `parse_match_stmt`. -/
def parseMatchStmt (token : Token) : Parse Stmt := do
  let (value, arms) ← parseMatchArms r (parseStmtBlock r "E0235" "expected `\x7b` before match arm body")
  return .«match» value arms (tokenSpan token)

/-- `parse_defer_stmt`. -/
def parseDeferStmt (token : Token) : Parse Stmt := do
  expectKind .kwDefer "E0265" "expected `defer`"
  let stmt ← r.parseStmt
  return .defer stmt (tokenSpan token)

/-- `parse_unsafe_stmt`. -/
def parseUnsafeStmt (token : Token) : Parse Stmt := do
  expectKind .kwUnsafe "E1517" "expected `unsafe`"
  let body ← parseStmtBlock r "E1518" "expected `\x7b` before unsafe block"
  if body.length = 1 then return .unsafeBlock body (tokenSpan token)
  else errorAt token "E1519" "v0.1 unsafe blocks must contain exactly one statement" token.length

/-! ## Tasks -/

/-- The place of a statement that starts with `task.`, with its first words as text. -/
def taskSpan (token : Token) (words : String) : Span where
  line := token.line
  column := token.column
  length := words.utf8ByteSize
  text := words

/-- `parse_task_scope_stmt`. -/
def parseTaskScopeStmt (token : Token) : Parse Stmt := do
  let _ ← expectIdent "expected `task`"
  expectKind .dot "E0871" "expected `.` after `task`"
  let _ ← expectIdent "expected `scope` after `task.`"
  let body ← parseStmtBlock r "E0871" "expected `\x7b` before task scope body"
  return .taskScope body (taskSpan token "task.scope")

/-- `parse_task_deadline_stmt`. -/
def parseTaskDeadlineStmt (token : Token) : Parse Stmt := do
  let _ ← expectIdent "expected `task`"
  expectKind .dot "E0871" "expected `.` after `task`"
  let _ ← expectIdent "expected `deadline` after `task.`"
  expectKind .lParen "E0871" "expected `(` after `task.deadline`"
  let duration ← r.parseExpr
  expectKind .rParen "E0871" "expected `)` after task deadline duration"
  let body ← parseStmtBlock r "E0871" "expected `\x7b` before task deadline body"
  return .taskDeadline duration body (taskSpan token "task.deadline")

/-- One round of the loop over the arms of `parse_task_select_stmt`. -/
def selectArmRound (arms : List (Expr × String × List Stmt × Span)) :
    Parse (List (Expr × String × List Stmt × Span) ⊕ List (Expr × String × List Stmt × Span)) := do
  skipNewlines
  let armToken ← peek
  match armToken.kind with
  | .rBrace => do
    advance
    return .inr arms
  | .eof => error "E0886" "unterminated task.select body; expected `\x7d`" fun _ => 1
  | _ => do
    let operation ← r.parseExpr
    expectKind .fatArrow "E0886" "expected `=>` after task.select operation"
    let binding ← expectIdent "expected immutable result binding after task.select `=>`"
    skipNewlines
    let body ← parseStmtBlock r "E0886" "expected `\x7b` before task.select arm body"
    expectNewline "expected newline after task.select arm"
    return .inl (arms ++ [(operation, binding, body, tokenSpan armToken)])

/-- `parse_task_select_stmt`. -/
def parseTaskSelectStmt (token : Token) : Parse Stmt := do
  let _ ← expectIdent "expected `task`"
  expectKind .dot "E0886" "expected `.` after `task`"
  let _ ← expectIdent "expected `select` after `task.`"
  expectKind .lBrace "E0886" "expected `\x7b` before task.select arms"
  let arms ← loop (selectArmRound r) r.rounds []
  if 2 ≤ arms.length ∧ arms.length ≤ 8 then return .taskSelect arms (taskSpan token "task.select")
  else
    errorAt token "E0886" s!"task.select expects 2 through 8 static arms, got {arms.length}"
      "task.select".utf8ByteSize

/-! ## Statements -/

/-- A statement that starts with a keyword of its own. -/
def keywordStmt (token : Token) : Option (Parse Stmt) :=
  match token.kind with
  | .kwReturn => some (parseReturnStmt r token)
  | .kwFor => some (parseForStmt r token)
  | .kwMatch => some (parseMatchStmt r token)
  | .kwBreak => some do
    advance
    return .breakLoop (tokenSpan token)
  | .kwContinue => some do
    advance
    return .continueLoop (tokenSpan token)
  | .kwDefer => some (parseDeferStmt r token)
  | .kwUnsafe => some (parseUnsafeStmt r token)
  | _ => none

/-- A statement without a keyword of its own. -/
def plainStmt (token : Token) : Parse Stmt := do
  if ← ask .startsIndexAssignment then parseIndexAssignStmt r token
  else if ← ask .startsAssign then parseAssignStmt r token
  else if ← ask .startsPostfix then parsePostfixStmt token
  else do
    let expr ← r.parseExpr
    return .expr expr (tokenSpan token)

/-- `parse_stmt`. -/
def parseStmt : Parse Stmt := do
  let token ← peek
  if ← ask (.taskDot "select") then parseTaskSelectStmt r token
  else if ← ask (.taskDot "scope") then parseTaskScopeStmt r token
  else if ← ask (.taskDot "deadline") then parseTaskDeadlineStmt r token
  else if token.kind = .kwLet then parseLetStmt r token
  else if ← ask .ifLet then parseIfLetStmt r token
  else
    match keywordStmt r token with
    | some stmt => stmt
    | none => plainStmt r token

/-! ## Depths -/

/-- The parsers to a depth given in advance. -/
def recursive : ℕ → Recursive
  | 0 => .tooDeep
  | depth + 1 =>
    let r := recursive depth
    { rounds := depth + 1
      parseExpr := parseLogicalOrExpr r
      parseUnaryExpr := parseUnaryExpr r
      parseNameOrCall := parseNameOrCall r
      parseStmt := parseStmt r }

end Nomo.Syntax
