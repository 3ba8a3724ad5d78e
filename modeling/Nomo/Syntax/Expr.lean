import Nomo.Syntax.Parser

/-!
# Parsing expressions

`nomo_syntax/src/parser_expr.rs`. The parsers of operators are one parser with the operators and the
operands of its level; each function of the source is that parser at its level.
-/

namespace Nomo.Syntax

open Nomo.Lib Parse

variable (r : Recursive)

/-! ## Operators -/

/-- Skip newlines, at the levels that do. -/
def skipNewlinesIf (skips : Bool) : Parse Unit := if skips then skipNewlines else pure ()

/-- One round of the loop over the operators of a level. -/
def binaryRound (binaryOp : TokenKind → Option BinaryOp) (skips : Bool) (operand : Parse Expr)
    (left : Expr) : Parse (Expr ⊕ Expr) := do
  match binaryOp (← peek).kind with
  | some op => do
    advance
    skipNewlinesIf skips
    let right ← operand
    return .inl (.binary left op right)
  | none => return .inr left

/-- The operators of one level. -/
def parseBinary (binaryOp : TokenKind → Option BinaryOp) (skips : Bool) (operand : Parse Expr) :
    Parse Expr := do
  let left ← operand
  loop (binaryRound binaryOp skips operand) r.rounds left

/-- `parse_expr_no_struct_literals`, and the condition of `parse_if_expr`. -/
def parseExprNoStructLiterals : Parse Expr := do
  let previous ← allowStructLiterals
  setAllowStructLiterals false
  let expr ← r.parseExpr
  setAllowStructLiterals previous
  return expr

/-! ## Patterns -/

/-- `parse_match_binding`. -/
def parseMatchBinding : Parse (Option String) := do
  if ← take .lParen then do
    let bindingToken ← peek
    let binding ← expectIdent "expected binding name in match pattern"
    if binding = "_" then
      errorAt bindingToken "E0238" "`_` match bindings are not supported in v0.1" bindingToken.length
    else do
      expectKind .rParen "E0234" "expected `)` after match pattern binding"
      return some binding
  else return none

/-- `parse_match_pattern`. -/
def parseMatchPattern : Parse (List String) := do
  let patternToken ← peek
  let pattern ← path
  if pattern = ["_"] then
    errorAt patternToken "E0238" "`_` match patterns are not supported in v0.1" patternToken.length
  else return pattern

/-! ## Names and calls -/

/-- `starts_try_operand`. -/
def startsTryOperand : TokenKind → Bool
  | .string _ | .int _ | .float _ | .char _ | .kwTrue | .kwFalse | .kwVoid | .kwIf | .kwMatch
  | .kwPanic | .ident _ => true
  | _ => false

/-- One round of the loop of `parse_struct_literal`. -/
def structFieldRound (fields : List (String × Expr)) :
    Parse (List (String × Expr) ⊕ List (String × Expr)) := do
  let fieldName ← expectIdent "expected struct literal field name"
  expectKind .colon "E0223" "expected `:` after struct literal field name"
  let value ← r.parseExpr
  let fields := fields ++ [(fieldName, value)]
  skipNewlines
  match (← peek).kind with
  | .comma => do
    advance
    skipNewlines
    if ← nextIs .rBrace then return .inr fields else return .inl fields
  | .rBrace => return .inr fields
  | _ => error "E0224" "expected `,` or `\x7d` after struct literal field" Token.length

/-- The fields of a struct literal. -/
def structFields : Parse (List (String × Expr)) := do
  if ← nextIs .rBrace then return [] else loop (structFieldRound r) r.rounds []

/-- `parse_struct_literal`. -/
def parseStructLiteral (typeName : List String) : Parse Expr := do
  expectKind .lBrace "E0222" "expected `\x7b` before struct literal fields"
  skipNewlines
  let fields ← structFields r
  skipNewlines
  expectKind .rBrace "E0225" "expected `\x7d` after struct literal"
  return .structLiteral typeName fields

/-- `parse_call_arg`. -/
def parseCallArg : Parse Expr := do
  if ← take .kwMut then do
    let name ← path
    return .mutArg name
  else r.parseExpr

/-- One round of the loop over the arguments of a call, after the first. -/
def callArgRound (args : List Expr) : Parse (List Expr ⊕ List Expr) := do
  skipNewlines
  if ← take .comma then do
    skipNewlines
    let arg ← parseCallArg r
    return .inl (args ++ [arg])
  else return .inr args

/-- The arguments of a call. -/
def callArgs : Parse (List Expr) := do
  if ← nextIs .rParen then return []
  else do
    let first ← parseCallArg r
    loop (callArgRound r) r.rounds [first]

/-- A call from its parenthesis on. -/
def finishCall (callee : List String) (typeArgs : List TypeRef) : Parse Expr := do
  advance
  skipNewlines
  let args ← callArgs r
  skipNewlines
  expectKind .rParen "E0210" "expected `)` after call arguments"
  return .call callee typeArgs args

/-- A name or a call from its type arguments on: `parse_name_or_call`, lines 429–477. -/
def finishNameOrCall (callee : List String) (typeArgs : List TypeRef) : Parse Expr := do
  if ← nextIs .lParen then finishCall r callee typeArgs
  else if callee = ["task", "spawn"] then
    if typeArgs.isEmpty then do
      let target ← r.parseNameOrCall
      return .call ["task", "\x00nomo_structured_spawn"] [] [target]
    else error "E0875" "structured task.spawn does not accept explicit type arguments" Token.length
  else if typeArgs.isEmpty then return .name callee
  else error "E0210" "expected `(` after generic call type arguments" Token.length

/-- `parse_name_or_call`. -/
def parseNameOrCall : Parse Expr := do
  let callee ← path
  let token ← peek
  if callee = ["try"] ∧ startsTryOperand token.kind = true then
    error "E0211" "`try` propagation syntax is not supported; use postfix `?` instead" Token.length
  else do
    let structLiterals ← allowStructLiterals
    if structLiterals = true ∧ token.kind = .lBrace then parseStructLiteral r callee
    else do
      let typeArgs ← callTypeArgs
      finishNameOrCall r callee typeArgs

/-! ## Primary expressions -/

/-- One round of the loop of `parse_array_literal`. -/
def arrayElementRound (elements : List Expr) : Parse (List Expr ⊕ List Expr) := do
  let element ← r.parseExpr
  let elements := elements ++ [element]
  skipNewlines
  if ← take .comma then do
    skipNewlines
    if ← nextIs .rBracket then return .inr elements else return .inl elements
  else return .inr elements

/-- The elements of an array literal. -/
def arrayElements : Parse (List Expr) := do
  if ← nextIs .rBracket then return [] else loop (arrayElementRound r) r.rounds []

/-- `parse_array_literal`. -/
def parseArrayLiteral : Parse Expr := do
  expectKind .lBracket "E0860" "expected `[`"
  skipNewlines
  let elements ← arrayElements r
  expectKind .rBracket "E0860" "expected `]` after array literal"
  return .arrayLiteral elements

/-- `parse_panic_expr`. -/
def parsePanicExpr : Parse Expr := do
  expectKind .kwPanic "E0246" "expected `panic`"
  expectKind .lParen "E0247" "expected `(` after `panic`"
  let message ← r.parseExpr
  expectKind .rParen "E0248" "expected `)` after panic message"
  return .panicWith message

/-- `parse_expr_block`. -/
def parseExprBlock (openCode openMessage : String) : Parse Expr := do
  expectKind .lBrace openCode openMessage
  skipNewlines
  let value ← r.parseExpr
  skipNewlines
  expectKind .rBrace "E0242" "expected `\x7d` after expression block"
  return value

/-- `parse_if_expr`. -/
def parseIfExpr : Parse Expr := do
  expectKind .kwIf "E0240" "expected `if`"
  let condition ← parseExprNoStructLiterals r
  let thenBranch ← parseExprBlock r "E0241" "expected `\x7b` before if branch"
  skipNewlines
  expectKind .kwElse "E0244" "expected `else` after if branch"
  let elseBranch ← parseExprBlock r "E0245" "expected `\x7b` before else branch"
  return .ifElse condition thenBranch elseBranch

/-- One round of the loop over the arms of a `match`, whose body is parsed by `parseBody`. -/
def matchArmRound {β : Type} (parseBody : Parse β) (arms : List (List String × Option String × β)) :
    Parse (List (List String × Option String × β) ⊕ List (List String × Option String × β)) := do
  skipNewlines
  match (← peek).kind with
  | .rBrace => do
    advance
    return .inr arms
  | .eof => error "E0231" "unterminated match body; expected `\x7d`" fun _ => 1
  | _ => do
    let pattern ← parseMatchPattern
    let binding ← parseMatchBinding
    expectKind .fatArrow "E0232" "expected `=>` after match pattern"
    skipNewlines
    let body ← parseBody
    expectNewline "expected newline after match arm"
    return .inl (arms ++ [(pattern, binding, body)])

/-- A `match` from its keyword to its last arm. -/
def parseMatchArms {β : Type} (parseBody : Parse β) :
    Parse (Expr × List (List String × Option String × β)) := do
  expectKind .kwMatch "E0229" "expected `match`"
  let value ← parseExprNoStructLiterals r
  expectKind .lBrace "E0230" "expected `\x7b` before match arms"
  expectNewline "expected newline after `\x7b`"
  let arms ← loop (matchArmRound parseBody) r.rounds []
  return (value, arms)

/-- `parse_match_expr`. -/
def parseMatchExpr : Parse Expr := do
  let (value, arms) ← parseMatchArms r r.parseExpr
  return .«match» value arms

/-- An expression in parentheses. -/
def parseParenthesized : Parse Expr := do
  advance
  skipNewlines
  let expr ← r.parseExpr
  skipNewlines
  expectKind .rParen "E0209" "expected `)` after parenthesized expression"
  return expr

/-- A literal, which is one token. -/
def literal : TokenKind → Option Expr
  | .string value => some (.string value)
  | .int value => some (.int value)
  | .float value => some (.float value)
  | .char value => some (.char value)
  | .kwTrue => some (.bool true)
  | .kwFalse => some (.bool false)
  | .kwVoid => some .void
  | _ => none

/-- `parse_primary_expr`. -/
def parsePrimaryExpr : Parse Expr := do
  let token ← peek
  match literal token.kind with
  | some expr => do
    advance
    return expr
  | none =>
    match token.kind with
    | .lParen => parseParenthesized r
    | .lBracket => parseArrayLiteral r
    | .kwIf => parseIfExpr r
    | .kwMatch => parseMatchExpr r
    | .kwPanic => parsePanicExpr r
    | .ident _ => parseNameOrCall r
    | _ => error "E0208" "expected expression" Token.length

/-! ## The levels -/

/-- One round of the loop of `parse_postfix_expr`. -/
def postfixRound (expr : Expr) : Parse (Expr ⊕ Expr) := do
  match (← peek).kind with
  | .question => do
    advance
    return .inl (.question expr)
  | .lBracket => do
    advance
    skipNewlines
    let index ← r.parseExpr
    skipNewlines
    expectKind .rBracket "E0863" "expected `]` after array index"
    return .inl (.index expr index)
  | _ => return .inr expr

/-- `parse_postfix_expr`. -/
def parsePostfixExpr : Parse Expr := do
  let expr ← parsePrimaryExpr r
  loop (postfixRound r) r.rounds expr

/-- `parse_unary_expr`. -/
def parseUnaryExpr : Parse Expr := do
  match (← peek).kind with
  | .bang => do
    advance
    let expr ← r.parseUnaryExpr
    return .unary .not expr
  | .minus => do
    advance
    let expr ← r.parseUnaryExpr
    return .unary .negate expr
  | _ => parsePostfixExpr r

/-- One round of the loop of `parse_cast_expr`. -/
def castRound (expr : Expr) : Parse (Expr ⊕ Expr) := do
  if ← take .kwAs then do
    skipNewlines
    let target ← typeRef
    return .inl (.cast expr target)
  else return .inr expr

/-- `parse_cast_expr`. -/
def parseCastExpr : Parse Expr := do
  let expr ← parseUnaryExpr r
  loop castRound r.rounds expr

/-- The operators of `parse_multiplicative_expr`. -/
def multiplicativeOp : TokenKind → Option BinaryOp
  | .star => some .multiply
  | .slash => some .divide
  | .percent => some .remainder
  | .lessLess => some .shiftLeft
  | .greaterGreater => some .shiftRight
  | .amp => some .bitAnd
  | .ampCaret => some .bitAndNot
  | _ => none

/-- The operators of `parse_additive_expr`. -/
def additiveOp : TokenKind → Option BinaryOp
  | .plus => some .add
  | .minus => some .subtract
  | .pipe => some .bitOr
  | .caret => some .bitXor
  | _ => none

/-- The operators of `parse_comparison_expr`. -/
def comparisonOp : TokenKind → Option BinaryOp
  | .less => some .less
  | .lessEqual => some .lessEqual
  | .greater => some .greater
  | .greaterEqual => some .greaterEqual
  | _ => none

/-- The operators of `parse_equality_expr`. -/
def equalityOp : TokenKind → Option BinaryOp
  | .equalEqual => some .equal
  | .bangEqual => some .notEqual
  | _ => none

/-- The operator of `parse_logical_and_expr`. -/
def logicalAndOp : TokenKind → Option BinaryOp
  | .ampAmp => some .logicalAnd
  | _ => none

/-- The operator of `parse_logical_or_expr`. -/
def logicalOrOp : TokenKind → Option BinaryOp
  | .pipePipe => some .logicalOr
  | _ => none

/-- `parse_multiplicative_expr`. -/
def parseMultiplicativeExpr : Parse Expr := parseBinary r multiplicativeOp true (parseCastExpr r)

/-- `parse_additive_expr`. -/
def parseAdditiveExpr : Parse Expr := parseBinary r additiveOp true (parseMultiplicativeExpr r)

/-- `parse_comparison_expr`. -/
def parseComparisonExpr : Parse Expr := parseBinary r comparisonOp true (parseAdditiveExpr r)

/-- `parse_equality_expr`: newlines after an operator are not skipped. -/
def parseEqualityExpr : Parse Expr := parseBinary r equalityOp false (parseComparisonExpr r)

/-- `parse_logical_and_expr`. -/
def parseLogicalAndExpr : Parse Expr := parseBinary r logicalAndOp true (parseEqualityExpr r)

/-- `parse_logical_or_expr`. -/
def parseLogicalOrExpr : Parse Expr := parseBinary r logicalOrOp true (parseLogicalAndExpr r)

end Nomo.Syntax
